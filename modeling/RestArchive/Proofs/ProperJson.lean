import RestArchive.Json.Reader
import RestArchive.Value.OfJson
import RestArchive.Value.ToJson

/-! # Proper JSON

JSON text writes no infinite number, and no integer that 64 bits do not hold: what the reader makes of a
text is *proper* (`Json.isProper_of_ofText?`). A proper value becomes a stored one that JSON shows as it
is, so a stored value that came from JSON comes back the same (`Value.ofJson_toJson_ofJson`). -/

namespace RestArchive

/-- What every step of a fold keeps holds at its end. -/
theorem holds_of_foldlM {σ α : Type} {motive : σ → Prop} {step : σ → α → Option σ} {items : List α}
    (hstep : ∀ {state item next}, item ∈ items → motive state → step state item = some next →
      motive next) :
    ∀ {start final}, motive start → items.foldlM step start = some final → motive final := by
  induction items with
  | nil =>
    intro start final hstart h
    cases h
    exact hstart
  | cons item items ih =>
    intro start final hstart h
    rw [List.foldlM_cons, Option.bind_eq_bind, Option.bind_eq_some_iff] at h
    obtain ⟨next, hnext, hrest⟩ := h
    exact ih (fun hitem => hstep (List.mem_cons_of_mem _ hitem))
      (hstep List.mem_cons_self hstart hnext) hrest

/-! ## Doubles -/

namespace Binary64

/-- The bits below the sign are those that were given, if they leave the sign alone. -/
theorem magnitudeBits_ofParts (negative : Bool) {bits : Nat} (h : bits < Nat.pow 2 63) :
    (ofParts negative bits).magnitudeBits = bits := by
  simp only [ofParts, magnitudeBits, word, UInt64.toNat_ofNat', Nat.pow_eq] at h ⊢
  split <;> omega

/-- A double is finite when the bits below its sign are less than those of the infinite magnitude. -/
theorem isFinite_ofParts (negative : Bool) {magnitudeBits : Nat} (h : magnitudeBits < infiniteBits) :
    (ofParts negative magnitudeBits).isFinite := by
  have hsign : magnitudeBits < Nat.pow 2 63 := by
    simp only [infiniteBits, Nat.pow_eq] at h ⊢
    omega
  rw [isFinite, exponentField, magnitudeBits_ofParts negative hsign, decide_eq_true_eq]
  exact Nat.div_lt_of_lt_mul (by rwa [Nat.mul_comm])

/-- A quotient that does not round to an infinite double gives a finite one. -/
theorem isFinite_of_ofRatio? {negative : Bool} {numerator denominator : Nat} {double : Binary64}
    (h : ofRatio? negative numerator denominator = some double) : double.isFinite := by
  rw [ofRatio?, Option.ite_none_right_eq_some] at h
  obtain ⟨hbits, heq⟩ := h
  cases heq
  exact isFinite_ofParts negative hbits

/-- A quotient is rounded up by less than one. -/
theorem roundHalfEven_le (numerator denominator : Nat) :
    roundHalfEven numerator denominator ≤ numerator / denominator + 1 := by
  rw [roundHalfEven]
  split <;> omega

/-- Fifty-three bits of a number are left, whatever its length. -/
theorem roundHalfEven_log2_le (number : Nat) :
    roundHalfEven number (Nat.pow 2 (number.log2 + 1 - 53)) ≤ Nat.pow 2 53 := by
  have hquotient : number / 2 ^ (number.log2 + 1 - 53) < 2 ^ 53 := by
    refine Nat.div_lt_of_lt_mul (Nat.lt_of_lt_of_le Nat.lt_log2_self ?_)
    rw [← Nat.pow_add]
    exact Nat.pow_le_pow_right (by decide) (by omega)
  exact Nat.le_trans (roundHalfEven_le _ _) hquotient

/-- A number that is shifted gets longer by the shift. -/
theorem log2_mul_lt {n length : Nat} (hlength : 0 < length) (h : n < Nat.pow 2 length)
    (shift : Nat) : (n * Nat.pow 2 shift).log2 < length + shift := by
  by_cases hzero : n * 2 ^ shift = 0
  · simp only [Nat.pow_eq, hzero, Nat.log2_zero]
    omega
  · refine (Nat.log2_lt hzero).mpr ?_
    rw [Nat.pow_add]
    exact Nat.mul_lt_mul_of_pos_right h (Nat.two_pow_pos shift)

/-- The bits that are left of a number, behind how many are dropped, make a finite double. -/
theorem rounded_lt {scaled : Nat} (h : scaled.log2 < 64 + 1074) :
    (scaled.log2 + 1 - 53) * Nat.pow 2 52 +
      roundHalfEven scaled (Nat.pow 2 (scaled.log2 + 1 - 53)) < infiniteBits := by
  -- Fewer than 1087 bits are dropped, and what is left adds at most two to that exponent.
  have hrounded := roundHalfEven_log2_le scaled
  simp only [infiniteBits, Nat.pow_eq] at hrounded ⊢
  omega

/-- A number of at most 64 bits is far below the infinite magnitude. -/
theorem nearestBits_lt {n : Nat} (h : n < Nat.pow 2 64) : nearestBits n 1 < infiniteBits := by
  -- The power of the least positive double stays a symbol, so that nothing computes it.
  obtain ⟨shift, hshift⟩ : ∃ shift : Nat, shift = 1074 := ⟨1074, rfl⟩
  have hlog := log2_mul_lt (by decide) h shift
  simp only [nearestBits, ← hshift, Nat.div_one, Nat.one_mul]
  exact rounded_lt (hshift ▸ hlog)

/-- The double nearest to an integer of at most 64 bits is finite. -/
theorem isFinite_ofInt {n : Int} (h : n.natAbs < Nat.pow 2 64) : (ofInt n).isFinite :=
  isFinite_ofParts _ (nearestBits_lt h)

end Binary64

/-! ## What a text writes -/

namespace Json

/-- A value that JSON text can write: its integers have at most 64 bits, and its doubles are
finite. -/
inductive IsProper : Json → Prop where
  /-- The null value. -/
  | null : IsProper .null
  /-- A truth value. -/
  | bool (value : Bool) : IsProper (.bool value)
  /-- An integer of 64 bits, with or without sign. -/
  | integer {value : Int} (hlow : -0x8000000000000000 ≤ value) (hhigh : value < 0x10000000000000000) :
    IsProper (.integer value)
  /-- A finite double. -/
  | double {value : Binary64} (hfinite : value.isFinite) : IsProper (.double value)
  /-- A text. -/
  | string (text : String) : IsProper (.string text)
  /-- A list of proper values. -/
  | array {items : List Json} (hitems : ∀ item ∈ items, IsProper item) : IsProper (.array items)
  /-- Proper values under names. -/
  | object {members : List (String × Json)} (hmembers : ∀ entry ∈ members, IsProper entry.2) :
    IsProper (.object members)

/-- The double nearest to a decimal number is finite. -/
theorem isFinite_of_nearestDouble? {negative : Bool} {digits : Nat} {exponent : Int}
    {double : Binary64} (h : Numeral.nearestDouble? negative digits exponent = some double) :
    double.isFinite := by
  simp only [Numeral.nearestDouble?] at h
  split at h
  case isTrue =>
    cases h
    exact Binary64.isFinite_ofParts negative (by decide)
  case isFalse =>
    split at h
    case isTrue => cases h
    case isFalse => exact Binary64.isFinite_of_ofRatio? h

/-- A numeral writes a proper number. -/
theorem isProper_of_numeral {text : List Char} {numeral : Numeral}
    (h : Numeral.ofText? text = some numeral) : (ofNumeral numeral).IsProper := by
  rw [Numeral.ofText?, Option.bind_eq_some_iff] at h
  obtain ⟨parts, -, h⟩ := h
  unfold Numeral.ofParts? at h
  extract_lets fraction digits exponent value isInteger at h
  -- An integer has passed the check of its bounds; every other numeral is rounded.
  split at h
  case isTrue hinteger =>
    cases h
    simp only [isInteger, Bool.and_eq_true, decide_eq_true_eq] at hinteger
    exact .integer hinteger.1.2 hinteger.2
  case isFalse =>
    obtain ⟨double, hdouble, rfl⟩ := Option.map_eq_some_iff.mp h
    exact .double (isFinite_of_nearestDouble? hdouble)

namespace Token

/-- A token whose value, if it is one, is proper. -/
def IsProper (token : Token) : Prop := ∀ value, token = .scalar value → value.IsProper

/-- A word is a proper token. -/
theorem isProper_of_ofWord? {word : List Char} {token : Token} (h : ofWord? word = some token) :
    token.IsProper := by
  rintro value rfl
  simp only [ofWord?] at h
  split at h
  case isTrue =>
    cases h
    exact .null
  split at h
  case isTrue =>
    cases h
    exact .bool true
  split at h
  case isTrue =>
    cases h
    exact .bool false
  obtain ⟨numeral, hnumeral, heq⟩ := Option.map_eq_some_iff.mp h
  cases heq
  exact isProper_of_numeral hnumeral

/-- A token of one character is no value. -/
theorem isProper_of_ofChar? {c : Char} {token : Token} (h : ofChar? c = some token) :
    token.IsProper := by
  rintro value rfl
  simp only [ofChar?] at h
  repeat' split at h
  all_goals cases h

/-- The character behind a token adds a proper one, if any. -/
theorem forall_isProper_of_startAt? {tokens : List Token} {c : Char}
    {next : Scanner × List Token} (htokens : ∀ token ∈ tokens, token.IsProper)
    (h : startAt? tokens c = some next) : ∀ token ∈ next.2, token.IsProper := by
  simp only [startAt?] at h
  split at h
  case isTrue =>
    cases h
    exact htokens
  split at h
  case isTrue =>
    cases h
    exact htokens
  split at h
  case h_1 token htoken =>
    cases h
    exact List.forall_mem_cons.mpr ⟨isProper_of_ofChar? htoken, htokens⟩
  case h_2 =>
    rw [Option.ite_none_right_eq_some] at h
    obtain ⟨-, heq⟩ := h
    cases heq
    exact htokens

/-- Every character keeps the tokens read proper. -/
theorem forall_isProper_of_step? {state next : Scanner × List Token} {c : Char}
    (htokens : ∀ token ∈ state.2, token.IsProper) (h : step? state c = some next) :
    ∀ token ∈ next.2, token.IsProper := by
  obtain ⟨scanner, tokens⟩ := state
  -- Only a word that ends and a text that ends add a token; every other character moves the scanner.
  have hmoved {moved : Option Scanner} (h : (moved.map fun next => (next, tokens)) = some next) :
      ∀ token ∈ next.2, token.IsProper := by
    obtain ⟨scanner', -, rfl⟩ := Option.map_eq_some_iff.mp h
    exact htokens
  cases scanner with
  | between => exact forall_isProper_of_startAt? htokens h
  | word read =>
    simp only [step?] at h
    split at h
    case isTrue =>
      cases h
      exact htokens
    case isFalse =>
      obtain ⟨word, hword, h⟩ := Option.bind_eq_some_iff.mp h
      exact forall_isProper_of_startAt?
        (List.forall_mem_cons.mpr ⟨isProper_of_ofWord? hword, htokens⟩) h
  | text read =>
    simp only [step?] at h
    split at h
    case isTrue =>
      cases h
      exact List.forall_mem_cons.mpr ⟨fun _ => nofun, htokens⟩
    case isFalse => exact hmoved h
  | escape read => exact hmoved h
  | unit read left value high => exact hmoved h
  | afterHigh read high => exact hmoved h
  | escapeAfterHigh read high => exact hmoved h

/-- The tokens of a text are proper. -/
theorem forall_isProper_of_ofText? {text : String} {tokens : List Token}
    (h : ofText? text = some tokens) : ∀ token ∈ tokens, token.IsProper := by
  obtain ⟨⟨scanner, found⟩, hfound, h⟩ := Option.bind_eq_some_iff.mp h
  have hproper : ∀ token ∈ found, token.IsProper :=
    holds_of_foldlM (motive := fun state => ∀ token ∈ state.2, token.IsProper)
      (fun _ => forall_isProper_of_step?) (List.forall_mem_nil _) hfound
  cases scanner with
  | between =>
    cases h
    exact fun token htoken => hproper token (List.mem_reverse.mp htoken)
  | word read =>
    obtain ⟨word, hword, rfl⟩ := Option.map_eq_some_iff.mp h
    have hwords := List.forall_mem_cons.mpr ⟨isProper_of_ofWord? hword, hproper⟩
    exact fun token htoken => hwords token (List.mem_reverse.mp htoken)
  | text _ => cases h
  | escape _ => cases h
  | unit _ _ _ _ => cases h
  | afterHigh _ _ => cases h
  | escapeAfterHigh _ _ => cases h

end Token

/-- An open container whose values so far are proper. -/
def Container.IsProper : Container → Prop
  | .array items => ∀ item ∈ items, item.IsProper
  | .object members _ => ∀ entry ∈ members, entry.2.IsProper

namespace Reading

/-- A reading that holds proper values only. -/
inductive IsProper : Reading → Prop where
  /-- The open containers hold proper values, and so does an embedded text that ends. -/
  | within {containers : List Container} {next : Expectation}
    (hcontainers : ∀ container ∈ containers, container.IsProper)
    (hnext : ∀ value, next = .embeddedClose value → value.IsProper) :
    IsProper (.within containers next)
  /-- The whole value is proper. -/
  | done {value : Json} (hvalue : value.IsProper) : IsProper (.done value)

variable {containers : List Container} {token : Token} {next : Reading}

/-- A proper value makes a proper reading of the containers it is handed to. -/
theorem isProper_give {value : Json} (hcontainers : ∀ container ∈ containers, container.IsProper)
    (hvalue : value.IsProper) : (give value containers).IsProper := by
  cases containers with
  | nil => exact .done hvalue
  | cons container outer =>
    obtain ⟨hcontainer, houter⟩ := List.forall_mem_cons.mp hcontainers
    cases container with
    | array items =>
      refine .within (List.forall_mem_cons.mpr ⟨?_, houter⟩) nofun
      exact List.forall_mem_cons.mpr ⟨hvalue, hcontainer⟩
    | object members name =>
      refine .within (List.forall_mem_cons.mpr ⟨?_, houter⟩) nofun
      exact Entries.forall_mem_insert hcontainer hvalue

/-- A container of proper values is a proper value when it ends. -/
theorem isProper_of_close? (hcontainers : ∀ container ∈ containers, container.IsProper)
    (h : close? token containers = some next) : next.IsProper := by
  cases containers with
  | nil => cases h
  | cons container outer =>
    obtain ⟨hcontainer, houter⟩ := List.forall_mem_cons.mp hcontainers
    cases container with
    | array items =>
      cases token <;> cases h
      exact isProper_give houter (.array fun item hitem => hcontainer item (List.mem_reverse.mp hitem))
    | object members name =>
      cases token <;> cases h
      exact isProper_give houter (.object hcontainer)

/-- The first token of a value keeps a reading proper. -/
theorem isProper_of_start? {depth : Nat} (hcontainers : ∀ container ∈ containers, container.IsProper)
    (htoken : token.IsProper) (h : start? depth containers token = some next) : next.IsProper := by
  cases token with
  | text value =>
    cases h
    exact isProper_give hcontainers (.string value)
  | scalar value =>
    cases h
    exact isProper_give hcontainers (htoken value rfl)
  | openArray =>
    simp only [start?, Option.ite_none_right_eq_some] at h
    obtain ⟨-, heq⟩ := h
    cases heq
    exact .within (List.forall_mem_cons.mpr ⟨List.forall_mem_nil _, hcontainers⟩) nofun
  | openObject =>
    simp only [start?, Option.ite_none_right_eq_some] at h
    obtain ⟨-, heq⟩ := h
    cases heq
    exact .within (List.forall_mem_cons.mpr ⟨List.forall_mem_nil _, hcontainers⟩) nofun
  | closeArray => cases h
  | closeObject => cases h
  | comma => cases h
  | colon => cases h

/-- The name of a member changes no value. -/
theorem isProper_of_name? (hcontainers : ∀ container ∈ containers, container.IsProper)
    (h : name? containers token = some next) : next.IsProper := by
  match containers, token with
  | .object members _ :: outer, .text name =>
    cases h
    obtain ⟨hmembers, houter⟩ := List.forall_mem_cons.mp hcontainers
    exact .within (List.forall_mem_cons.mpr ⟨hmembers, houter⟩) nofun

/-- The first name of an object changes no value. -/
theorem isProper_of_firstName? (hcontainers : ∀ container ∈ containers, container.IsProper)
    (h : firstName? containers token = some next) : next.IsProper := by
  match containers, token with
  | .object members _ :: outer, .text first =>
    simp only [firstName?] at h
    split at h
    case isTrue =>
      cases h
      exact .within (List.forall_mem_cons.mp hcontainers).2 nofun
    case isFalse => exact isProper_of_name? hcontainers h

/-- Every token keeps a reading proper when what is read of embedded texts is. -/
theorem isProper_of_step? {depth : Nat} {read : String → Option Json} {reading : Reading}
    (hread : ∀ {text value}, read text = some value → value.IsProper) (hreading : reading.IsProper)
    (htoken : token.IsProper) (h : step? depth read reading token = some next) :
    next.IsProper := by
  cases hreading with
  | done _ => cases h
  | @within containers expected hcontainers hnext =>
    cases expected with
    | value => exact isProper_of_start? hcontainers htoken h
    | valueOrClose =>
      cases token
      case closeArray =>
        simp only [step?] at h
        exact isProper_of_close? hcontainers h
      all_goals
        simp only [step?] at h
        exact isProper_of_start? hcontainers htoken h
    | name => exact isProper_of_name? hcontainers h
    | nameOrClose =>
      cases token
      case closeObject =>
        simp only [step?] at h
        exact isProper_of_close? hcontainers h
      all_goals exact isProper_of_firstName? hcontainers h
    | colon =>
      cases token <;> cases h
      exact .within hcontainers nofun
    | commaOrClose =>
      cases token
      case comma =>
        match containers with
        | .array _ :: _ | .object _ _ :: _ =>
          cases h
          exact .within hcontainers nofun
      all_goals
        simp only [step?] at h
        exact isProper_of_close? hcontainers h
    | embeddedColon =>
      cases token <;> cases h
      exact .within hcontainers nofun
    | embeddedText =>
      cases token
      case text content =>
        obtain ⟨value, hvalue, rfl⟩ := Option.map_eq_some_iff.mp h
        refine .within hcontainers fun value' heq => ?_
        cases heq
        exact hread hvalue
      all_goals cases h
    | embeddedClose value =>
      cases token <;> cases h
      exact isProper_give hcontainers (hnext value rfl)

end Reading

/-- What the reader makes of a text is proper, however deep texts are embedded in it. -/
theorem isProper_of_readNested? {levels depth : Nat} {text : String} {value : Json}
    (h : readNested? levels depth text = some value) : value.IsProper := by
  induction levels generalizing depth text value with
  | zero => cases h
  | succ levels ih =>
    simp only [readNested?, Option.bind_eq_bind, Option.bind_eq_some_iff] at h
    obtain ⟨tokens, htokens, final, hfinal, h⟩ := h
    have hstart : (Reading.within [] .value).IsProper := .within (List.forall_mem_nil _) nofun
    have hproper : final.IsProper :=
      holds_of_foldlM (fun hmem hreading => Reading.isProper_of_step? (fun h => ih h) hreading
        (Token.forall_isProper_of_ofText? htokens _ hmem)) hstart hfinal
    cases hproper with
    | within _ _ => cases h
    | done hvalue =>
      cases h
      exact hvalue

/-- A JSON text writes a proper value. -/
theorem isProper_of_ofText? {text : String} {value : Json} (h : ofText? text = some value) :
    value.IsProper :=
  isProper_of_readNested? h

end Json

/-! ## Back from JSON -/

namespace Value

/-- An integer of 64 bits with a sign is shown as the number that it was. -/
theorem toJson_ofInteger {n : Int} (h : -0x8000000000000000 ≤ n ∧ n < 0x8000000000000000) :
    (ofInteger n).toJson = .integer n := by
  by_cases hshort : -0x80000000 ≤ n ∧ n < 0x80000000
  · have hsame : (Int32.ofInt n).toInt = n := Int32.toInt_ofInt_of_le hshort.1 hshort.2
    simp [ofInteger, hshort, toJson, hsame]
  · have hsame : (Int64.ofInt n).toInt = n := Int64.toInt_ofInt_of_le h.1 h.2
    simp [ofInteger, hshort, h, toJson, hsame]

/-- An integer of 64 bits is shown as the number it was stored as. -/
theorem ofJson_toJson_ofInteger {n : Int} (hlow : -0x8000000000000000 ≤ n)
    (hhigh : n < 0x10000000000000000) : ofJson (ofInteger n).toJson = ofInteger n := by
  by_cases hlong : -0x8000000000000000 ≤ n ∧ n < 0x8000000000000000
  · rw [toJson_ofInteger hlong, ofJson]
  · -- Above the signed numbers of 64 bits the nearest double is stored, and shown.
    have hshort : ¬ (-0x80000000 ≤ n ∧ n < 0x80000000) := by omega
    have hfinite : (Binary64.ofInt n).isFinite := Binary64.isFinite_ofInt (by
      rw [Nat.pow_eq]
      omega)
    simp [ofInteger, hshort, hlong, toJson, ofJson, hfinite]

/-- Items that come back the same make a list that does. -/
theorem itemsOfJson_itemsToJson {items : List Json}
    (h : ∀ item ∈ items, ofJson (ofJson item).toJson = ofJson item) :
    itemsOfJson (itemsToJson (itemsOfJson items)) = itemsOfJson items := by
  induction items with
  | nil => rfl
  | cons item items ih =>
    obtain ⟨hitem, hitems⟩ := List.forall_mem_cons.mp h
    simp only [itemsOfJson, itemsToJson, hitem, ih hitems]

/-- Members that come back the same make a document that does. -/
theorem membersOfJson_membersToJson {members : List (String × Json)}
    (h : ∀ entry ∈ members, ofJson (ofJson entry.2).toJson = ofJson entry.2) :
    membersOfJson (membersToJson (membersOfJson members)) = membersOfJson members := by
  induction members with
  | nil => rfl
  | cons entry members ih =>
    obtain ⟨hentry, hmembers⟩ := List.forall_mem_cons.mp h
    simp only [membersOfJson, membersToJson, hentry, ih hmembers]

/-- A stored value that came from proper JSON comes back the same from how JSON shows it. -/
theorem ofJson_toJson_ofJson {value : Json} (h : value.IsProper) :
    ofJson (ofJson value).toJson = ofJson value := by
  induction h with
  | null => rfl
  | bool _ => rfl
  | integer hlow hhigh => exact ofJson_toJson_ofInteger hlow hhigh
  | double hfinite => simp only [ofJson, toJson, hfinite, if_true]
  | string _ => rfl
  | array _ ih => exact congrArg array (itemsOfJson_itemsToJson ih)
  | object _ ih => exact congrArg document (membersOfJson_membersToJson ih)

end Value

end RestArchive

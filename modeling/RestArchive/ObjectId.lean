/-! # Object identifiers

Documents and the elements of arrays are named by identifiers of twelve bytes, written as twenty-four
hexadecimal digits. Reading takes digits of either case, writing gives lowercase ones
(`ofHex?_toHex`). -/

namespace RestArchive

/-- A text is lowered character by character. -/
theorem toList_toLower (text : String) : text.toLower.toList = text.toList.map Char.toLower :=
  String.toList_map

/-- An identifier of twelve bytes, by its hexadecimal digits. -/
structure ObjectId where
  /-- The digits, the most significant first. -/
  digits : List (Fin 16)
  /-- Twelve bytes are twenty-four digits. -/
  length_digits : digits.length = 24
  deriving DecidableEq, Repr

namespace ObjectId

/-- Whether a character is a hexadecimal digit of either case. -/
def isHexDigit (c : Char) : Bool :=
  ('0' ≤ c && c ≤ '9') || ('a' ≤ c && c ≤ 'f') || ('A' ≤ c && c ≤ 'F')

/-- The value of a hexadecimal digit; other characters count as zero. -/
def hexValue (c : Char) : Fin 16 :=
  if '0' ≤ c ∧ c ≤ '9' then Fin.ofNat 16 (c.toNat - '0'.toNat)
  else if 'a' ≤ c ∧ c ≤ 'f' then Fin.ofNat 16 (c.toNat - 'a'.toNat + 10)
  else if 'A' ≤ c ∧ c ≤ 'F' then Fin.ofNat 16 (c.toNat - 'A'.toNat + 10)
  else 0

/-- The lowercase digit of a value. -/
def hexChar (value : Fin 16) : Char := Nat.digitChar value

/-- Whether a text is an identifier: exactly twenty-four hexadecimal digits. -/
def isIdText (text : String) : Bool :=
  text.toList.length = 24 && text.toList.all isHexDigit

/-- The identifier that a text writes, if it writes one. -/
def ofHex? (text : String) : Option ObjectId :=
  if h : isIdText text then
    some ⟨text.toList.map hexValue, by
      have := h
      simp only [isIdText, Bool.and_eq_true, decide_eq_true_eq] at this
      rw [List.length_map]
      exact this.1⟩
  else none

/-- The identifier in lowercase hexadecimal digits. -/
def toHex (id : ObjectId) : String := String.ofList (id.digits.map hexChar)

instance : ToString ObjectId := ⟨toHex⟩

/-- The identifier as a number; identifiers are ordered by it. -/
def value (id : ObjectId) : Nat := id.digits.foldl (fun number digit => 16 * number + digit.val) 0

/-- The identifier that a number is, counted round after the greatest one. -/
def ofNat (n : Nat) : ObjectId :=
  ⟨(List.range 24).map fun place => Fin.ofNat 16 (n / Nat.pow 16 (23 - place)), by simp⟩

@[simp] theorem isHexDigit_hexChar (value : Fin 16) : isHexDigit (hexChar value) = true := by
  revert value; decide

@[simp] theorem hexValue_hexChar (value : Fin 16) : hexValue (hexChar value) = value := by
  revert value; decide

/-- A text writes an identifier exactly when it is twenty-four hexadecimal digits. -/
theorem isSome_ofHex? (text : String) : (ofHex? text).isSome = isIdText text := by
  by_cases h : isIdText text <;> simp [ofHex?, h]

/-- What an identifier writes is an identifier. -/
@[simp] theorem isIdText_toHex (id : ObjectId) : isIdText id.toHex = true := by
  simp [isIdText, toHex, id.length_digits, List.all_map]

/-- What an identifier writes reads back as it. -/
@[simp] theorem ofHex?_toHex (id : ObjectId) : ofHex? id.toHex = some id := by
  have h : (id.digits.map hexChar).map hexValue = id.digits := by
    simp [List.map_map, Function.comp_def]
  simp only [ofHex?, isIdText_toHex, dite_true, Option.some.injEq]
  cases id with
  | mk digits length_digits => simpa [toHex] using h

/-- What an identifier writes is not empty. -/
theorem toHex_ne_empty (id : ObjectId) : id.toHex ≠ "" := by
  intro hempty
  have hlength := congrArg (fun text => text.toList.length) hempty
  simp [toHex, id.length_digits] at hlength

/-- A hexadecimal digit is a small character. -/
theorem toNat_lt_of_isHexDigit {c : Char} (h : isHexDigit c) : c.toNat < 103 := by
  simp only [isHexDigit, Bool.or_eq_true, Bool.and_eq_true, decide_eq_true_eq, Char.le_def,
    UInt32.le_iff_toNat_le] at h
  rw [Char.toNat]
  rcases h with (⟨-, h⟩ | ⟨-, h⟩) | ⟨-, h⟩
  · exact Nat.lt_of_le_of_lt h (by decide)
  · exact Nat.lt_of_le_of_lt h (by decide)
  · exact Nat.lt_of_le_of_lt h (by decide)

/-- A digit is written in lowercase. -/
theorem hexChar_hexValue {c : Char} (h : isHexDigit c) : hexChar (hexValue c) = c.toLower := by
  have hdigits : ∀ n < 103, isHexDigit (Char.ofNat n) →
      hexChar (hexValue (Char.ofNat n)) = (Char.ofNat n).toLower := by decide
  rw [← Char.ofNat_toNat c] at h ⊢
  exact hdigits c.toNat (toNat_lt_of_isHexDigit (by rwa [Char.ofNat_toNat] at h)) h

/-- A character that is a digit in lowercase is one. -/
theorem isHexDigit_of_toLower {c : Char} (h : isHexDigit c.toLower) : isHexDigit c := by
  by_cases hupper : c.val ≥ 'A'.val ∧ c.val ≤ 'Z'.val
  · have hdigits : ∀ n < 91, isHexDigit (Char.ofNat n).toLower → isHexDigit (Char.ofNat n) := by
      decide
    have hsmall : c.toNat < 91 :=
      Nat.lt_of_le_of_lt (UInt32.le_iff_toNat_le.mp hupper.2) (by decide)
    rw [← Char.ofNat_toNat c] at h ⊢
    exact hdigits c.toNat hsmall h
  · have hsame : c.toLower = c := dif_neg hupper
    rwa [hsame] at h

/-- A text writes an identifier exactly when it is, in lowercase, what the identifier writes. -/
theorem ofHex?_eq_some_iff {text : String} {id : ObjectId} :
    ofHex? text = some id ↔ text.toLower = id.toHex := by
  have hlower {chars : List Char} (h : chars.all isHexDigit) :
      (chars.map hexValue).map hexChar = chars.map Char.toLower := by
    rw [List.map_map]
    exact List.map_congr_left fun c hc => hexChar_hexValue (List.all_eq_true.mp h c hc)
  constructor
  · intro h
    rw [ofHex?] at h
    split at h
    case isTrue hid =>
      cases h
      rw [isIdText, Bool.and_eq_true] at hid
      rw [toHex, ← String.toList_inj, toList_toLower, String.toList_ofList, hlower hid.2]
    case isFalse => cases h
  · intro h
    rw [toHex, ← String.toList_inj, toList_toLower, String.toList_ofList] at h
    have hdigits : text.toList.all isHexDigit := by
      refine List.all_eq_true.mpr fun c hc => isHexDigit_of_toLower ?_
      have hmem : c.toLower ∈ id.digits.map hexChar := h ▸ List.mem_map_of_mem hc
      obtain ⟨digit, -, hdigit⟩ := List.mem_map.mp hmem
      rw [← hdigit, isHexDigit_hexChar]
    have hlength : text.toList.length = 24 := by
      simpa [id.length_digits] using congrArg List.length h
    have hvalues : text.toList.map hexValue = id.digits := by
      have hsame := congrArg (List.map hexValue) ((hlower hdigits).trans h)
      simpa [List.map_map, Function.comp_def] using hsame
    have hid : isIdText text = true := by simp [isIdText, hlength, hdigits]
    cases id with
    | mk digits length_digits => simpa [ofHex?, hid] using hvalues

/-- A text that writes an identifier has no character but digits. -/
theorem not_mem_of_isIdText {text : String} (h : isIdText text) {c : Char}
    (hc : isHexDigit c = false) : c ∉ text.toList := by
  rw [isIdText, Bool.and_eq_true, List.all_eq_true] at h
  intro hmem
  simp [h.2 c hmem] at hc

end ObjectId

/-- Where new identifiers come from: a sequence of them, and how many are used up. Nothing is assumed of
the sequence; that its identifiers differ is a hypothesis where it matters. -/
structure IdSupply where
  /-- The identifiers in the order in which they are given out. -/
  draw : Nat → ObjectId
  /-- How many have been given out. -/
  drawn : Nat

namespace IdSupply

/-- The identifiers from a number on. -/
def countingFrom (first : Nat) : IdSupply := ⟨fun n => .ofNat (first + n), 0⟩

/-- The next identifier, and the supply without it. -/
def take (supply : IdSupply) : ObjectId × IdSupply :=
  (supply.draw supply.drawn, { supply with drawn := supply.drawn + 1 })

end IdSupply

end RestArchive

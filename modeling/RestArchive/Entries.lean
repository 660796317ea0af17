/-! # Ordered entries

The members of a document, of a JSON object or of a set of parameters: named values in the order in
which their names were first given. Writing a name that is there keeps its position. -/

namespace RestArchive

/-- Named values in order of first insertion. -/
abbrev Entries (α : Type) : Type := List (String × α)

namespace Entries

variable {α : Type}

/-- The value under a name. -/
def get? : Entries α → String → Option α
  | [], _ => none
  | (name, value) :: rest, key => if name = key then some value else get? rest key

/-- Puts a value under a name: in place when the name is there, at the end otherwise. -/
def insert : Entries α → String → α → Entries α
  | [], key, value => [(key, value)]
  | (name, old) :: rest, key, value =>
    if name = key then (name, value) :: rest else (name, old) :: insert rest key value

/-- Removes a name; the others keep their order. -/
def erase (entries : Entries α) (key : String) : Entries α :=
  entries.filter fun entry => entry.1 ≠ key

/-- Whether a name is there. -/
def contains (entries : Entries α) (key : String) : Bool := (get? entries key).isSome

/-- The names, in order. -/
def names (entries : Entries α) : List String := entries.map Prod.fst

/-- Entries from pairs: a repeated name keeps its first position and takes the last value. -/
def ofPairs (pairs : List (String × α)) : Entries α :=
  pairs.foldl (fun entries pair => insert entries pair.1 pair.2) []

@[simp] theorem get?_nil (key : String) : get? ([] : Entries α) key = none := rfl

@[simp] theorem get?_cons (name key : String) (value : α) (rest : Entries α) :
    get? ((name, value) :: rest) key = if name = key then some value else get? rest key := rfl

@[simp] theorem insert_nil (key : String) (value : α) :
    insert ([] : Entries α) key value = [(key, value)] := rfl

@[simp] theorem insert_cons (name key : String) (old value : α) (rest : Entries α) :
    insert ((name, old) :: rest) key value =
      if name = key then (name, value) :: rest else (name, old) :: insert rest key value := rfl

@[simp] theorem names_nil : names ([] : Entries α) = [] := rfl

@[simp] theorem names_cons (name : String) (value : α) (rest : Entries α) :
    names ((name, value) :: rest) = name :: names rest := rfl

/-- What was written is read. -/
@[simp] theorem get?_insert_self (entries : Entries α) (key : String) (value : α) :
    get? (insert entries key value) key = some value := by
  induction entries with
  | nil => simp
  | cons entry rest ih =>
    obtain ⟨name, old⟩ := entry
    by_cases h : name = key <;> simp [h, ih]

/-- Writing one name leaves the others as they were. -/
theorem get?_insert_of_ne (entries : Entries α) {key other : String} (h : other ≠ key) (value : α) :
    get? (insert entries key value) other = get? entries other := by
  induction entries with
  | nil => simp [Ne.symm h]
  | cons entry rest ih =>
    obtain ⟨name, old⟩ := entry
    by_cases hn : name = key
    · subst hn; simp [Ne.symm h]
    · by_cases ho : name = other
      · subst ho; simp [hn]
      · simp [hn, ho, ih]

/-- Of two values written under one name, the second one stays. -/
@[simp] theorem insert_insert_self (entries : Entries α) (key : String) (first second : α) :
    insert (insert entries key first) key second = insert entries key second := by
  induction entries with
  | nil => simp
  | cons entry rest ih =>
    obtain ⟨name, old⟩ := entry
    by_cases h : name = key <;> simp [h, ih]

/-- A name is there exactly when it has a value. -/
theorem mem_names_iff (entries : Entries α) (key : String) :
    key ∈ names entries ↔ get? entries key ≠ none := by
  induction entries with
  | nil => simp
  | cons entry rest ih =>
    obtain ⟨name, value⟩ := entry
    by_cases h : name = key
    · simp [h]
    · simpa [h, Ne.symm h] using ih

/-- Writing a name adds it at the end unless it is there. -/
theorem names_insert (entries : Entries α) (key : String) (value : α) :
    names (insert entries key value) =
      if key ∈ names entries then names entries else names entries ++ [key] := by
  induction entries with
  | nil => simp
  | cons entry rest ih =>
    obtain ⟨name, old⟩ := entry
    by_cases h : name = key
    · simp [h]
    · by_cases hmem : key ∈ names rest <;> simp [h, Ne.symm h, ih, hmem]

/-- A new name is put behind the others. -/
theorem insert_of_not_mem {entries : Entries α} {key : String} (h : key ∉ entries.names)
    (value : α) : insert entries key value = entries ++ [(key, value)] := by
  induction entries with
  | nil => rfl
  | cons entry rest ih =>
    obtain ⟨name, old⟩ := entry
    rw [names_cons, List.mem_cons, not_or] at h
    rw [insert_cons, if_neg (Ne.symm h.1), ih h.2, List.cons_append]

/-- What stands behind counts for the names that are not there yet. -/
theorem get?_append (entries behind : Entries α) (key : String) :
    get? (entries ++ behind) key = (get? entries key).or (get? behind key) := by
  induction entries with
  | nil => rfl
  | cons entry rest ih =>
    obtain ⟨name, value⟩ := entry
    by_cases h : name = key <;> simp [h, ih]

/-- A removed name is gone. -/
@[simp] theorem get?_erase_self (entries : Entries α) (key : String) :
    get? (erase entries key) key = none := by
  induction entries with
  | nil => rfl
  | cons entry rest ih =>
    obtain ⟨name, old⟩ := entry
    by_cases h : name = key
    · simpa [erase, h] using ih
    · simpa [erase, h] using ih

/-- Removing one name leaves the others as they were. -/
theorem get?_erase_of_ne (entries : Entries α) {key other : String} (h : other ≠ key) :
    get? (erase entries key) other = get? entries other := by
  induction entries with
  | nil => rfl
  | cons entry rest ih =>
    obtain ⟨name, old⟩ := entry
    by_cases hn : name = key
    · subst hn
      simpa [erase, Ne.symm h] using ih
    · by_cases ho : name = other
      · subst ho; simp [erase, hn]
      · simpa [erase, hn, ho] using ih

/-- Writing a name leaves all entries of other names, and their order. -/
theorem erase_insert (entries : Entries α) (key : String) (value : α) :
    erase (insert entries key value) key = erase entries key := by
  induction entries with
  | nil => simp [erase]
  | cons entry rest ih =>
    obtain ⟨name, old⟩ := entry
    by_cases h : name = key
    · simp [erase, h]
    · simpa [erase, h] using ih

/-- What is found is there. -/
theorem mem_of_get? {entries : Entries α} {key : String} {value : α}
    (h : get? entries key = some value) : (key, value) ∈ entries := by
  induction entries with
  | nil => cases h
  | cons entry rest ih =>
    obtain ⟨name, old⟩ := entry
    rw [get?_cons] at h
    split at h
    case isTrue hname =>
      cases h
      rw [hname]
      exact List.mem_cons_self
    case isFalse => exact List.mem_cons_of_mem _ (ih h)

/-- Among different names, what is there is found. -/
theorem get?_of_mem {entries : Entries α} (h : entries.names.Nodup) {key : String} {value : α}
    (hmem : (key, value) ∈ entries) : get? entries key = some value := by
  induction entries with
  | nil => cases hmem
  | cons entry rest ih =>
    obtain ⟨name, old⟩ := entry
    obtain ⟨hname, hrest⟩ := List.nodup_cons.mp h
    rcases List.mem_cons.mp hmem with heq | hbehind
    · cases heq
      simp
    · have hne : name ≠ key := by
        rintro rfl
        exact hname (List.mem_map.mpr ⟨_, hbehind, rfl⟩)
      rw [get?_cons, if_neg hne, ih hrest hbehind]

/-- What holds of all entries, and of the one that is written, holds of all that are there then. -/
theorem forall_mem_insert {Holds : String × α → Prop} {entries : Entries α} {key : String}
    {value : α} (h : ∀ entry ∈ entries, Holds entry) (hnew : Holds (key, value)) :
    ∀ entry ∈ insert entries key value, Holds entry := by
  induction entries with
  | nil => exact List.forall_mem_singleton.mpr hnew
  | cons first rest ih =>
    obtain ⟨name, old⟩ := first
    obtain ⟨hfirst, hrest⟩ := List.forall_mem_cons.mp h
    rw [insert_cons]
    split
    case isTrue hname =>
      rw [hname]
      exact List.forall_mem_cons.mpr ⟨hnew, hrest⟩
    case isFalse => exact List.forall_mem_cons.mpr ⟨hfirst, ih hrest⟩

/-- What holds of all entries, and of pairs that are written one after the other, holds of all that
are there then. -/
theorem forall_mem_foldl_insert {Holds : String × α → Prop} {pairs : List (String × α)}
    {entries : Entries α} (h : ∀ entry ∈ entries, Holds entry)
    (hpairs : ∀ pair ∈ pairs, Holds pair) :
    ∀ entry ∈ pairs.foldl (fun entries pair => insert entries pair.1 pair.2) entries,
      Holds entry := by
  induction pairs generalizing entries with
  | nil => exact h
  | cons pair pairs ih =>
    obtain ⟨hpair, hothers⟩ := List.forall_mem_cons.mp hpairs
    exact ih (forall_mem_insert h hpair) hothers

/-- Entries from pairs are some of the pairs. -/
theorem mem_of_mem_ofPairs {pairs : List (String × α)} {entry : String × α}
    (h : entry ∈ ofPairs pairs) : entry ∈ pairs := by
  have hnil : ∀ entry ∈ ([] : Entries α), entry ∈ pairs := fun _ hnone =>
    absurd hnone List.not_mem_nil
  exact forall_mem_foldl_insert hnil (fun _ hpair => hpair) entry h

/-- Pairs of new names, each once, are put behind the entries in their order. -/
theorem foldl_insert_of_nodup {pairs : List (String × α)} {entries : Entries α}
    (h : (entries.names ++ pairs.map Prod.fst).Nodup) :
    pairs.foldl (fun entries pair => insert entries pair.1 pair.2) entries = entries ++ pairs := by
  induction pairs generalizing entries with
  | nil => simp
  | cons pair pairs ih =>
    obtain ⟨name, value⟩ := pair
    have hnew : name ∉ entries.names := fun hmem =>
      (List.nodup_append.mp h).2.2 name hmem name List.mem_cons_self rfl
    have hrest : (names (entries ++ [(name, value)]) ++ pairs.map Prod.fst).Nodup := by
      simpa [names] using h
    rw [List.foldl_cons, insert_of_not_mem hnew, ih hrest, List.append_assoc, List.singleton_append]

/-- Entries from pairs of different names are the pairs. -/
theorem ofPairs_of_nodup {pairs : List (String × α)} (h : (pairs.map Prod.fst).Nodup) :
    ofPairs pairs = pairs :=
  foldl_insert_of_nodup (by simpa using h)

/-- Of entries, and pairs of different names that are written over them, the pairs count first. -/
theorem get?_foldl_insert {pairs : List (String × α)} (h : (pairs.map Prod.fst).Nodup)
    (entries : Entries α) (key : String) :
    get? (pairs.foldl (fun entries pair => insert entries pair.1 pair.2) entries) key =
      (get? pairs key).or (get? entries key) := by
  induction pairs generalizing entries with
  | nil => rfl
  | cons pair pairs ih =>
    obtain ⟨name, value⟩ := pair
    obtain ⟨hname, hpairs⟩ := List.nodup_cons.mp h
    rw [List.foldl_cons, ih hpairs, get?_cons]
    by_cases hkey : name = key
    · subst hkey
      have hnone : get? pairs name = none := Classical.byContradiction fun hsome =>
        hname ((mem_names_iff pairs name).mpr hsome)
      simp [hnone]
    · simp [get?_insert_of_ne _ (Ne.symm hkey), hkey]

end Entries

end RestArchive

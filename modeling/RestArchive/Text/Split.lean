/-! # Splitting text at a separator

Request paths are cut at `/` and field paths at `.`. A text always has at least one piece, and the
pieces joined by the separator are the text again (`join_split`). -/

namespace RestArchive.Text

/-- The pieces of `chars` between the occurrences of `mark`, empty ones included. -/
def pieces (mark : Char) : List Char → List (List Char)
  | [] => [[]]
  | c :: rest =>
    if c = mark then [] :: pieces mark rest
    else (pieces mark rest).modifyHead (c :: ·)

/-- The pieces written one after the other with `mark` between them. -/
def joined (mark : Char) : List (List Char) → List Char
  | [] => []
  | [piece] => piece
  | piece :: others => piece ++ mark :: joined mark others

@[simp] theorem pieces_nil (mark : Char) : pieces mark [] = [[]] := rfl

@[simp] theorem pieces_mark (mark : Char) (rest : List Char) :
    pieces mark (mark :: rest) = [] :: pieces mark rest := by
  simp [pieces]

theorem pieces_cons_of_ne {mark c : Char} (h : c ≠ mark) (rest : List Char) :
    pieces mark (c :: rest) = (pieces mark rest).modifyHead (c :: ·) := by
  simp [pieces, h]

/-- A text has at least one piece. -/
theorem pieces_ne_nil (mark : Char) (chars : List Char) : pieces mark chars ≠ [] := by
  cases chars with
  | nil => simp
  | cons c rest =>
    by_cases h : c = mark
    · subst h; simp
    · rw [pieces_cons_of_ne h]
      cases hp : pieces mark rest with
      | nil => exact absurd hp (pieces_ne_nil mark rest)
      | cons first others => simp

@[simp] theorem joined_singleton (mark : Char) (piece : List Char) :
    joined mark [piece] = piece := rfl

theorem joined_cons (mark : Char) (piece : List Char) {others : List (List Char)}
    (h : others ≠ []) : joined mark (piece :: others) = piece ++ mark :: joined mark others := by
  cases others with
  | nil => exact absurd rfl h
  | cons first rest => rfl

/-- Joining the pieces of a text gives the text back. -/
theorem joined_pieces (mark : Char) (chars : List Char) :
    joined mark (pieces mark chars) = chars := by
  induction chars with
  | nil => rfl
  | cons c rest ih =>
    by_cases h : c = mark
    · subst h
      rw [pieces_mark, joined_cons _ _ (pieces_ne_nil c rest), ih, List.nil_append]
    · rw [pieces_cons_of_ne h]
      cases hp : pieces mark rest with
      | nil => exact absurd hp (pieces_ne_nil mark rest)
      | cons first others =>
        rw [hp] at ih
        cases others with
        | nil => simpa using ih
        | cons second more =>
          rw [joined_cons _ _ (by simp)] at ih
          rw [List.modifyHead_cons, joined_cons _ _ (by simp), List.cons_append, ih]

/-- A text without the separator is one piece. -/
theorem pieces_of_not_mem {mark : Char} {piece : List Char} (h : mark ∉ piece) :
    pieces mark piece = [piece] := by
  induction piece with
  | nil => rfl
  | cons c rest ih =>
    rw [List.mem_cons, not_or] at h
    obtain ⟨hne, hrest⟩ := h
    rw [pieces_cons_of_ne (Ne.symm hne), ih hrest, List.modifyHead_cons]

/-- The pieces before a separator and those behind it are the pieces of the whole. -/
theorem pieces_append (mark : Char) (before behind : List Char) :
    pieces mark (before ++ mark :: behind) = pieces mark before ++ pieces mark behind := by
  induction before with
  | nil => simp
  | cons c rest ih =>
    by_cases h : c = mark
    · subst h
      rw [List.cons_append, pieces_mark, pieces_mark, ih, List.cons_append]
    · rw [List.cons_append, pieces_cons_of_ne h, pieces_cons_of_ne h, ih]
      obtain ⟨first, others, hpieces⟩ := List.exists_cons_of_ne_nil (pieces_ne_nil mark rest)
      rw [hpieces, List.cons_append, List.modifyHead_cons, List.modifyHead_cons, List.cons_append]

/-- No piece has the separator. -/
theorem not_mem_of_mem_pieces {mark : Char} {chars piece : List Char}
    (h : piece ∈ pieces mark chars) : mark ∉ piece := by
  induction chars generalizing piece with
  | nil =>
    rw [pieces_nil, List.mem_singleton] at h
    simp [h]
  | cons c rest ih =>
    by_cases hc : c = mark
    · subst hc
      rw [pieces_mark, List.mem_cons] at h
      rcases h with rfl | h
      · exact List.not_mem_nil
      · exact ih h
    · obtain ⟨first, others, hpieces⟩ := List.exists_cons_of_ne_nil (pieces_ne_nil mark rest)
      rw [pieces_cons_of_ne hc, hpieces, List.modifyHead_cons, List.mem_cons] at h
      rw [hpieces] at ih
      rcases h with rfl | h
      · exact List.not_mem_cons_of_ne_of_not_mem (Ne.symm hc) (ih List.mem_cons_self)
      · exact ih (List.mem_cons_of_mem first h)

/-- What stands before the first separator is the first piece. -/
theorem pieces_append_mark {mark : Char} {piece : List Char} (h : mark ∉ piece)
    (rest : List Char) : pieces mark (piece ++ mark :: rest) = piece :: pieces mark rest := by
  rw [pieces_append, pieces_of_not_mem h, List.singleton_append]

/-- The pieces of parts that are joined are the pieces of each, one after the other. -/
theorem pieces_joined {mark : Char} {parts : List (List Char)} (hne : parts ≠ []) :
    pieces mark (joined mark parts) = parts.flatMap (pieces mark) := by
  induction parts with
  | nil => exact absurd rfl hne
  | cons part others ih =>
    cases others with
    | nil => rw [joined_singleton, List.flatMap_singleton]
    | cons second more =>
      rw [List.flatMap_cons, joined_cons _ _ (by simp), pieces_append, ih (by simp)]

/-- The pieces of a text between the occurrences of `mark`. -/
def split (mark : Char) (text : String) : List String :=
  (pieces mark text.toList).map String.ofList

/-- The texts written one after the other with `mark` between them. -/
def join (mark : Char) (parts : List String) : String :=
  String.ofList (joined mark (parts.map String.toList))

/-- A text has at least one piece. -/
theorem split_ne_nil (mark : Char) (text : String) : split mark text ≠ [] := by
  simpa [split] using pieces_ne_nil mark text.toList

/-- A text without the separator is one piece. -/
theorem split_of_not_mem {mark : Char} {text : String} (h : mark ∉ text.toList) :
    split mark text = [text] := by
  rw [split, pieces_of_not_mem h, List.map_singleton, String.ofList_toList]

/-- No piece has the separator. -/
theorem not_mem_of_mem_split {mark : Char} {text piece : String} (h : piece ∈ split mark text) :
    mark ∉ piece.toList := by
  obtain ⟨chars, hchars, rfl⟩ := List.mem_map.mp h
  rw [String.toList_ofList]
  exact not_mem_of_mem_pieces hchars

/-- Joining the pieces of a text gives the text back. -/
@[simp] theorem join_split (mark : Char) (text : String) : join mark (split mark text) = text := by
  have unwrap : String.toList ∘ String.ofList = id := by
    funext chars; simp
  simp [join, split, unwrap, joined_pieces]

/-- The pieces of texts that are joined are the pieces of each, one after the other. -/
theorem split_join_eq_flatMap {mark : Char} {parts : List String} (hne : parts ≠ []) :
    split mark (join mark parts) = parts.flatMap (split mark) := by
  have hparts : parts.map String.toList ≠ [] := by simpa using hne
  rw [split, join, String.toList_ofList, pieces_joined hparts, List.map_flatMap, List.flatMap_map]
  rfl

/-- Parts without the separator come back as the pieces of the text they are joined to. -/
theorem split_join {mark : Char} {parts : List String} (hne : parts ≠ [])
    (h : ∀ part ∈ parts, mark ∉ part.toList) : split mark (join mark parts) = parts := by
  have hsingle : parts.map (split mark) = parts.map fun part => [part] :=
    List.map_congr_left fun part hpart => split_of_not_mem (h part hpart)
  rw [split_join_eq_flatMap hne, List.flatMap_def, hsingle, ← List.flatMap_def,
    List.flatMap_singleton']

/-- A text with the separator between two others has the pieces of both. -/
theorem split_append_mark (mark : Char) (before behind : String) :
    split mark (before ++ String.singleton mark ++ behind) =
      split mark before ++ split mark behind := by
  have hchars : (before ++ String.singleton mark ++ behind).toList =
      before.toList ++ mark :: behind.toList := by
    simp
  rw [split, hchars, pieces_append, List.map_append, split, split]

/-- A text with a dot between two others has the pieces of both. -/
theorem split_append_dot (before behind : String) :
    split '.' (before ++ "." ++ behind) = split '.' before ++ split '.' behind :=
  split_append_mark '.' before behind

/-- A text that others are joined to stands in front, then the separator. -/
theorem toList_join_cons (mark : Char) (head : String) {others : List String} (h : others ≠ []) :
    (join mark (head :: others)).toList = head.toList ++ mark :: (join mark others).toList := by
  have hothers : others.map String.toList ≠ [] := by simpa using h
  simp [join, joined_cons mark head.toList hothers]

/-- The first of the texts that are joined is the first piece again, if it does not have the
separator. -/
theorem exists_split_join_cons {mark : Char} {head : String} (h : mark ∉ head.toList)
    (others : List String) : ∃ behind, split mark (join mark (head :: others)) = head :: behind := by
  by_cases hothers : others = []
  · subst hothers
    exact ⟨[], by simp [split, join, pieces_of_not_mem h]⟩
  · refine ⟨split mark (join mark others), ?_⟩
    rw [split, toList_join_cons mark head hothers, pieces_append_mark h, List.map_cons,
      String.ofList_toList, split]

/-- The text before the first `mark`, and the text behind it if the mark occurs. -/
def cutChars (mark : Char) : List Char → List Char × Option (List Char)
  | [] => ([], none)
  | c :: rest =>
    if c = mark then ([], some rest)
    else
      let (before, behind) := cutChars mark rest
      (c :: before, behind)

/-- The text before the first `mark`, and the text behind it if the mark occurs. -/
def cut (mark : Char) (text : String) : String × Option String :=
  let (before, behind) := cutChars mark text.toList
  (String.ofList before, behind.map String.ofList)

/-- The text without its first character when that is `mark`. -/
def dropLeading (mark : Char) (text : String) : String :=
  match text.toList with
  | [] => text
  | c :: rest => if c = mark then String.ofList rest else text

/-- The text without its last character when that is `mark`. -/
def dropTrailing (mark : Char) (text : String) : String :=
  if text.toList.getLast? = some mark then String.ofList text.toList.dropLast else text

/-- A text loses the mark that it starts with. -/
theorem dropLeading_singleton_append (mark c : Char) (text : String) :
    dropLeading mark (String.singleton c ++ text) =
      if c = mark then text else String.singleton c ++ text := by
  simp [dropLeading]

/-- A text loses the mark that it ends with. -/
theorem dropTrailing_append_mark (mark : Char) (text : String) :
    dropTrailing mark (text ++ String.singleton mark) = text := by
  simp [dropTrailing]

/-- Behind another character, one mark at the end is taken away as before. -/
theorem dropTrailing_singleton_append {mark c : Char} {text : String} (h : text ≠ "" ∨ c ≠ mark) :
    dropTrailing mark (String.singleton c ++ text) = String.singleton c ++ dropTrailing mark text := by
  have hchars : (String.singleton c ++ text).toList = c :: text.toList := by simp
  by_cases htext : text = ""
  · subst htext
    have hc : c ≠ mark := by simpa using h
    simp [dropTrailing, hc]
  · have hne : text.toList ≠ [] := by simpa using htext
    rw [dropTrailing, dropTrailing, hchars, List.getLast?_cons_of_ne_nil hne]
    split
    · rw [List.dropLast_cons_of_ne_nil hne, ← String.toList_inj]
      simp
    · rfl

/-- If anything is left of a text without one mark in front and one at its end, the mark at the end may be
taken away first, with more text put behind, and then the one in front. -/
theorem dropLeading_dropTrailing_append {mark : Char} {text : String}
    (h : dropTrailing mark (dropLeading mark text) ≠ "") (more : String) :
    dropLeading mark (dropTrailing mark text ++ more) =
      dropTrailing mark (dropLeading mark text) ++ more := by
  cases hchars : text.toList with
  | nil =>
    rw [String.toList_eq_nil_iff] at hchars
    subst hchars
    exact absurd rfl h
  | cons c rest =>
    obtain rfl : text = String.singleton c ++ String.ofList rest := by
      rw [← String.toList_inj, hchars]
      simp
    rw [dropLeading_singleton_append] at h ⊢
    by_cases hc : c = mark
    · rw [if_pos hc] at h ⊢
      have hrest : String.ofList rest ≠ "" := by
        intro hempty
        rw [hempty] at h
        exact h rfl
      rw [dropTrailing_singleton_append (Or.inl hrest), String.append_assoc,
        dropLeading_singleton_append, if_pos hc]
    · rw [if_neg hc, dropTrailing_singleton_append (Or.inr hc), String.append_assoc,
        dropLeading_singleton_append, if_neg hc]

end RestArchive.Text

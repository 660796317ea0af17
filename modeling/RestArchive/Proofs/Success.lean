/-! # When a computation succeeds

A computation that may fail succeeds exactly when each of its parts does, and fails with what the
first part that fails says. -/

namespace RestArchive

variable {ε α β : Type}

/-- A mapped result is a success exactly when the result is one. -/
@[simp] theorem map_eq_ok_iff {result : Except ε α} {change : α → β} {value : β} :
    result.map change = .ok value ↔ ∃ inner, result = .ok inner ∧ change inner = value := by
  cases result <;> simp [Except.map]

/-- Wording an error otherwise makes no success of it. -/
@[simp] theorem mapError_eq_ok_iff {ε' : Type} {result : Except ε α} {reword : ε → ε'} {value : α} :
    result.mapError reword = .ok value ↔ result = .ok value := by
  constructor
  · intro h
    cases result with
    | error failure => cases h
    | ok inner =>
      cases h
      rfl
  · rintro rfl
    rfl

/-- Two computations in a row succeed exactly when the first does, and the second on what it
gave. -/
@[simp] theorem bind_eq_ok_iff {result : Except ε α} {next : α → Except ε β} {value : β} :
    result.bind next = .ok value ↔ ∃ inner, result = .ok inner ∧ next inner = .ok value := by
  cases result <;> simp [Except.bind]

/-- Two steps of a block succeed exactly when the first does, and the second on what it gave. -/
@[simp] theorem block_eq_ok_iff {result : Except ε α} {next : α → Except ε β} {value : β} :
    result >>= next = .ok value ↔ ∃ inner, result = .ok inner ∧ next inner = .ok value :=
  bind_eq_ok_iff

/-- A value returned is a success. -/
@[simp] theorem pure_eq_ok_iff {first second : α} :
    (pure first : Except ε α) = .ok second ↔ first = second := by
  rw [show (pure first : Except ε α) = .ok first from rfl, Except.ok.injEq]

/-- A mapped result is a failure exactly when the result is that one. -/
theorem map_eq_error_iff {result : Except ε α} {change : α → β} {failure : ε} :
    result.map change = .error failure ↔ result = .error failure := by
  cases result <;> simp [Except.map]

/-- A failure that is worded otherwise comes from one that is not. -/
theorem mapError_eq_error_iff {ε' : Type} {result : Except ε α} {reword : ε → ε'} {failure : ε'} :
    result.mapError reword = .error failure ↔
      ∃ inner, result = .error inner ∧ reword inner = failure := by
  constructor
  · intro h
    cases result with
    | error inner => exact ⟨inner, rfl, Except.error.inj h⟩
    | ok value => cases h
  · rintro ⟨inner, rfl, rfl⟩
    rfl

/-- Two computations in a row fail when the first does, or when the second does on what it gave. -/
theorem bind_eq_error_iff {result : Except ε α} {next : α → Except ε β} {failure : ε} :
    result.bind next = .error failure ↔
      result = .error failure ∨ ∃ inner, result = .ok inner ∧ next inner = .error failure := by
  cases result <;> simp [Except.bind]

/-- Two steps of a block fail when the first does, or when the second does on what it gave. -/
theorem block_eq_error_iff {result : Except ε α} {next : α → Except ε β} {failure : ε} :
    result >>= next = .error failure ↔
      result = .error failure ∨ ∃ inner, result = .ok inner ∧ next inner = .error failure :=
  bind_eq_error_iff

/-- A value returned is no failure. -/
theorem pure_ne_error {value : α} {failure : ε} : (pure value : Except ε α) ≠ .error failure := by
  intro h
  cases h

/-- A block of one step fails when the step does. -/
theorem error_of_step {first : Except ε α} {answer : α → β} {failure : ε}
    (h : (do let a ← first; return answer a) = .error failure) : first = .error failure := by
  rcases block_eq_error_iff.mp h with hfirst | ⟨a, -, hpure⟩
  · exact hfirst
  · exact absurd hpure pure_ne_error

/-- A block of two steps that know nothing of each other fails when one of them does. -/
theorem error_of_steps {γ : Type} {first : Except ε α} {second : Except ε β} {answer : α → β → γ}
    {failure : ε} (h : (do let a ← first; let b ← second; return answer a b) = .error failure) :
    first = .error failure ∨ second = .error failure := by
  rcases block_eq_error_iff.mp h with hfirst | ⟨a, -, hrest⟩
  · exact Or.inl hfirst
  · exact Or.inr (error_of_step hrest)

/-- The value of a success. -/
@[simp] theorem toOption_eq_some_iff {result : Except ε α} {value : α} :
    result.toOption = some value ↔ result = .ok value := by
  cases result <;> simp [Except.toOption]

end RestArchive

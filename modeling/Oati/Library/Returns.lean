import Mathlib.Logic.Basic

/-!
# Computations that return

`x.Returns` says of a computation with exceptions that it returns a value. The rules follow the
ways to compose computations; where the rest of a computation does not depend on the value it
goes on with, `returns_bind_iff` splits the claim in two.
-/

namespace Except

variable {ε α β : Type}

/-- The computation returns a value. -/
def Returns (x : Except ε α) : Prop := ∃ a, x = .ok a

@[simp] theorem returns_ok (a : α) : Returns (.ok a : Except ε α) := ⟨a, rfl⟩

@[simp] theorem returns_pure (a : α) : Returns (pure a : Except ε α) := ⟨a, rfl⟩

@[simp] theorem not_returns_error (e : ε) : ¬ Returns (.error e : Except ε α) := by
  rintro ⟨a, h⟩
  cases h

theorem ok_bind (a : α) (f : α → Except ε β) : (.ok a >>= f) = f a := rfl

/-- A computation that goes on with another returns through an intermediate value. -/
theorem bind_ok_iff {x : Except ε α} {f : α → Except ε β} {b : β} :
    x >>= f = .ok b ↔ ∃ a, x = .ok a ∧ f a = .ok b := by
  cases x <;> simp [bind, Except.bind]

/-- Two branches that go on with the same computation. -/
theorem ite_bind_ok {c : Prop} [Decidable c] {x y : Except ε α} {f : α → Except ε β} {b : β}
    (h : (if c then x >>= f else y >>= f) = .ok b) : ∃ a, f a = .ok b := by
  split at h
  · exact (bind_ok_iff.mp h).imp fun _ ha => ha.2
  · exact (bind_ok_iff.mp h).imp fun _ ha => ha.2

/-- It fails where the first computation does, or where the second does. -/
theorem bind_error_iff {x : Except ε α} {f : α → Except ε β} {e : ε} :
    x >>= f = .error e ↔ x = .error e ∨ ∃ a, x = .ok a ∧ f a = .error e := by
  cases x <;> simp [bind, Except.bind]

/-- When the rest of a computation returns does not depend on the value it goes on with. -/
theorem returns_bind_iff {x : Except ε α} {f : α → Except ε β} {P : Prop}
    (h : ∀ a, x = .ok a → ((f a).Returns ↔ P)) : (x >>= f).Returns ↔ x.Returns ∧ P := by
  cases x with
  | error e => exact iff_of_false (not_returns_error e) fun hx => not_returns_error e hx.1
  | ok a =>
    refine Iff.trans ?_ (and_iff_right (returns_ok a)).symm
    exact h a rfl

/-- A computation that only goes on to compute. -/
theorem returns_bind_pure {x : Except ε α} {f : α → β} :
    (x >>= fun a => pure (f a)).Returns ↔ x.Returns := by
  rw [returns_bind_iff fun _ _ => iff_of_true (returns_pure _) trivial, and_true]

@[simp] theorem returns_map {x : Except ε α} {f : α → β} : (f <$> x).Returns ↔ x.Returns := by
  cases x <;> simp [Returns, Functor.map, Except.map]

end Except

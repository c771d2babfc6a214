import Mathlib.Order.Lattice
import Mathlib.Data.List.Pairwise

/-!
# Sets whose members expire

A key is added with a deadline, and as long as the deadline has not come it cannot be added
again. A store may forget keys whose deadlines have come, at any time, or keep them.

* `Step`: one attempt to add a key, accepted or refused.
* `Guards`: a key that was added is kept until its deadline, the invariant of a step.
* `Run.deadline_le`: over a run whose clock does not go back, a key is accepted again only after
  every earlier deadline of its own.
-/

namespace ExpiringSet

variable {K D : Type} [LinearOrder D]

/-- The deadlines of the keys a store holds. -/
abbrev State (K D : Type) := K → Option D

/-- An attempt to add a key at an instant, and whether the store accepted it. -/
structure Attempt (K D : Type) where
  key : K
  clock : D
  deadline : D
  accepted : Bool

/-- The key is held, and its deadline has not come. -/
def Live (s : State K D) (clock : D) (key : K) : Prop := ∃ d, s key = some d ∧ clock < d

/-- A live key is refused; any other is stored. What is lost has expired. -/
inductive Step (s : State K D) (a : Attempt K D) : State K D → Prop where
  | refused (hlive : Live s a.clock a.key) (ha : a.accepted = false) : Step s a s
  | accepted {s' : State K D} (hlive : ¬ Live s a.clock a.key) (ha : a.accepted = true)
      (hkey : s' a.key = some a.deadline ∨ a.deadline ≤ a.clock)
      (hother : ∀ k ≠ a.key, s' k = s k ∨ ∃ d, s k = some d ∧ d ≤ a.clock) : Step s a s'

/-- A sequence of attempts. -/
inductive Run : State K D → List (Attempt K D) → State K D → Prop where
  | nil (s : State K D) : Run s [] s
  | cons {s s' s'' : State K D} {a : Attempt K D} {as : List (Attempt K D)} (h : Step s a s')
      (hrest : Run s' as s'') : Run s (a :: as) s''

theorem Run.append {s s' s'' : State K D} {as bs : List (Attempt K D)} (ha : Run s as s')
    (hb : Run s' bs s'') : Run s (as ++ bs) s'' := by
  induction ha with
  | nil => exact hb
  | cons h _ ih => exact .cons h (ih hb)

/-- The key is held with this deadline, unless it has come. -/
def Guards (s : State K D) (key : K) (deadline clock : D) : Prop :=
  s key = some deadline ∨ deadline ≤ clock

/-- An accepted key is guarded. -/
theorem Step.guards {s s' : State K D} {a : Attempt K D} (h : Step s a s')
    (ha : a.accepted = true) : Guards s' a.key a.deadline a.clock := by
  cases h with
  | refused _ ha' => rw [ha] at ha'; cases ha'
  | accepted _ _ hkey _ => exact hkey

/-- A guarded key is accepted only after its deadline. -/
theorem Guards.deadline_le {s s' : State K D} {a : Attempt K D} {deadline clock : D}
    (h : Guards s a.key deadline clock) (hclock : clock ≤ a.clock) (hstep : Step s a s')
    (ha : a.accepted = true) : deadline ≤ a.clock := by
  rcases h with hheld | hpast
  · cases hstep with
    | refused _ ha' => rw [ha] at ha'; cases ha'
    | accepted hlive _ _ _ => exact not_lt.mp fun hlt => hlive ⟨deadline, hheld, hlt⟩
  · exact hpast.trans hclock

/-- A step keeps the guard. -/
theorem Guards.step {s s' : State K D} {a : Attempt K D} {key : K} {deadline clock : D}
    (h : Guards s key deadline clock) (hclock : clock ≤ a.clock) (hstep : Step s a s') :
    Guards s' key deadline a.clock := by
  rcases h with hheld | hpast
  · by_cases hkey : key = a.key
    · subst hkey
      rcases Bool.eq_false_or_eq_true a.accepted with ha | ha
      · exact .inr (Guards.deadline_le (.inl hheld) hclock hstep ha)
      · cases hstep with
        | refused => exact .inl hheld
        | accepted _ ha' => rw [ha] at ha'; cases ha'
    · cases hstep with
      | refused => exact .inl hheld
      | accepted _ _ _ hother =>
        rcases hother key hkey with hsame | ⟨d, hd, hle⟩
        · exact .inl (hsame.trans hheld)
        · obtain rfl := Option.some.inj (hheld.symm.trans hd)
          exact .inr hle
  · exact .inr (hpast.trans hclock)

/-- A key that is guarded before a run is accepted in it only after its deadline. -/
theorem Run.deadline_le_of_guards {s s' : State K D} {as : List (Attempt K D)} {key : K}
    {deadline clock : D} (h : Run s as s') (hguards : Guards s key deadline clock)
    (hclock : ∀ a ∈ as, clock ≤ a.clock) (hmono : as.Pairwise (·.clock ≤ ·.clock)) :
    ∀ a ∈ as, a.key = key → a.accepted = true → deadline ≤ a.clock := by
  induction h generalizing clock with
  | nil => simp
  | @cons s s' s'' a as hstep _ ih =>
    have hfirst : clock ≤ a.clock := hclock a (by simp)
    obtain ⟨hlater, hmono⟩ := List.pairwise_cons.mp hmono
    rintro b (_ | ⟨_, hb⟩) hkey hb'
    · subst hkey
      exact hguards.deadline_le hfirst hstep hb'
    · exact ih (hguards.step hfirst hstep) hlater hmono b hb hkey hb'

/-- Over a run whose clock does not go back, a key is accepted again only after every deadline
it was accepted with. -/
theorem Run.deadline_le {s s' : State K D} {as : List (Attempt K D)} (h : Run s as s')
    (hmono : as.Pairwise (·.clock ≤ ·.clock)) :
    as.Pairwise fun a b =>
      b.key = a.key → a.accepted = true → b.accepted = true → a.deadline ≤ b.clock := by
  induction h with
  | nil => exact .nil
  | cons hstep hrest ih =>
    obtain ⟨hlater, hmono⟩ := List.pairwise_cons.mp hmono
    refine List.pairwise_cons.mpr ⟨fun b hb hkey ha hb' => ?_, ih hmono⟩
    exact hrest.deadline_le_of_guards (hstep.guards ha) hlater hmono b hb hkey hb'

end ExpiringSet

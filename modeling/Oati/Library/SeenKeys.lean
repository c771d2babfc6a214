import Mathlib.Data.Set.Basic

/-!
# Stores of seen keys

Items come to a store one after the other. An item that passes its own checks is accepted if the
store has not seen its key, and its key is seen from then on; nothing is forgotten.

* `Remembers`: what one step of such a store does.
* `Remembers.accepts_run_iff`: over a whole run, an item is accepted exactly if it is the first one
  with its key that passes.
-/

namespace SeenKeys

variable {ι K S : Type*}

/-- An item is accepted if it passes and its key was not seen, and a step adds the key of an item
that passes, and no other. -/
structure Remembers (passes : ι → Prop) (key : ι → K) (seen : S → Set K)
    (accepts : S → ι → Prop) (step : S → ι → S) : Prop where
  accepts_iff : ∀ s i, accepts s i ↔ passes i ∧ key i ∉ seen s
  mem_step : ∀ s i k, k ∈ seen (step s i) ↔ k ∈ seen s ∨ passes i ∧ key i = k

variable {passes : ι → Prop} {key : ι → K} {seen : S → Set K} {accepts : S → ι → Prop}
  {step : S → ι → S}

/-- After a run the store has seen what it had before and the keys of the items that passed. -/
theorem Remembers.mem_run (h : Remembers passes key seen accepts step) (items : List ι) {s : S}
    {k : K} : k ∈ seen (items.foldl step s) ↔ k ∈ seen s ∨ ∃ i ∈ items, passes i ∧ key i = k := by
  induction items generalizing s with
  | nil => simp
  | cons i items ih =>
    rw [List.foldl_cons, ih, h.mem_step, or_assoc]
    refine or_congr_right ?_
    constructor
    · rintro (hi | ⟨j, hj, hpasses⟩)
      · exact ⟨i, List.mem_cons_self .., hi⟩
      · exact ⟨j, List.mem_cons_of_mem _ hj, hpasses⟩
    · rintro ⟨j, hj, hpasses⟩
      rcases List.mem_cons.mp hj with rfl | hj
      · exact .inl hpasses
      · exact .inr ⟨j, hj, hpasses⟩

/-- After a run an item is accepted exactly if it passes and its key is that of no item that
passed, in the run or before it. -/
theorem Remembers.accepts_run_iff (h : Remembers passes key seen accepts step) (items : List ι)
    {s : S} {i : ι} : accepts (items.foldl step s) i ↔ passes i ∧ key i ∉ seen s ∧
      ∀ j ∈ items, passes j → key j ≠ key i := by
  rw [h.accepts_iff]
  refine and_congr_right fun _ => ?_
  constructor
  · intro hfresh
    refine ⟨fun hseen => hfresh ((h.mem_run items).mpr (.inl hseen)), ?_⟩
    intro j hj hpasses hkey
    exact hfresh ((h.mem_run items).mpr (.inr ⟨j, hj, hpasses, hkey⟩))
  · rintro ⟨hfresh, hitems⟩ hseen
    rcases (h.mem_run items).mp hseen with hbefore | ⟨j, hj, hpasses, hkey⟩
    · exact hfresh hbefore
    · exact hitems j hj hpasses hkey

end SeenKeys

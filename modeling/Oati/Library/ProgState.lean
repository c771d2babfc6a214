import Oati.Library.Prog

/-!
# Implementations with a state

The calls of a program may be implemented by programs that share a state: what a call answers can
depend on the calls before it. A call that throws leaves the state as it was.

* `interpretWith`: the implemented program.
* `ImplementsWith h s t trace s'`: the calls of `t`, implemented from the state `s` on, make the
  calls of `trace` and leave `s'`; `run_interpretWith_iff`.
* `reaches_interpretWith`: a call that is reached is reached in the implementation of a call.
* `ImplementsWith.constant`: calls that keep the state are implemented one by one.
-/

namespace Prog

variable {C D S : Type} {A : C → Type} {B : D → Type} {E α β : Type}

/-- The program with every call implemented by a program over other calls, from a state on. -/
def interpretWith (h : S → ∀ c, Prog B E (A c × S)) : Prog A E α → S → Prog B E α
  | done result, _ => done result
  | call c next, s => (h s c).attempt.bind fun outcome =>
    match outcome with
    | .ok (a, s') => (next (.ok a)).interpretWith h s'
    | .error e => (next (.error e)).interpretWith h s

/-- The trace of an interpreted program is made of runs of the implementations, each from the
state that the one before it left. -/
inductive ImplementsWith (h : S → ∀ c, Prog B E (A c × S)) :
    S → List (Event A E) → List (Event B E) → S → Prop where
  | nil (s : S) : ImplementsWith h s [] [] s
  | ok {s s' s'' : S} {c : C} {a : A c} {t : List (Event A E)} {v u : List (Event B E)}
      (hcall : Run (h s c) v (.ok (a, s'))) (hrest : ImplementsWith h s' t u s'') :
      ImplementsWith h s (⟨c, .ok a⟩ :: t) (v ++ u) s''
  | error {s s' : S} {c : C} {e : E} {t : List (Event A E)} {v u : List (Event B E)}
      (hcall : Run (h s c) v (.error e)) (hrest : ImplementsWith h s t u s') :
      ImplementsWith h s (⟨c, .error e⟩ :: t) (v ++ u) s'

variable {h : S → ∀ c, Prog B E (A c × S)}

/-- What follows the implementation of a call. -/
theorem interpretWith_call {c : C} {next : Except E (A c) → Prog A E α} {s : S} :
    (call c next).interpretWith h s = (h s c).attempt >>= fun outcome =>
      match outcome with
      | .ok (a, s') => (next (.ok a)).interpretWith h s'
      | .error e => (next (.error e)).interpretWith h s := by
  rw [interpretWith]
  rfl

/-- The runs of an interpreted program are the program's own, with their calls implemented. -/
theorem run_interpretWith_iff {p : Prog A E α} {s : S} {trace : List (Event B E)}
    {r : Except E α} : Run (p.interpretWith h s) trace r ↔
      ∃ t s', Run p t r ∧ ImplementsWith h s t trace s' := by
  induction p generalizing s trace with
  | done result =>
    rw [interpretWith, run_done_iff]
    constructor
    · rintro ⟨rfl, rfl⟩
      exact ⟨[], s, run_done_iff.mpr ⟨rfl, rfl⟩, .nil s⟩
    · rintro ⟨t, s', ht, himplements⟩
      obtain ⟨rfl, rfl⟩ := run_done_iff.mp ht
      cases himplements
      exact ⟨rfl, rfl⟩
  | call c next ih =>
    rw [interpretWith_call, run_bind_iff]
    constructor
    · rintro (⟨e, he, -⟩ | ⟨outcome, v, u, rfl, hv, hu⟩)
      · obtain ⟨r', -, hr'⟩ := run_attempt_iff.mp he
        cases hr'
      · obtain ⟨r', hr', houtcome⟩ := run_attempt_iff.mp hv
        cases houtcome
        rcases outcome with e | ⟨a, s₁⟩
        · obtain ⟨t, s', ht, himplements⟩ := (ih _).mp hu
          exact ⟨⟨c, .error e⟩ :: t, s', .step ht, .error hr' himplements⟩
        · obtain ⟨t, s', ht, himplements⟩ := (ih _).mp hu
          exact ⟨⟨c, .ok a⟩ :: t, s', .step ht, .ok hr' himplements⟩
    · rintro ⟨t, s', ht, himplements⟩
      obtain ⟨answer, rest, rfl, hrest⟩ := run_call_iff.mp ht
      cases himplements with
      | ok hcall himplements =>
        exact .inr ⟨_, _, _, rfl, run_attempt_iff.mpr ⟨_, hcall, rfl⟩,
          (ih _).mpr ⟨rest, s', hrest, himplements⟩⟩
      | error hcall himplements =>
        exact .inr ⟨_, _, _, rfl, run_attempt_iff.mpr ⟨_, hcall, rfl⟩,
          (ih _).mpr ⟨rest, s', hrest, himplements⟩⟩

/-- An interpreted program stands at a call in the implementation of a call of its own. -/
theorem reaches_interpretWith_iff {p : Prog A E α} {s : S} {trace : List (Event B E)} {d : D} :
    Reaches (p.interpretWith h s) trace d ↔ ∃ c t u v s', trace = u ++ v ∧ Reaches p t c ∧
      ImplementsWith h s t u s' ∧ Reaches (h s' c) v d := by
  induction p generalizing s trace with
  | done result =>
    constructor
    · intro hreach
      exact absurd hreach not_reaches_done
    · rintro ⟨c, t, u, v, s', -, hreach, -, -⟩
      exact absurd hreach not_reaches_done
  | call c next ih =>
    rw [interpretWith_call, reaches_bind_iff]
    constructor
    · rintro (hcall | ⟨outcome, v, u, rfl, hv, hu⟩)
      · exact ⟨c, [], [], trace, s, rfl, ⟨next, .refl _⟩, .nil s, reaches_attempt_iff.mp hcall⟩
      · obtain ⟨r', hr', houtcome⟩ := run_attempt_iff.mp hv
        cases houtcome
        rcases outcome with e | ⟨a, s₁⟩
        · obtain ⟨d', t, w, x, s', rfl, ⟨next', hnext⟩, himplements, hreach⟩ := (ih _).mp hu
          exact ⟨d', ⟨c, .error e⟩ :: t, v ++ w, x, s', by simp, ⟨next', .step hnext⟩,
            .error hr' himplements, hreach⟩
        · obtain ⟨d', t, w, x, s', rfl, ⟨next', hnext⟩, himplements, hreach⟩ := (ih _).mp hu
          exact ⟨d', ⟨c, .ok a⟩ :: t, v ++ w, x, s', by simp, ⟨next', .step hnext⟩,
            .ok hr' himplements, hreach⟩
    · rintro ⟨d', t, u, v, s', rfl, ⟨next', hnext⟩, himplements, hreach⟩
      rcases steps_call_iff.mp hnext with ⟨rfl, hcall⟩ | ⟨answer, rest, rfl, hrest⟩
      · cases hcall
        cases himplements
        exact .inl (reaches_attempt_iff.mpr hreach)
      · cases himplements with
        | ok hcall himplements =>
          rw [List.append_assoc]
          exact .inr ⟨_, _, _, rfl, run_attempt_iff.mpr ⟨_, hcall, rfl⟩,
            (ih _).mpr ⟨d', rest, _, v, s', rfl, ⟨next', hrest⟩, himplements, hreach⟩⟩
        | error hcall himplements =>
          rw [List.append_assoc]
          exact .inr ⟨_, _, _, rfl, run_attempt_iff.mpr ⟨_, hcall, rfl⟩,
            (ih _).mpr ⟨d', rest, _, v, s', rfl, ⟨next', hrest⟩, himplements, hreach⟩⟩

/-- A trace in two parts is implemented in two parts. -/
theorem implementsWith_append_iff {t t' : List (Event A E)} {s s'' : S}
    {trace : List (Event B E)} : ImplementsWith h s (t ++ t') trace s'' ↔
      ∃ u u' s', trace = u ++ u' ∧ ImplementsWith h s t u s' ∧ ImplementsWith h s' t' u' s'' := by
  induction t generalizing s trace with
  | nil =>
    constructor
    · intro himplements
      exact ⟨[], trace, s, rfl, .nil s, himplements⟩
    · rintro ⟨u, u', s', rfl, hnil, himplements⟩
      cases hnil
      exact himplements
  | cons event rest ih =>
    constructor
    · intro himplements
      cases himplements with
      | ok hcall himplements =>
        obtain ⟨u, u', s', rfl, hu, hu'⟩ := ih.mp himplements
        exact ⟨_ ++ u, u', s', by simp, .ok hcall hu, hu'⟩
      | error hcall himplements =>
        obtain ⟨u, u', s', rfl, hu, hu'⟩ := ih.mp himplements
        exact ⟨_ ++ u, u', s', by simp, .error hcall hu, hu'⟩
    · rintro ⟨u, u', s', rfl, himplements, hrest⟩
      cases himplements with
      | ok hcall himplements =>
        rw [List.append_assoc]
        exact .ok hcall (ih.mpr ⟨_, _, _, rfl, himplements, hrest⟩)
      | error hcall himplements =>
        rw [List.append_assoc]
        exact .error hcall (ih.mpr ⟨_, _, _, rfl, himplements, hrest⟩)

/-- Calls whose implementations keep the state are each implemented from that state. -/
theorem ImplementsWith.constant {t : List (Event A E)} {trace : List (Event B E)} {s s' : S}
    (himplements : ImplementsWith h s t trace s')
    (hkeep : ∀ event ∈ t, ∀ v a s', Run (h s event.call) v (.ok (a, s')) → s' = s) :
    s' = s ∧ ∀ event ∈ t, ∃ v, v ⊆ trace ∧
      Run (h s event.call) v (event.answer.map fun a => (a, s)) := by
  induction himplements with
  | nil => exact ⟨rfl, fun event hevent => absurd hevent List.not_mem_nil⟩
  | ok hcall _ ih =>
    obtain ⟨hfirst, hrest⟩ := List.forall_mem_cons.mp hkeep
    obtain rfl := hfirst _ _ _ hcall
    obtain ⟨rfl, hruns⟩ := ih hrest
    refine ⟨rfl, List.forall_mem_cons.mpr ⟨⟨_, List.subset_append_left _ _, hcall⟩, ?_⟩⟩
    intro event hevent
    obtain ⟨v, hv, hrun⟩ := hruns event hevent
    exact ⟨v, List.subset_append_of_subset_right _ hv, hrun⟩
  | error hcall _ ih =>
    obtain ⟨-, hrest⟩ := List.forall_mem_cons.mp hkeep
    obtain ⟨rfl, hruns⟩ := ih hrest
    refine ⟨rfl, List.forall_mem_cons.mpr ⟨⟨_, List.subset_append_left _ _, hcall⟩, ?_⟩⟩
    intro event hevent
    obtain ⟨v, hv, hrun⟩ := hruns event hevent
    exact ⟨v, List.subset_append_of_subset_right _ hv, hrun⟩

end Prog

import Mathlib.Logic.Function.Basic
import Oati.Library.ProgEnv

/-!
# Interleaved programs

Any number of programs run at once and share a state. Each call of a program is one atomic step:
the state decides which answers it may get, and changes. The programs take their steps in any
order, and a program may be left where it stands for ever.

* `Interleaved serve programs s history current s'`: the steps of `history`, each of a program
  named by its process, lead from the state `s` to `s'` and leave the programs `current`.
* `own`: the calls of one process; `Interleaved.steps`: they are an execution of its program.
* `Interleaved.split`: what was the case at an earlier step.
* `Serves`, `Interleaved.extend`: one process takes its next steps.
-/

namespace Prog

variable {C : Type} {A : C → Type} {E α S P : Type} [DecidableEq P]

/-- The steps of programs that share a state: `serve s event s'` says that the call of the event
may be answered so in the state `s`, which becomes `s'`. -/
inductive Interleaved (serve : S → Event A E → S → Prop) (programs : P → Prog A E α) (s : S) :
    List (P × Event A E) → (P → Prog A E α) → S → Prop where
  | nil : Interleaved serve programs s [] programs s
  | snoc {history : List (P × Event A E)} {current : P → Prog A E α} {s' s'' : S} {i : P} {c : C}
      {next : Except E (A c) → Prog A E α} {answer : Except E (A c)}
      (hrest : Interleaved serve programs s history current s') (hcall : current i = call c next)
      (hserve : serve s' ⟨c, answer⟩ s'') :
      Interleaved serve programs s (history ++ [(i, ⟨c, answer⟩)])
        (Function.update current i (next answer)) s''

/-- The calls of one process. -/
def own (i : P) (history : List (P × Event A E)) : List (Event A E) :=
  (history.filter fun step => step.1 = i).map Prod.snd

theorem own_append (i : P) (h h' : List (P × Event A E)) : own i (h ++ h') = own i h ++ own i h' := by
  rw [own, List.filter_append, List.map_append]
  rfl

theorem own_singleton_self (i : P) (event : Event A E) : own i [(i, event)] = [event] := by
  simp [own]

theorem own_singleton_of_ne {i j : P} (h : j ≠ i) (event : Event A E) : own i [(j, event)] = [] := by
  simp [own, h]

theorem mem_own {i : P} {history : List (P × Event A E)} {event : Event A E} :
    event ∈ own i history ↔ (i, event) ∈ history := by
  simp [own]

variable {serve : S → Event A E → S → Prop} {programs current : P → Prog A E α} {s s' : S}
  {history : List (P × Event A E)}

/-- The calls of a process are an execution of its program. -/
theorem Interleaved.steps (h : Interleaved serve programs s history current s') (i : P) :
    Steps (programs i) (own i history) (current i) := by
  induction h with
  | nil => exact .refl _
  | @snoc history current s' s'' j c next answer _ hcall _ ih =>
    rw [own_append]
    by_cases hj : j = i
    · subst hj
      rw [own_singleton_self, Function.update_self]
      rw [hcall] at ih
      exact ih.snoc answer
    · rw [own_singleton_of_ne hj, List.append_nil, Function.update_of_ne (Ne.symm hj)]
      exact ih

/-- What every answer of the shared state satisfies, the calls of a process do. -/
theorem Interleaved.within {env : ∀ c, Except E (A c) → Prop}
    (henv : ∀ {s event s'}, serve s event s' → env event.call event.answer)
    (h : Interleaved serve programs s history current s') (i : P) :
    Within env (own i history) := by
  induction h with
  | nil => exact List.forall_mem_nil _
  | @snoc history current s' s'' j c next answer _ _ hserve ih =>
    intro event hevent
    rw [mem_own, List.mem_append, List.mem_singleton] at hevent
    obtain hold | hnew := hevent
    · exact ih event (mem_own.mpr hold)
    · obtain ⟨-, rfl⟩ := Prod.mk.inj hnew
      exact henv hserve

/-- A history up to a step is one itself, and ends where the step was taken. -/
theorem Interleaved.split {before after : List (P × Event A E)} {i : P} {event : Event A E}
    (h : Interleaved serve programs s (before ++ (i, event) :: after) current s') :
    ∃ middle s₁ s₂, Interleaved serve programs s before middle s₁ ∧ serve s₁ event s₂ := by
  generalize hall : before ++ (i, event) :: after = all at h
  induction h generalizing after with
  | nil => cases (List.append_eq_nil_iff.mp hall).2
  | @snoc history current s' s'' j c next answer hrest _ hserve ih =>
    rcases List.eq_nil_or_concat after with rfl | ⟨after', last, rfl⟩
    · obtain ⟨rfl, hlast⟩ := List.append_inj' hall rfl
      obtain ⟨rfl, rfl⟩ := Prod.mk.inj (List.singleton_inj.mp hlast)
      exact ⟨current, s', s'', hrest, hserve⟩
    · rw [List.concat_eq_append, ← List.cons_append, ← List.append_assoc] at hall
      exact ih (List.append_inj' hall rfl).1

/-- An execution that goes further takes its other steps from where a shorter one has got to. -/
theorem Steps.rest {p q r : Prog A E α} {t u : List (Event A E)} (hlong : Steps p (t ++ u) q)
    (hp : Steps p t r) : Steps r u q := by
  induction hp with
  | refl => exact hlong
  | step _ ih =>
    cases hlong with
    | step h => exact ih h

/-- A process that is done makes no other call. -/
theorem Interleaved.done_stays {before rest : List (P × Event A E)} {middle : P → Prog A E α}
    {s₁ : S} {i : P} {r : Except E α} (hbefore : Interleaved serve programs s before middle s₁)
    (h : Interleaved serve programs s (before ++ rest) current s') (hdone : middle i = done r) :
    current i = done r := by
  have hlong := h.steps i
  have hshort := hbefore.steps i
  rw [own_append] at hlong
  have hrest := hlong.rest hshort
  rw [hdone] at hrest
  exact (steps_done_iff.mp hrest).2

/-- The state answers the calls one after the other. -/
inductive Serves (serve : S → Event A E → S → Prop) : S → List (Event A E) → S → Prop where
  | nil {s : S} : Serves serve s [] s
  | cons {s s' s'' : S} {event : Event A E} {trace : List (Event A E)} (hserve : serve s event s')
      (hrest : Serves serve s' trace s'') : Serves serve s (event :: trace) s''

theorem Serves.append {t u : List (Event A E)} {s₁ s₂ s₃ : S} (ht : Serves serve s₁ t s₂)
    (hu : Serves serve s₂ u s₃) : Serves serve s₁ (t ++ u) s₃ := by
  induction ht with
  | nil => exact hu
  | cons hserve _ ih => exact .cons hserve (ih hu)

/-- The first part of the calls leads to a state that answers the rest. -/
theorem Serves.split {t u : List (Event A E)} {s₁ s₃ : S} (h : Serves serve s₁ (t ++ u) s₃) :
    ∃ s₂, Serves serve s₁ t s₂ ∧ Serves serve s₂ u s₃ := by
  induction t generalizing s₁ with
  | nil => exact ⟨s₁, .nil, h⟩
  | cons event t ih =>
    obtain _ | ⟨hserve, hrest⟩ := h
    obtain ⟨s₂, ht, hu⟩ := ih hrest
    exact ⟨s₂, .cons hserve ht, hu⟩

/-- One process takes its next steps. -/
theorem Interleaved.extend {i : P} {trace : List (Event A E)} {p q : Prog A E α} {s'' : S}
    (h : Interleaved serve programs s history current s') (hp : current i = p)
    (hsteps : Steps p trace q) (hserves : Serves serve s' trace s'') :
    Interleaved serve programs s (history ++ trace.map (i, ·)) (Function.update current i q) s'' := by
  induction hsteps generalizing history current s' with
  | refl =>
    cases hserves
    rw [List.map_nil, List.append_nil, ← hp, Function.update_eq_self]
    exact h
  | @step c next answer rest q _ ih =>
    obtain _ | ⟨hserve, hrest⟩ := hserves
    have hnext := ih (h.snoc hp hserve) (Function.update_self i _ current) hrest
    rw [List.append_assoc, Function.update_idem] at hnext
    exact hnext

end Prog

import Mathlib.Data.List.Basic

/-!
# Programs over fallible calls

A program that depends on its environment, as a tree: it is done, with a value or an error, or
it makes a call and goes on with whatever the environment answers, an error included. Nothing is
assumed of the environment. A call may be answered differently each time, so a statement over
all traces holds for every behaviour of the dependencies.

* `Run p trace r`: with the answers of `trace`, in this order, `p` makes these calls and is done
  with `r`.
* `Steps p trace q`: with the answers of `trace`, `p` has got to `q`; so the traces that `p`
  leaves when a dependency never answers are covered too.
* `run_bind_iff`, `run_attempt_iff`, `run_perform_iff`, `steps_bind_iff`, …: one rule for each way
  to build a program.
* `Reaches p trace c`: with the answers of `trace`, `p` has got to the call `c`.
* `Avoids`, `AtMost`, `Each`, `Unless`: a program makes no call of a kind, at most a number of
  them, only under a condition on the trace, or none unless its value satisfies a condition;
  compositional properties.
* `interpret`: a program whose calls are implemented by another's.
-/

/-- A program that makes calls `c : C`, answered by `A c` or an error of type `E`, and returns
an `α` or an error. -/
inductive Prog {C : Type} (A : C → Type) (E : Type) (α : Type) : Type where
  | done (result : Except E α)
  | call (c : C) (next : Except E (A c) → Prog A E α)

namespace Prog

variable {C : Type} {A : C → Type} {E α β : Type}

/-! ### Building programs -/

/-- Go on with the value of a program; an error ends it. -/
def bind (p : Prog A E α) (f : α → Prog A E β) : Prog A E β :=
  match p with
  | done (.ok a) => f a
  | done (.error e) => done (.error e)
  | call c next => call c fun answer => (next answer).bind f

instance : Monad (Prog A E) where
  pure a := done (.ok a)
  bind := bind

/-- End with an error. -/
def throw (e : E) : Prog A E α := done (.error e)

/-- A pure computation that may fail. -/
def ofExcept (result : Except E α) : Prog A E α := done result

/-- One call. -/
def perform (c : C) : Prog A E (A c) := call c done

/-- The outcome of a program as a value: `try`. -/
def attempt (p : Prog A E α) : Prog A E (Except E α) :=
  match p with
  | done result => done (.ok result)
  | call c next => call c fun answer => (next answer).attempt

/-! ### Executions -/

/-- A call and the answer it got. -/
structure Event (A : C → Type) (E : Type) where
  call : C
  answer : Except E (A call)

/-- With the answers of the trace, the program gets from `p` to `q`. -/
inductive Steps : Prog A E α → List (Event A E) → Prog A E α → Prop where
  | refl (p : Prog A E α) : Steps p [] p
  | step {c : C} {next : Except E (A c) → Prog A E α} {answer : Except E (A c)}
      {trace : List (Event A E)} {q : Prog A E α} (h : Steps (next answer) trace q) :
      Steps (call c next) (⟨c, answer⟩ :: trace) q

/-- With the answers of the trace, the program is done with `result`. -/
def Run (p : Prog A E α) (trace : List (Event A E)) (result : Except E α) : Prop :=
  Steps p trace (done result)

theorem steps_done_iff {result : Except E α} {trace : List (Event A E)} {q : Prog A E α} :
    Steps (done result) trace q ↔ trace = [] ∧ q = done result := by
  constructor
  · intro h
    cases h
    exact ⟨rfl, rfl⟩
  · rintro ⟨rfl, rfl⟩
    exact .refl _

theorem steps_call_iff {c : C} {next : Except E (A c) → Prog A E α}
    {trace : List (Event A E)} {q : Prog A E α} :
    Steps (call c next) trace q ↔ (trace = [] ∧ q = call c next) ∨
      ∃ answer rest, trace = ⟨c, answer⟩ :: rest ∧ Steps (next answer) rest q := by
  constructor
  · intro h
    cases h with
    | refl => exact .inl ⟨rfl, rfl⟩
    | step h => exact .inr ⟨_, _, rfl, h⟩
  · rintro (⟨rfl, rfl⟩ | ⟨answer, rest, rfl, h⟩)
    · exact .refl _
    · exact .step h

theorem steps_call_or_done (p : Prog A E α) :
    (∃ c next, p = call c next) ∨ ∃ result, p = done result := by
  cases p with
  | done result => exact .inr ⟨result, rfl⟩
  | call c next => exact .inl ⟨c, next, rfl⟩

/-- Executions compose. -/
theorem Steps.append {p q r : Prog A E α} {t u : List (Event A E)} (hp : Steps p t q)
    (hq : Steps q u r) : Steps p (t ++ u) r := by
  induction hp with
  | refl => exact hq
  | step _ ih => exact .step (ih hq)

/-- An execution that stands at a call takes it with any answer. -/
theorem Steps.snoc {p : Prog A E α} {t : List (Event A E)} {c : C}
    {next : Except E (A c) → Prog A E α} (h : Steps p t (call c next)) (answer : Except E (A c)) :
    Steps p (t ++ [⟨c, answer⟩]) (next answer) :=
  h.append (.step (.refl _))

theorem run_done_iff {result r : Except E α} {trace : List (Event A E)} :
    Run (done result) trace r ↔ trace = [] ∧ r = result := by
  rw [Run, steps_done_iff]
  simp

theorem run_call_iff {c : C} {next : Except E (A c) → Prog A E α} {trace : List (Event A E)}
    {r : Except E α} : Run (call c next) trace r ↔
      ∃ answer rest, trace = ⟨c, answer⟩ :: rest ∧ Run (next answer) rest r := by
  rw [Run, steps_call_iff]
  simp [Run]

theorem run_pure_iff {a : α} {trace : List (Event A E)} {r : Except E α} :
    Run (pure a : Prog A E α) trace r ↔ trace = [] ∧ r = .ok a :=
  run_done_iff

theorem run_throw_iff {e : E} {trace : List (Event A E)} {r : Except E α} :
    Run (throw e : Prog A E α) trace r ↔ trace = [] ∧ r = .error e :=
  run_done_iff

theorem run_ofExcept_iff {result r : Except E α} {trace : List (Event A E)} :
    Run (ofExcept result : Prog A E α) trace r ↔ trace = [] ∧ r = result :=
  run_done_iff

theorem run_perform_iff {c : C} {trace : List (Event A E)} {r : Except E (A c)} :
    Run (perform c : Prog A E (A c)) trace r ↔ trace = [⟨c, r⟩] := by
  rw [perform, run_call_iff]
  constructor
  · rintro ⟨answer, rest, rfl, h⟩
    obtain ⟨rfl, rfl⟩ := run_done_iff.mp h
    rfl
  · rintro rfl
    exact ⟨r, [], rfl, run_done_iff.mpr ⟨rfl, rfl⟩⟩

/-- A call is done with its answer. -/
theorem run_perform (c : C) (r : Except E (A c)) : Run (perform c) [⟨c, r⟩] r :=
  run_perform_iff.mpr rfl

/-- An execution of a sequence is still in its first part, or has completed it. -/
theorem steps_bind_iff {p : Prog A E α} {f : α → Prog A E β} {trace : List (Event A E)}
    {q : Prog A E β} : Steps (p >>= f) trace q ↔
      (∃ p', Steps p trace p' ∧ q = p' >>= f) ∨
      ∃ a t u, trace = t ++ u ∧ Run p t (.ok a) ∧ Steps (f a) u q := by
  induction p generalizing trace with
  | done result =>
    cases result with
    | error e =>
      have hbind : (done (.error e) >>= f : Prog A E β) = done (.error e) := rfl
      rw [hbind, steps_done_iff]
      constructor
      · rintro ⟨rfl, rfl⟩
        exact .inl ⟨done (.error e), .refl _, rfl⟩
      · rintro (⟨p', hp', rfl⟩ | ⟨a, t, u, rfl, ha, -⟩)
        · obtain ⟨rfl, rfl⟩ := steps_done_iff.mp hp'
          exact ⟨rfl, rfl⟩
        · cases (run_done_iff.mp ha).2
    | ok a =>
      have hbind : (done (.ok a) >>= f : Prog A E β) = f a := rfl
      rw [hbind]
      constructor
      · intro h
        exact .inr ⟨a, [], trace, rfl, run_done_iff.mpr ⟨rfl, rfl⟩, h⟩
      · rintro (⟨p', hp', rfl⟩ | ⟨b, t, u, rfl, hb, hu⟩)
        · obtain ⟨rfl, rfl⟩ := steps_done_iff.mp hp'
          exact .refl _
        · obtain ⟨rfl, hab⟩ := run_done_iff.mp hb
          cases hab
          exact hu
  | call c next ih =>
    have hbind : (call c next >>= f : Prog A E β) = call c fun answer => next answer >>= f := rfl
    rw [hbind, steps_call_iff]
    constructor
    · rintro (⟨rfl, rfl⟩ | ⟨answer, rest, rfl, h⟩)
      · exact .inl ⟨call c next, .refl _, rfl⟩
      · rcases (ih answer).mp h with ⟨p', hp', rfl⟩ | ⟨a, t, u, rfl, ha, hu⟩
        · exact .inl ⟨p', .step hp', rfl⟩
        · exact .inr ⟨a, ⟨c, answer⟩ :: t, u, rfl, .step ha, hu⟩
    · rintro (⟨p', hp', rfl⟩ | ⟨a, t, u, rfl, ha, hu⟩)
      · rcases steps_call_iff.mp hp' with ⟨rfl, rfl⟩ | ⟨answer, rest, rfl, h⟩
        · exact .inl ⟨rfl, rfl⟩
        · exact .inr ⟨answer, rest, rfl, (ih answer).mpr (.inl ⟨p', h, rfl⟩)⟩
      · obtain ⟨answer, rest, rfl, h⟩ := run_call_iff.mp ha
        exact .inr ⟨answer, rest ++ u, rfl, (ih answer).mpr (.inr ⟨a, rest, u, rfl, h, hu⟩)⟩

/-- A sequence is done: its first part failed, or it succeeded and the second part is done. -/
theorem run_bind_iff {p : Prog A E α} {f : α → Prog A E β} {trace : List (Event A E)}
    {r : Except E β} : Run (p >>= f) trace r ↔
      (∃ e, Run p trace (.error e) ∧ r = .error e) ∨
      ∃ a t u, trace = t ++ u ∧ Run p t (.ok a) ∧ Run (f a) u r := by
  rw [Run, steps_bind_iff]
  constructor
  · rintro (⟨p', hp', h⟩ | h)
    · cases p' with
      | done result =>
        cases result with
        | error e =>
          cases h
          exact .inl ⟨e, hp', rfl⟩
        | ok a => exact .inr ⟨a, trace, [], by simp, hp', by rw [Run, h]; exact .refl _⟩
      | call c next => cases h
    · exact .inr h
  · rintro (⟨e, hp, rfl⟩ | h)
    · exact .inl ⟨_, hp, rfl⟩
    · exact .inr h

/-- A sequence succeeds through an intermediate value. -/
theorem run_bind_ok_iff {p : Prog A E α} {f : α → Prog A E β} {trace : List (Event A E)} {b : β} :
    Run (p >>= f) trace (.ok b) ↔
      ∃ a t u, trace = t ++ u ∧ Run p t (.ok a) ∧ Run (f a) u (.ok b) := by
  rw [run_bind_iff]
  simp

/-- Catching changes neither the calls nor the answers. -/
theorem steps_attempt_iff {p : Prog A E α} {trace : List (Event A E)}
    {q : Prog A E (Except E α)} :
    Steps p.attempt trace q ↔ ∃ p', Steps p trace p' ∧ q = p'.attempt := by
  induction p generalizing trace with
  | done result =>
    rw [attempt, steps_done_iff]
    constructor
    · rintro ⟨rfl, rfl⟩
      exact ⟨_, .refl _, rfl⟩
    · rintro ⟨p', hp', rfl⟩
      obtain ⟨rfl, rfl⟩ := steps_done_iff.mp hp'
      exact ⟨rfl, rfl⟩
  | call c next ih =>
    rw [attempt, steps_call_iff]
    constructor
    · rintro (⟨rfl, rfl⟩ | ⟨answer, rest, rfl, h⟩)
      · exact ⟨_, .refl _, rfl⟩
      · obtain ⟨p', hp', rfl⟩ := (ih answer).mp h
        exact ⟨p', .step hp', rfl⟩
    · rintro ⟨p', hp', rfl⟩
      rcases steps_call_iff.mp hp' with ⟨rfl, rfl⟩ | ⟨answer, rest, rfl, h⟩
      · exact .inl ⟨rfl, rfl⟩
      · exact .inr ⟨answer, rest, rfl, (ih answer).mpr ⟨p', h, rfl⟩⟩

theorem run_attempt_iff {p : Prog A E α} {trace : List (Event A E)}
    {r : Except E (Except E α)} :
    Run p.attempt trace r ↔ ∃ r', Run p trace r' ∧ r = .ok r' := by
  rw [Run, steps_attempt_iff]
  constructor
  · rintro ⟨p', hp', h⟩
    cases p' with
    | done result =>
      cases h
      exact ⟨result, hp', rfl⟩
    | call c next => cases h
  · rintro ⟨r', hr', rfl⟩
    exact ⟨_, hr', rfl⟩

theorem run_attempt_perform_iff {c : C} {trace : List (Event A E)}
    {r : Except E (Except E (A c))} : Run (perform c : Prog A E (A c)).attempt trace r ↔
      ∃ answer, trace = [⟨c, answer⟩] ∧ r = .ok answer := by
  rw [run_attempt_iff]
  simp only [run_perform_iff]

theorem Run.bind {p : Prog A E α} {f : α → Prog A E β} {t u : List (Event A E)} {a : α}
    {r : Except E β} (hp : Run p t (.ok a)) (hf : Run (f a) u r) : Run (p >>= f) (t ++ u) r :=
  run_bind_iff.mpr (.inr ⟨a, t, u, rfl, hp, hf⟩)

theorem Run.attempt {p : Prog A E α} {t : List (Event A E)} {r : Except E α} (hp : Run p t r) :
    Run p.attempt t (.ok r) := run_attempt_iff.mpr ⟨r, hp, rfl⟩

/-- The trace holds this answer to the call. -/
def Answered (trace : List (Event A E)) (c : C) (answer : Except E (A c)) : Prop :=
  ⟨c, answer⟩ ∈ trace

theorem answered_append {t u : List (Event A E)} {c : C} {answer : Except E (A c)} :
    Answered (t ++ u) c answer ↔ Answered t c answer ∨ Answered u c answer :=
  List.mem_append

theorem answered_singleton {c : C} {answer answer' : Except E (A c)} :
    Answered [⟨c, answer'⟩] c answer ↔ answer = answer' := by
  rw [Answered, List.mem_singleton, Event.mk.injEq]
  simp

theorem Answered.mono {t u : List (Event A E)} {c : C} {answer : Except E (A c)}
    (h : Answered t c answer) (hsub : t ⊆ u) : Answered u c answer := hsub h

/-! ### Calls that are reached -/

/-- With the answers of the trace, the program stands at the call. -/
def Reaches (p : Prog A E α) (trace : List (Event A E)) (c : C) : Prop :=
  ∃ next, Steps p trace (call c next)

theorem not_reaches_done {result : Except E α} {trace : List (Event A E)} {c : C} :
    ¬ Reaches (done result : Prog A E α) trace c := by
  rintro ⟨next, h⟩
  obtain ⟨-, hq⟩ := steps_done_iff.mp h
  cases hq

theorem reaches_perform_iff {c c' : C} {trace : List (Event A E)} :
    Reaches (perform c : Prog A E (A c)) trace c' ↔ trace = [] ∧ c' = c := by
  constructor
  · rintro ⟨next, h⟩
    rcases steps_call_iff.mp h with ⟨rfl, hq⟩ | ⟨answer, rest, rfl, hrest⟩
    · cases hq
      exact ⟨rfl, rfl⟩
    · obtain ⟨-, hq⟩ := steps_done_iff.mp hrest
      cases hq
  · rintro ⟨rfl, rfl⟩
    exact ⟨_, .refl _⟩

/-- A sequence stands at a call of its first part, or of its second. -/
theorem reaches_bind_iff {p : Prog A E α} {f : α → Prog A E β} {trace : List (Event A E)} {c : C} :
    Reaches (p >>= f) trace c ↔
      Reaches p trace c ∨ ∃ a t u, trace = t ++ u ∧ Run p t (.ok a) ∧ Reaches (f a) u c := by
  constructor
  · rintro ⟨next, h⟩
    rcases steps_bind_iff.mp h with ⟨p', hp', hq⟩ | ⟨a, t, u, rfl, ht, hu⟩
    · cases p' with
      | done result =>
        cases result with
        | error e => cases hq
        | ok a => exact .inr ⟨a, trace, [], by simp, hp', next, by rw [hq]; exact .refl _⟩
      | call c' next' =>
        cases hq
        exact .inl ⟨next', hp'⟩
    · exact .inr ⟨a, t, u, rfl, ht, next, hu⟩
  · rintro (⟨next, h⟩ | ⟨a, t, u, rfl, ht, next, hu⟩)
    · exact ⟨_, steps_bind_iff.mpr (.inl ⟨_, h, rfl⟩)⟩
    · exact ⟨next, steps_bind_iff.mpr (.inr ⟨a, t, u, rfl, ht, hu⟩)⟩

theorem reaches_attempt_iff {p : Prog A E α} {trace : List (Event A E)} {c : C} :
    Reaches p.attempt trace c ↔ Reaches p trace c := by
  constructor
  · rintro ⟨next, h⟩
    obtain ⟨p', hp', hq⟩ := steps_attempt_iff.mp h
    cases p' with
    | done result => cases hq
    | call c' next' =>
      cases hq
      exact ⟨next', hp'⟩
  · rintro ⟨next, h⟩
    exact ⟨_, steps_attempt_iff.mpr ⟨_, h, rfl⟩⟩

theorem Run.reaches_bind {p : Prog A E α} {f : α → Prog A E β} {t u : List (Event A E)} {a : α}
    {c : C} (hp : Run p t (.ok a)) (hf : Reaches (f a) u c) : Reaches (p >>= f) (t ++ u) c :=
  reaches_bind_iff.mpr (.inr ⟨a, t, u, rfl, hp, hf⟩)

theorem reaches_bind_perform {c c' : C} {f : A c → Prog A E β} {u : List (Event A E)} {a : A c}
    (hf : Reaches (f a) u c') : Reaches (perform c >>= f) (⟨c, .ok a⟩ :: u) c' :=
  (run_perform c (.ok a)).reaches_bind hf

/-- What comes before a call of the trace leads to it. -/
theorem Steps.reaches {p q : Prog A E α} {t u : List (Event A E)} {event : Event A E}
    (h : Steps p (t ++ event :: u) q) : Reaches p t event.call := by
  induction t generalizing p with
  | nil =>
    rcases steps_call_or_done p with ⟨c, next, rfl⟩ | ⟨result, rfl⟩
    · rcases steps_call_iff.mp h with ⟨hnil, -⟩ | ⟨answer, rest, hcons, -⟩
      · cases hnil
      · cases hcons
        exact ⟨next, .refl _⟩
    · cases (steps_done_iff.mp h).1
  | cons head rest ih =>
    rcases steps_call_or_done p with ⟨c, next, rfl⟩ | ⟨result, rfl⟩
    · rcases steps_call_iff.mp h with ⟨hnil, -⟩ | ⟨answer, rest', hcons, hrest⟩
      · cases hnil
      · cases hcons
        obtain ⟨next', hnext⟩ := ih hrest
        exact ⟨next', .step hnext⟩
    · cases (steps_done_iff.mp h).1

/-! ### Calls that are not made -/

/-- No execution of the program makes a call of the kind `P`. -/
def Avoids (P : C → Prop) (p : Prog A E α) : Prop :=
  ∀ trace q, Steps p trace q → ∀ event ∈ trace, ¬ P event.call

variable {P : C → Prop}

theorem avoids_done (result : Except E α) : Avoids P (done result : Prog A E α) := by
  intro trace q h
  obtain ⟨rfl, -⟩ := steps_done_iff.mp h
  simp

theorem avoids_pure (a : α) : Avoids P (pure a : Prog A E α) := avoids_done _

theorem avoids_throw (e : E) : Avoids P (throw e : Prog A E α) := avoids_done _

theorem avoids_ofExcept (result : Except E α) : Avoids P (ofExcept result : Prog A E α) :=
  avoids_done _

theorem avoids_perform {c : C} (h : ¬ P c) : Avoids P (perform c : Prog A E (A c)) := by
  intro trace q hsteps event hevent
  rcases steps_call_iff.mp hsteps with ⟨rfl, -⟩ | ⟨answer, rest, rfl, hrest⟩
  · simp at hevent
  · obtain ⟨rfl, -⟩ := steps_done_iff.mp hrest
    rw [List.mem_singleton] at hevent
    rw [hevent]
    exact h

theorem Avoids.bind {p : Prog A E α} {f : α → Prog A E β} (hp : Avoids P p)
    (hf : ∀ a, Avoids P (f a)) : Avoids P (p >>= f) := by
  intro trace q h event hevent
  rcases steps_bind_iff.mp h with ⟨p', hp', -⟩ | ⟨a, t, u, rfl, ht, hu⟩
  · exact hp _ _ hp' event hevent
  · rcases List.mem_append.mp hevent with hmem | hmem
    · exact hp _ _ ht event hmem
    · exact hf a _ _ hu event hmem

theorem Avoids.attempt {p : Prog A E α} (hp : Avoids P p) : Avoids P p.attempt := by
  intro trace q h
  obtain ⟨p', hp', -⟩ := steps_attempt_iff.mp h
  exact hp _ _ hp'

theorem Avoids.ite {c : Prop} [Decidable c] {p q : Prog A E α} (hp : Avoids P p)
    (hq : Avoids P q) : Avoids P (if c then p else q) := by
  split_ifs
  · exact hp
  · exact hq

/-- A program that never makes a call of the kind does not stand at one either. -/
theorem Avoids.not_reaches [Inhabited E] {p : Prog A E α} (hp : Avoids P p)
    {trace : List (Event A E)} {c : C} (hc : P c) : ¬ Reaches p trace c := by
  rintro ⟨next, h⟩
  have hevent := hp _ _ (h.snoc (.error default)) ⟨c, .error default⟩ (by simp)
  exact hevent hc

/-- A program that never makes a call of the kind does not hold an answer to one. -/
theorem Avoids.not_answered {p q : Prog A E α} {trace : List (Event A E)}
    (hp : Avoids P p) (h : Steps p trace q) {c : C} (hc : P c) (answer : Except E (A c)) :
    ¬ Answered trace c answer := fun hanswered => hp trace q h _ hanswered hc

theorem Avoids.mono {Q : C → Prop} {p : Prog A E α} (hp : Avoids Q p) (h : ∀ c, P c → Q c) :
    Avoids P p := fun trace q hsteps event hevent hP => hp trace q hsteps event hevent (h _ hP)

/-- A sequence whose first part makes no call of the kind reaches one in its second part. -/
theorem Avoids.reaches_bind [Inhabited E] {p : Prog A E α} {f : α → Prog A E β}
    (hp : Avoids P p) {trace : List (Event A E)} {c : C} (hc : P c) :
    Reaches (p >>= f) trace c ↔ ∃ a t u, trace = t ++ u ∧ Run p t (.ok a) ∧ Reaches (f a) u c := by
  rw [reaches_bind_iff, or_iff_right (hp.not_reaches hc)]

/-! ### How often a call is made -/

variable {K : C → Bool}

/-- No execution of the program makes more than `n` calls of the kind `K`. -/
def AtMost (K : C → Bool) (n : ℕ) (p : Prog A E α) : Prop :=
  ∀ trace q, Steps p trace q → (trace.countP fun event => K event.call) ≤ n

theorem Avoids.atMost {p : Prog A E α} (hp : Avoids (fun c => K c = true) p) (n : ℕ) :
    AtMost K n p := by
  intro trace q h
  rw [List.countP_eq_zero.mpr fun event hevent => hp trace q h event hevent]
  exact Nat.zero_le n

theorem atMost_perform (c : C) : AtMost K 1 (perform c : Prog A E (A c)) := by
  intro trace q h
  rcases steps_call_iff.mp h with ⟨rfl, -⟩ | ⟨answer, rest, rfl, hrest⟩
  · exact Nat.zero_le 1
  · obtain ⟨rfl, -⟩ := steps_done_iff.mp hrest
    exact List.countP_le_length

theorem AtMost.bind {p : Prog A E α} {f : α → Prog A E β} {m n : ℕ} (hp : AtMost K m p)
    (hf : ∀ a, AtMost K n (f a)) : AtMost K (m + n) (p >>= f) := by
  intro trace q h
  rcases steps_bind_iff.mp h with ⟨p', hp', -⟩ | ⟨a, t, u, rfl, ht, hu⟩
  · exact Nat.le_trans (hp _ _ hp') (Nat.le_add_right m n)
  · rw [List.countP_append]
    exact Nat.add_le_add (hp _ _ ht) (hf a _ _ hu)

/-- A sequence whose first part makes no call of the kind makes those of its second part. -/
theorem Avoids.atMost_bind {p : Prog A E α} {f : α → Prog A E β} {n : ℕ}
    (hp : Avoids (fun c => K c = true) p) (hf : ∀ a, AtMost K n (f a)) :
    AtMost K n (p >>= f) := by
  have h := (hp.atMost 0).bind hf
  rwa [Nat.zero_add] at h

/-- A sequence whose second part makes no call of the kind makes those of its first part. -/
theorem AtMost.bind_avoids {p : Prog A E α} {f : α → Prog A E β} {n : ℕ} (hp : AtMost K n p)
    (hf : ∀ a, Avoids (fun c => K c = true) (f a)) : AtMost K n (p >>= f) :=
  hp.bind fun a => (hf a).atMost 0

theorem AtMost.attempt {p : Prog A E α} {n : ℕ} (hp : AtMost K n p) : AtMost K n p.attempt := by
  intro trace q h
  obtain ⟨p', hp', -⟩ := steps_attempt_iff.mp h
  exact hp _ _ hp'

theorem AtMost.ite {c : Prop} [Decidable c] {p q : Prog A E α} {n : ℕ} (hp : AtMost K n p)
    (hq : AtMost K n q) : AtMost K n (if c then p else q) := by
  split_ifs
  · exact hp
  · exact hq

/-! ### What is established at the calls of a kind -/

section Each

variable {N : C → Prop} {Φ Ψ : List (Event A E) → C → Prop}

/-- Whenever the program has made a call of the kind `P`, the trace and the call satisfy `Φ`,
also later on. -/
def Each (P : C → Prop) (Φ : List (Event A E) → C → Prop) (p : Prog A E α) : Prop :=
  ∀ trace q, Steps p trace q → ∀ event ∈ trace, P event.call → Φ trace event.call

/-- `Φ` depends on the trace only through its calls of the kind `N`. -/
def DependsOn (N : C → Prop) (Φ : List (Event A E) → C → Prop) : Prop :=
  ∀ t u c, (∀ event ∈ t, ¬ N event.call) → Φ u c → Φ (t ++ u) c ∧ Φ (u ++ t) c

theorem Avoids.each {p : Prog A E α} (hp : Avoids P p) : Each P Φ p :=
  fun trace q h event hevent hP => absurd hP (hp trace q h event hevent)

theorem Each.mono {p : Prog A E α} (hp : Each P Φ p) (h : ∀ t c, Φ t c → Ψ t c) : Each P Ψ p :=
  fun trace q hsteps event hevent hP => h _ _ (hp trace q hsteps event hevent hP)

theorem Each.attempt {p : Prog A E α} (hp : Each P Φ p) : Each P Φ p.attempt := by
  intro trace q h
  obtain ⟨p', hp', -⟩ := steps_attempt_iff.mp h
  exact hp _ _ hp'

theorem Each.ite {c : Prop} [Decidable c] {p q : Prog A E α} (hp : Each P Φ p)
    (hq : Each P Φ q) : Each P Φ (if c then p else q) := by
  split_ifs
  · exact hp
  · exact hq

theorem each_perform {c : C} (h : ∀ answer, Φ [⟨c, answer⟩] c) :
    Each P Φ (perform c : Prog A E (A c)) := by
  intro trace q hsteps event hevent _
  rcases steps_call_iff.mp hsteps with ⟨rfl, -⟩ | ⟨answer, rest, rfl, hrest⟩
  · cases hevent
  · obtain ⟨rfl, -⟩ := steps_done_iff.mp hrest
    obtain rfl := List.mem_singleton.mp hevent
    exact h answer

/-- A first part that makes no call that matters. -/
theorem Each.bind_right {p : Prog A E α} {f : α → Prog A E β} (hΦ : DependsOn N Φ)
    (hP : Avoids P p) (hN : Avoids N p) (hf : ∀ a, Each P Φ (f a)) : Each P Φ (p >>= f) := by
  intro trace q h event hevent hcall
  rcases steps_bind_iff.mp h with ⟨p', hp', -⟩ | ⟨a, t, u, rfl, ht, hu⟩
  · exact absurd hcall (hP _ _ hp' event hevent)
  · rcases List.mem_append.mp hevent with hmem | hmem
    · exact absurd hcall (hP _ _ ht event hmem)
    · exact (hΦ t u event.call (hN _ _ ht) (hf a _ _ hu event hmem hcall)).1

/-- A second part that makes no call that matters. -/
theorem Each.bind_left {p : Prog A E α} {f : α → Prog A E β} (hΦ : DependsOn N Φ)
    (hp : Each P Φ p) (hP : ∀ a, Avoids P (f a)) (hN : ∀ a, Avoids N (f a)) :
    Each P Φ (p >>= f) := by
  intro trace q h event hevent hcall
  rcases steps_bind_iff.mp h with ⟨p', hp', -⟩ | ⟨a, t, u, rfl, ht, hu⟩
  · exact hp _ _ hp' event hevent hcall
  · rcases List.mem_append.mp hevent with hmem | hmem
    · exact (hΦ u t event.call (hN a _ _ hu) (hp _ _ ht event hmem hcall)).2
    · exact absurd hcall (hP a _ _ hu event hmem)

end Each

/-! ### What a program returns when it makes no call of a kind -/

/-- Whenever the program returns a value, it satisfies `Q`, or a call of the kind `P` was made. -/
def Unless (P : C → Prop) (Q : α → Prop) (p : Prog A E α) : Prop :=
  ∀ trace a, Run p trace (.ok a) → (∃ event ∈ trace, P event.call) ∨ Q a

variable {Q : α → Prop} {R : β → Prop}

theorem unless_pure {a : α} (h : Q a) : Unless P Q (pure a : Prog A E α) := by
  intro trace b hrun
  obtain ⟨-, hb⟩ := run_pure_iff.mp hrun
  cases hb
  exact .inr h

theorem unless_throw (e : E) : Unless P Q (throw e : Prog A E α) := by
  intro trace b hrun
  cases (run_throw_iff.mp hrun).2

theorem unless_ofExcept {result : Except E α} (h : ∀ a, result = .ok a → Q a) :
    Unless P Q (ofExcept result : Prog A E α) := by
  intro trace b hrun
  exact .inr (h b (run_ofExcept_iff.mp hrun).2.symm)

/-- The value of a sequence is that of its second part. -/
theorem unless_bind {p : Prog A E α} {f : α → Prog A E β} (hf : ∀ a, Unless P R (f a)) :
    Unless P R (p >>= f) := by
  intro trace b hrun
  obtain ⟨a, t, u, rfl, -, hu⟩ := run_bind_ok_iff.mp hrun
  rcases hf a u b hu with ⟨event, hevent, hP⟩ | hR
  · exact .inl ⟨event, List.mem_append_right t hevent, hP⟩
  · exact .inr hR

/-- A sequence that starts with a call of the kind. -/
theorem unless_bind_attempt_perform {c : C} {f : Except E (A c) → Prog A E β} (hc : P c) :
    Unless P R ((perform c : Prog A E (A c)).attempt >>= f) := by
  intro trace b hrun
  obtain ⟨a, t, u, rfl, ht, -⟩ := run_bind_ok_iff.mp hrun
  obtain ⟨answer, rfl, -⟩ := run_attempt_perform_iff.mp ht
  exact .inl ⟨⟨c, answer⟩, by simp, hc⟩

theorem Unless.ite {c : Prop} [Decidable c] {p q : Prog A E α} (hp : Unless P Q p)
    (hq : Unless P Q q) : Unless P Q (if c then p else q) := by
  split_ifs
  · exact hp
  · exact hq

/-- What is caught is the value a program returns. -/
theorem Unless.attempt_bind {p : Prog A E α} {f : Except E α → Prog A E β} (hp : Unless P Q p)
    (hok : ∀ a, Q a → Unless P R (f (.ok a))) (herror : ∀ e, Unless P R (f (.error e))) :
    Unless P R (p.attempt >>= f) := by
  intro trace b hrun
  obtain ⟨r, t, u, rfl, ht, hu⟩ := run_bind_ok_iff.mp hrun
  obtain ⟨r', hr', hcaught⟩ := run_attempt_iff.mp ht
  cases hcaught
  have hright : (∃ event ∈ u, P event.call) ∨ R b → (∃ event ∈ t ++ u, P event.call) ∨ R b := by
    rintro (⟨event, hevent, hP⟩ | hR)
    · exact .inl ⟨event, List.mem_append_right t hevent, hP⟩
    · exact .inr hR
  cases r with
  | error e => exact hright (herror e u b hu)
  | ok a =>
    rcases hp t a hr' with ⟨event, hevent, hP⟩ | hQ
    · exact .inl ⟨event, List.mem_append_left u hevent, hP⟩
    · exact hright (hok a hQ u b hu)

/-! ### Implementing the calls -/

section Interpret

variable {D : Type} {B : D → Type}

/-- The program with every call implemented by a program over other calls. What the
implementation throws is what the call throws. -/
def interpret (h : ∀ c, Prog B E (A c)) : Prog A E α → Prog B E α
  | done result => done result
  | call c next => (h c).attempt.bind fun answer => (next answer).interpret h

/-- The trace of an interpreted program is made of runs of the implementations. -/
inductive Implements (h : ∀ c, Prog B E (A c)) : List (Event A E) → List (Event B E) → Prop where
  | nil : Implements h [] []
  | cons {event : Event A E} {trace : List (Event A E)} {t u : List (Event B E)}
      (hevent : Run (h event.call) t event.answer) (hrest : Implements h trace u) :
      Implements h (event :: trace) (t ++ u)

/-- The runs of an interpreted program are the program's own, with their calls implemented. -/
theorem run_interpret_iff {h : ∀ c, Prog B E (A c)} {p : Prog A E α} {trace : List (Event B E)}
    {r : Except E α} :
    Run (p.interpret h) trace r ↔ ∃ t, Run p t r ∧ Implements h t trace := by
  induction p generalizing trace with
  | done result =>
    rw [interpret, run_done_iff]
    constructor
    · rintro ⟨rfl, rfl⟩
      exact ⟨[], run_done_iff.mpr ⟨rfl, rfl⟩, .nil⟩
    · rintro ⟨t, ht, himpl⟩
      obtain ⟨rfl, rfl⟩ := run_done_iff.mp ht
      cases himpl
      exact ⟨rfl, rfl⟩
  | call c next ih =>
    have hbind : (call c next).interpret h
        = (h c).attempt >>= fun answer => (next answer).interpret h := rfl
    rw [hbind, run_bind_iff]
    constructor
    · rintro (⟨e, he, -⟩ | ⟨answer, t, u, rfl, hc, hu⟩)
      · obtain ⟨r', -, hr'⟩ := run_attempt_iff.mp he
        cases hr'
      · obtain ⟨r', hr', hanswer⟩ := run_attempt_iff.mp hc
        cases hanswer
        obtain ⟨t', ht', himpl⟩ := (ih answer).mp hu
        exact ⟨⟨c, answer⟩ :: t', .step ht', .cons hr' himpl⟩
    · rintro ⟨t, ht, himpl⟩
      obtain ⟨answer, rest, rfl, hrest⟩ := run_call_iff.mp ht
      obtain _ | ⟨hevent, himpl⟩ := himpl
      exact .inr ⟨answer, _, _, rfl, run_attempt_iff.mpr ⟨_, hevent, rfl⟩,
        (ih answer).mpr ⟨rest, hrest, himpl⟩⟩

/-- Answers that the implementations can give are implemented. -/
theorem exists_implements {h : ∀ c, Prog B E (A c)} {t : List (Event A E)}
    (ht : ∀ event ∈ t, ∃ v, Run (h event.call) v event.answer) : ∃ u, Implements h t u := by
  induction t with
  | nil => exact ⟨[], .nil⟩
  | cons event rest ih =>
    obtain ⟨⟨v, hv⟩, hrest⟩ := List.forall_mem_cons.mp ht
    obtain ⟨u, hu⟩ := ih hrest
    exact ⟨v ++ u, .cons hv hu⟩

/-- The implementation of a call of the trace has run. -/
theorem Implements.run_of_mem {h : ∀ c, Prog B E (A c)} {t : List (Event A E)}
    {u : List (Event B E)} (himplements : Implements h t u) {event : Event A E}
    (hevent : event ∈ t) : ∃ v, v ⊆ u ∧ Run (h event.call) v event.answer := by
  induction himplements with
  | nil => cases hevent
  | cons hrun _ ih =>
    rcases List.mem_cons.mp hevent with rfl | hrest
    · exact ⟨_, List.subset_append_left _ _, hrun⟩
    · obtain ⟨v, hv, hrun'⟩ := ih hrest
      exact ⟨v, fun x hx => List.mem_append_right _ (hv hx), hrun'⟩

theorem Avoids.interpret {P : D → Prop} {h : ∀ c, Prog B E (A c)} (hh : ∀ c, Avoids P (h c))
    (p : Prog A E α) : Avoids P (p.interpret h) := by
  induction p with
  | done result => exact avoids_done _
  | call c next ih => exact (hh c).attempt.bind ih

end Interpret

end Prog

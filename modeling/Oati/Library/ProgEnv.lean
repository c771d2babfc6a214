import Oati.Library.ProgState

/-!
# Programs in an environment

An environment says which answers each call may get. What a program returns in an environment, and
which calls it makes there, is established call by call, with one rule for each way to compose.

* `Ensures env p Φ`: in the environment, `p` returns a value with the property `Φ`.
* `Invokes env K p`: in the environment, `p` makes a call of the kind `K`.
* `EnsuresWith`, `InvokesWith`: the same of a program whose calls are implemented from a state on,
  where the environment answers the calls of the implementations.
* `exists_run`: in an environment with an answer to every call, every program has a run.
-/

namespace Prog

variable {C D S : Type} {A : C → Type} {B : D → Type} {E α β : Type}

/-- Every call of the trace is answered as the environment allows. -/
def Within (env : ∀ c, Except E (A c) → Prop) (trace : List (Event A E)) : Prop :=
  ∀ event ∈ trace, env event.call event.answer

/-- In the environment, the program returns a value with the property. -/
def Ensures (env : ∀ c, Except E (A c) → Prop) (p : Prog A E α) (Φ : α → Prop) : Prop :=
  ∀ trace r, Run p trace r → Within env trace → ∃ a, r = .ok a ∧ Φ a

/-- In the environment, the program makes a call of the kind. -/
def Invokes (env : ∀ c, Except E (A c) → Prop) (K : C → Prop) (p : Prog A E α) : Prop :=
  ∀ trace r, Run p trace r → Within env trace → ∃ event ∈ trace, K event.call

section Plain

variable {env : ∀ c, Except E (A c) → Prop} {K : C → Prop} {Φ : α → Prop} {Ψ : β → Prop}

theorem within_append {t u : List (Event A E)} :
    Within env (t ++ u) ↔ Within env t ∧ Within env u := by
  simp only [Within, List.forall_mem_append]

theorem Within.mono {t u : List (Event A E)} (h : Within env u) (hsub : t ⊆ u) : Within env t :=
  fun event hevent => h event (hsub hevent)

theorem ensures_pure {a : α} (h : Φ a) : Ensures env (pure a : Prog A E α) Φ := by
  intro trace r hrun _
  obtain ⟨-, rfl⟩ := run_pure_iff.mp hrun
  exact ⟨a, rfl, h⟩

theorem ensures_ofExcept {result : Except E α} {a : α} (hresult : result = .ok a) (h : Φ a) :
    Ensures env (ofExcept result : Prog A E α) Φ := by
  intro trace r hrun _
  obtain ⟨-, rfl⟩ := run_ofExcept_iff.mp hrun
  exact ⟨a, hresult, h⟩

theorem ensures_perform {c : C} {Φ : A c → Prop} (h : ∀ r, env c r → ∃ a, r = .ok a ∧ Φ a) :
    Ensures env (perform c : Prog A E (A c)) Φ := by
  intro trace r hrun hwithin
  obtain rfl := run_perform_iff.mp hrun
  exact h r (hwithin _ (List.mem_singleton_self _))

theorem Ensures.bind {p : Prog A E α} {f : α → Prog A E β} (hp : Ensures env p Φ)
    (hf : ∀ a, Φ a → Ensures env (f a) Ψ) : Ensures env (p >>= f) Ψ := by
  intro trace r hrun hwithin
  rcases run_bind_iff.mp hrun with ⟨e, he, -⟩ | ⟨a, t, u, rfl, ht, hu⟩
  · obtain ⟨a, ha, -⟩ := hp _ _ he hwithin
    cases ha
  · obtain ⟨hfirst, hsecond⟩ := within_append.mp hwithin
    obtain ⟨a', ha', hΦ⟩ := hp _ _ ht hfirst
    cases ha'
    exact hf a hΦ _ _ hu hsecond

theorem Ensures.mono {Φ' : α → Prop} {p : Prog A E α} (hp : Ensures env p Φ)
    (h : ∀ a, Φ a → Φ' a) : Ensures env p Φ' := by
  intro trace r hrun hwithin
  obtain ⟨a, ha, hΦ⟩ := hp trace r hrun hwithin
  exact ⟨a, ha, h a hΦ⟩

/-- A larger environment ensures less. -/
theorem Ensures.anti {env' : ∀ c, Except E (A c) → Prop} {p : Prog A E α}
    (hp : Ensures env p Φ) (h : ∀ c r, env' c r → env c r) : Ensures env' p Φ :=
  fun trace r hrun hwithin => hp trace r hrun fun event hevent => h _ _ (hwithin event hevent)

theorem invokes_perform {c : C} (h : K c) : Invokes env K (perform c : Prog A E (A c)) := by
  intro trace r hrun _
  obtain rfl := run_perform_iff.mp hrun
  exact ⟨_, List.mem_singleton_self _, h⟩

theorem Invokes.attempt {p : Prog A E α} (hp : Invokes env K p) : Invokes env K p.attempt := by
  intro trace r hrun hwithin
  obtain ⟨r', hr', -⟩ := run_attempt_iff.mp hrun
  exact hp trace r' hr' hwithin

theorem Invokes.bind {p : Prog A E α} {f : α → Prog A E β} (hp : Invokes env K p) :
    Invokes env K (p >>= f) := by
  intro trace r hrun hwithin
  rcases run_bind_iff.mp hrun with ⟨e, he, -⟩ | ⟨a, t, u, rfl, ht, -⟩
  · exact hp _ _ he hwithin
  · obtain ⟨event, hevent, hK⟩ := hp _ _ ht (within_append.mp hwithin).1
    exact ⟨event, List.mem_append_left _ hevent, hK⟩

theorem Ensures.bind_invokes {p : Prog A E α} {f : α → Prog A E β} (hp : Ensures env p Φ)
    (hf : ∀ a, Φ a → Invokes env K (f a)) : Invokes env K (p >>= f) := by
  intro trace r hrun hwithin
  rcases run_bind_iff.mp hrun with ⟨e, he, -⟩ | ⟨a, t, u, rfl, ht, hu⟩
  · obtain ⟨a, ha, -⟩ := hp _ _ he hwithin
    cases ha
  · obtain ⟨hfirst, hsecond⟩ := within_append.mp hwithin
    obtain ⟨a', ha', hΦ⟩ := hp _ _ ht hfirst
    cases ha'
    obtain ⟨event, hevent, hK⟩ := hf a hΦ _ _ hu hsecond
    exact ⟨event, List.mem_append_right _ hevent, hK⟩

/-! ### Runs -/

/-- Every program has a run in an environment that answers every call. -/
theorem exists_run (hanswers : ∀ c, ∃ r, env c r) (p : Prog A E α) :
    ∃ trace r, Run p trace r ∧ Within env trace := by
  induction p with
  | done result =>
    exact ⟨[], result, run_done_iff.mpr ⟨rfl, rfl⟩, fun event hevent => absurd hevent List.not_mem_nil⟩
  | call c next ih =>
    obtain ⟨answer, hanswer⟩ := hanswers c
    obtain ⟨trace, r, hrun, hwithin⟩ := ih answer
    exact ⟨⟨c, answer⟩ :: trace, r, .step hrun, List.forall_mem_cons.mpr ⟨hanswer, hwithin⟩⟩

/-- An environment with at most one answer to each call leaves a program one run. -/
theorem Run.unique (hsingle : ∀ c r r', env c r → env c r' → r = r') {p : Prog A E α}
    {t t' : List (Event A E)} {r r' : Except E α} (hrun : Run p t r) (hwithin : Within env t)
    (hrun' : Run p t' r') (hwithin' : Within env t') : t = t' ∧ r = r' := by
  induction p generalizing t t' with
  | done result =>
    obtain ⟨rfl, rfl⟩ := run_done_iff.mp hrun
    obtain ⟨rfl, rfl⟩ := run_done_iff.mp hrun'
    exact ⟨rfl, rfl⟩
  | call c next ih =>
    obtain ⟨answer, rest, rfl, hrest⟩ := run_call_iff.mp hrun
    obtain ⟨answer', rest', rfl, hrest'⟩ := run_call_iff.mp hrun'
    obtain ⟨hanswer, hwithin⟩ := List.forall_mem_cons.mp hwithin
    obtain ⟨hanswer', htail⟩ := List.forall_mem_cons.mp hwithin'
    obtain rfl := hsingle c answer answer' hanswer hanswer'
    obtain ⟨rfl, rfl⟩ := ih answer hrest hwithin hrest' htail
    exact ⟨rfl, rfl⟩

end Plain

/-! ### Implementations -/

section Interpret

variable {env : ∀ c, Except E (A c) → Prop} {env' : ∀ d, Except E (B d) → Prop} {Φ : α → Prop}

/-- What is ensured whatever the implementations return. -/
theorem Ensures.interpret {h : ∀ c, Prog B E (A c)} {p : Prog A E α} (hp : Ensures env p Φ)
    (hh : ∀ c v r, Run (h c) v r → Within env' v → env c r) : Ensures env' (p.interpret h) Φ := by
  intro trace r hrun hwithin
  obtain ⟨t, ht, himplements⟩ := run_interpret_iff.mp hrun
  refine hp t r ht fun event hevent => ?_
  obtain ⟨v, hv, hcall⟩ := himplements.run_of_mem hevent
  exact hh _ v _ hcall (hwithin.mono hv)

end Interpret

section State

variable (h : S → ∀ c, Prog B E (A c × S)) (env : ∀ d, Except E (B d) → Prop)

/-- In the environment, the program implemented from the state `s` on returns a value with which
the state it leaves has the property. -/
def EnsuresWith (s : S) (p : Prog A E α) (Φ : α → S → Prop) : Prop :=
  ∀ t r u s', Run p t r → ImplementsWith h s t u s' → Within env u → ∃ a, r = .ok a ∧ Φ a s'

/-- In the environment, the program implemented from the state `s` on makes a call of the kind. -/
def InvokesWith (K : C → Prop) (s : S) (p : Prog A E α) : Prop :=
  ∀ t r u s', Run p t r → ImplementsWith h s t u s' → Within env u → ∃ event ∈ t, K event.call

variable {h env} {K : C → Prop} {s : S} {Φ : α → S → Prop} {Ψ : β → S → Prop}

theorem ensuresWith_ofExcept {result : Except E α} {a : α} (hresult : result = .ok a)
    (ha : Φ a s) : EnsuresWith h env s (ofExcept result : Prog A E α) Φ := by
  intro t r u s' hrun himplements _
  obtain ⟨rfl, rfl⟩ := run_ofExcept_iff.mp hrun
  cases himplements
  exact ⟨a, hresult, ha⟩

theorem ensuresWith_perform {c : C} {Φ : A c → S → Prop}
    (hc : Ensures env (h s c) fun o => Φ o.1 o.2) :
    EnsuresWith h env s (perform c : Prog A E (A c)) Φ := by
  intro t r u s' hrun himplements hwithin
  obtain rfl := run_perform_iff.mp hrun
  cases himplements with
  | ok hcall hrest =>
    obtain ⟨o, ho, hΦ⟩ := hc _ _ hcall (within_append.mp hwithin).1
    cases ho
    cases hrest
    exact ⟨_, rfl, hΦ⟩
  | error hcall hrest =>
    obtain ⟨o, ho, -⟩ := hc _ _ hcall (within_append.mp hwithin).1
    cases ho

theorem EnsuresWith.bind {p : Prog A E α} {f : α → Prog A E β} (hp : EnsuresWith h env s p Φ)
    (hf : ∀ a s', Φ a s' → EnsuresWith h env s' (f a) Ψ) : EnsuresWith h env s (p >>= f) Ψ := by
  intro t r u s' hrun himplements hwithin
  rcases run_bind_iff.mp hrun with ⟨e, he, -⟩ | ⟨a, t₁, t₂, rfl, ht₁, ht₂⟩
  · obtain ⟨a, ha, -⟩ := hp _ _ _ _ he himplements hwithin
    cases ha
  · obtain ⟨u₁, u₂, s₁, rfl, hfirst, hsecond⟩ := implementsWith_append_iff.mp himplements
    obtain ⟨hwithin₁, hwithin₂⟩ := within_append.mp hwithin
    obtain ⟨a', ha', hΦ⟩ := hp _ _ _ _ ht₁ hfirst hwithin₁
    cases ha'
    exact hf a s₁ hΦ _ _ _ _ ht₂ hsecond hwithin₂

theorem EnsuresWith.attempt {p : Prog A E α} (hp : EnsuresWith h env s p Φ) :
    EnsuresWith h env s p.attempt fun o s' => ∃ a, o = .ok a ∧ Φ a s' := by
  intro t r u s' hrun himplements hwithin
  obtain ⟨r', hr', rfl⟩ := run_attempt_iff.mp hrun
  exact ⟨r', rfl, hp t r' u s' hr' himplements hwithin⟩

/-- A program all of whose implementations keep the state is one in the environment of their
answers. -/
theorem Ensures.ensuresWith {env' : ∀ c, Except E (A c) → Prop} {p : Prog A E α} {Φ : α → Prop}
    (hp : Ensures env' p Φ) (havoids : Avoids (fun c => ¬ K c) p)
    (hh : ∀ c, K c → ∀ v o, Run (h s c) v o → Within env v →
      (∀ a s', o = .ok (a, s') → s' = s) ∧ env' c (o.map Prod.fst)) :
    EnsuresWith h env s p fun a s' => Φ a ∧ s' = s := by
  intro t r u s' hrun himplements hwithin
  have hkinds : ∀ event ∈ t, K event.call := fun event hevent =>
    not_not.mp fun hnot => havoids.not_answered hrun hnot event.answer hevent
  have hkept : s' = s ∧ Within env' t := by
    clear hp havoids hrun
    induction himplements with
    | nil => exact ⟨rfl, fun event hevent => absurd hevent List.not_mem_nil⟩
    | ok hcall _ ih =>
      obtain ⟨hkind, hrest⟩ := List.forall_mem_cons.mp hkinds
      obtain ⟨hwithin₁, hwithin₂⟩ := within_append.mp hwithin
      obtain ⟨hstate, hanswer⟩ := hh _ hkind _ _ hcall hwithin₁
      obtain rfl := hstate _ _ rfl
      obtain ⟨rfl, hall⟩ := ih hh hwithin₂ hrest
      exact ⟨rfl, List.forall_mem_cons.mpr ⟨hanswer, hall⟩⟩
    | error hcall _ ih =>
      obtain ⟨hkind, hrest⟩ := List.forall_mem_cons.mp hkinds
      obtain ⟨hwithin₁, hwithin₂⟩ := within_append.mp hwithin
      obtain ⟨rfl, hall⟩ := ih hh hwithin₂ hrest
      exact ⟨rfl, List.forall_mem_cons.mpr ⟨(hh _ hkind _ _ hcall hwithin₁).2, hall⟩⟩
  obtain ⟨a, ha, hΦ⟩ := hp t r hrun hkept.2
  exact ⟨a, ha, hΦ, hkept.1⟩

theorem invokesWith_perform {c : C} (hc : K c) :
    InvokesWith h env K s (perform c : Prog A E (A c)) := by
  intro t r u s' hrun _ _
  obtain rfl := run_perform_iff.mp hrun
  exact ⟨_, List.mem_singleton_self _, hc⟩

theorem InvokesWith.attempt {p : Prog A E α} (hp : InvokesWith h env K s p) :
    InvokesWith h env K s p.attempt := by
  intro t r u s' hrun himplements hwithin
  obtain ⟨r', hr', -⟩ := run_attempt_iff.mp hrun
  exact hp t r' u s' hr' himplements hwithin

theorem InvokesWith.bind {p : Prog A E α} {f : α → Prog A E β} (hp : InvokesWith h env K s p) :
    InvokesWith h env K s (p >>= f) := by
  intro t r u s' hrun himplements hwithin
  rcases run_bind_iff.mp hrun with ⟨e, he, -⟩ | ⟨a, t₁, t₂, rfl, ht₁, -⟩
  · exact hp _ _ _ _ he himplements hwithin
  · obtain ⟨u₁, u₂, s₁, rfl, hfirst, -⟩ := implementsWith_append_iff.mp himplements
    obtain ⟨event, hevent, hK⟩ := hp _ _ _ _ ht₁ hfirst (within_append.mp hwithin).1
    exact ⟨event, List.mem_append_left _ hevent, hK⟩

theorem EnsuresWith.bind_invokes {p : Prog A E α} {f : α → Prog A E β}
    (hp : EnsuresWith h env s p Φ) (hf : ∀ a s', Φ a s' → InvokesWith h env K s' (f a)) :
    InvokesWith h env K s (p >>= f) := by
  intro t r u s' hrun himplements hwithin
  rcases run_bind_iff.mp hrun with ⟨e, he, -⟩ | ⟨a, t₁, t₂, rfl, ht₁, ht₂⟩
  · obtain ⟨a, ha, -⟩ := hp _ _ _ _ he himplements hwithin
    cases ha
  · obtain ⟨u₁, u₂, s₁, rfl, hfirst, hsecond⟩ := implementsWith_append_iff.mp himplements
    obtain ⟨hwithin₁, hwithin₂⟩ := within_append.mp hwithin
    obtain ⟨a', ha', hΦ⟩ := hp _ _ _ _ ht₁ hfirst hwithin₁
    cases ha'
    obtain ⟨event, hevent, hK⟩ := hf a s₁ hΦ _ _ _ _ ht₂ hsecond hwithin₂
    exact ⟨event, List.mem_append_right _ hevent, hK⟩

/-- A call of the program is one of the interpreted program, if its implementations make it. -/
theorem InvokesWith.interpretWith {L : D → Prop} {p : Prog A E α} (hp : InvokesWith h env K s p)
    (hh : ∀ s c, K c → Invokes env L (h s c)) : Invokes env L (p.interpretWith h s) := by
  intro trace r hrun hwithin
  obtain ⟨t, s', ht, himplements⟩ := run_interpretWith_iff.mp hrun
  obtain ⟨event, hevent, hK⟩ := hp t r trace s' ht himplements hwithin
  clear ht hp hrun
  induction himplements with
  | nil => exact absurd hevent List.not_mem_nil
  | ok hcall _ ih =>
    obtain ⟨hwithin₁, hwithin₂⟩ := within_append.mp hwithin
    rcases List.mem_cons.mp hevent with rfl | hrest
    · obtain ⟨made, hmade, hL⟩ := hh _ _ hK _ _ hcall hwithin₁
      exact ⟨made, List.mem_append_left _ hmade, hL⟩
    · obtain ⟨made, hmade, hL⟩ := ih hwithin₂ hrest
      exact ⟨made, List.mem_append_right _ hmade, hL⟩
  | error hcall _ ih =>
    obtain ⟨hwithin₁, hwithin₂⟩ := within_append.mp hwithin
    rcases List.mem_cons.mp hevent with rfl | hrest
    · obtain ⟨made, hmade, hL⟩ := hh _ _ hK _ _ hcall hwithin₁
      exact ⟨made, List.mem_append_left _ hmade, hL⟩
    · obtain ⟨made, hmade, hL⟩ := ih hwithin₂ hrest
      exact ⟨made, List.mem_append_right _ hmade, hL⟩

end State

end Prog

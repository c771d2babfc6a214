import Oati.Library.ProgEnv

/-!
# Contracts of programs

What a program may do after the calls it has made: which call it may make next, and with what it
may be done. A contract is kept in an environment, whatever that answers.

* `Contract env Φ Ψ past p`: after the calls of `past`, each call `c` that `p` makes satisfies `Φ`
  of the calls before it, and a result satisfies `Ψ` of all of them.
* `contract_perform`, `Contract.bind`, `Contract.attempt_bind`, …: one rule for each way to build
  a program.
* `Contract.calls`, `Contract.result`: what a contract says of an execution.
-/

namespace Prog

variable {C : Type} {A : C → Type} {E α β : Type}

/-- After the calls of `past`, the program makes calls that satisfy `Φ` and is done with a result
that satisfies `Ψ`. -/
def Contract (env : ∀ c, Except E (A c) → Prop) (Φ : List (Event A E) → C → Prop)
    (Ψ : List (Event A E) → Except E α → Prop) (past : List (Event A E)) : Prog A E α → Prop
  | done result => Ψ past result
  | call c next =>
    Φ past c ∧ ∀ answer, env c answer → Contract env Φ Ψ (past ++ [⟨c, answer⟩]) (next answer)

variable {env : ∀ c, Except E (A c) → Prop} {Φ : List (Event A E) → C → Prop}
  {Ψ Ψ' : List (Event A E) → Except E α → Prop} {past : List (Event A E)}

/-! ### Rules -/

theorem contract_pure {a : α} (h : Ψ past (.ok a)) :
    Contract env Φ Ψ past (pure a : Prog A E α) := h

theorem contract_throw {e : E} (h : Ψ past (.error e)) :
    Contract env Φ Ψ past (throw e : Prog A E α) := h

theorem contract_ofExcept {result : Except E α} (h : Ψ past result) :
    Contract env Φ Ψ past (ofExcept result : Prog A E α) := h

theorem contract_perform {c : C} {Ψ : List (Event A E) → Except E (A c) → Prop} (hc : Φ past c)
    (h : ∀ answer, env c answer → Ψ (past ++ [⟨c, answer⟩]) answer) :
    Contract env Φ Ψ past (perform c : Prog A E (A c)) := ⟨hc, h⟩

theorem Contract.mono {p : Prog A E α} (hp : Contract env Φ Ψ past p)
    (h : ∀ t r, Ψ t r → Ψ' t r) : Contract env Φ Ψ' past p := by
  induction p generalizing past with
  | done result => exact h _ _ hp
  | call c next ih => exact ⟨hp.1, fun answer henv => ih answer (hp.2 answer henv)⟩

theorem Contract.bind {p : Prog A E α} {f : α → Prog A E β}
    {Ψ' : List (Event A E) → Except E β → Prop} (hp : Contract env Φ Ψ past p)
    (hf : ∀ t a, Ψ t (.ok a) → Contract env Φ Ψ' t (f a))
    (herror : ∀ t e, Ψ t (.error e) → Ψ' t (.error e)) : Contract env Φ Ψ' past (p >>= f) := by
  induction p generalizing past with
  | done result =>
    cases result with
    | error e => exact herror _ _ hp
    | ok a => exact hf _ _ hp
  | call c next ih => exact ⟨hp.1, fun answer henv => ih answer (hp.2 answer henv)⟩

theorem Contract.attempt {p : Prog A E α} {Ψ : List (Event A E) → Except E (Except E α) → Prop}
    (hp : Contract env Φ (fun t r => Ψ t (.ok r)) past p) : Contract env Φ Ψ past p.attempt := by
  induction p generalizing past with
  | done result => exact hp
  | call c next ih => exact ⟨hp.1, fun answer henv => ih answer (hp.2 answer henv)⟩

/-- The calls of the past stay there. -/
theorem Contract.keeps_past {p : Prog A E α} (hp : Contract env Φ Ψ past p) :
    Contract env Φ (fun t r => past ⊆ t ∧ Ψ t r) past p := by
  have hkeeps : ∀ {t : List (Event A E)}, past ⊆ t →
      ∀ {p : Prog A E α}, Contract env Φ Ψ t p → Contract env Φ (fun t r => past ⊆ t ∧ Ψ t r) t p := by
    intro t ht p hp
    induction p generalizing t with
    | done result => exact ⟨ht, hp⟩
    | call c next ih =>
      refine ⟨hp.1, fun answer henv => ih answer ?_ (hp.2 answer henv)⟩
      exact List.subset_append_of_subset_left _ ht
  exact hkeeps (List.Subset.refl past) hp

/-- What follows a program whose outcome is inspected. -/
theorem Contract.attempt_bind {p : Prog A E α} {f : Except E α → Prog A E β}
    {Ψ' : List (Event A E) → Except E β → Prop} (hp : Contract env Φ Ψ past p)
    (hf : ∀ t r, Ψ t r → Contract env Φ Ψ' t (f r)) : Contract env Φ Ψ' past (p.attempt >>= f) := by
  refine Contract.bind (Ψ := fun t r => ∃ o, r = .ok o ∧ Ψ t o)
    (hp.mono fun t r h => ⟨r, rfl, h⟩).attempt ?_ ?_
  · rintro t r ⟨o, ho, h⟩
    obtain rfl := Except.ok.inj ho
    exact hf t r h
  · rintro t e ⟨o, ho, -⟩
    cases ho

/-- What follows a call. -/
theorem contract_perform_bind {c : C} {f : A c → Prog A E β}
    {Ψ : List (Event A E) → Except E β → Prop} (hc : Φ past c)
    (hf : ∀ a, env c (.ok a) → Contract env Φ Ψ (past ++ [⟨c, .ok a⟩]) (f a))
    (herror : ∀ e, env c (.error e) → Ψ (past ++ [⟨c, .error e⟩]) (.error e)) :
    Contract env Φ Ψ past ((perform c : Prog A E (A c)) >>= f) :=
  ⟨hc, fun answer henv => match answer, henv with
    | .ok a, henv => hf a henv
    | .error e, henv => herror e henv⟩

/-! ### Executions -/

variable {p q : Prog A E α} {trace : List (Event A E)}

/-- Every call of an execution satisfies the contract. -/
theorem Contract.calls (hp : Contract env Φ Ψ past p) (h : Steps p trace q)
    (hwithin : Within env trace) {t u : List (Event A E)} {event : Event A E}
    (htrace : trace = t ++ event :: u) : Φ (past ++ t) event.call := by
  induction h generalizing past t with
  | refl => cases (List.append_eq_nil_iff.mp htrace.symm).2
  | @step c next answer rest q _ ih =>
    cases t with
    | nil =>
      obtain ⟨rfl, -⟩ := List.cons.inj htrace
      rw [List.append_nil]
      exact hp.1
    | cons first t =>
      obtain ⟨rfl, hrest⟩ := List.cons.inj htrace
      obtain ⟨hfirst, hwithin⟩ := List.forall_mem_cons.mp hwithin
      have hcall := ih (hp.2 answer hfirst) hwithin hrest
      rwa [List.append_assoc] at hcall

/-- The call that an execution has got to satisfies the contract. -/
theorem Contract.next (hp : Contract env Φ Ψ past p) {c : C} {next : Except E (A c) → Prog A E α}
    (h : Steps p trace (call c next)) (hwithin : Within env trace) : Φ (past ++ trace) c := by
  generalize hq : call c next = q at h
  induction h generalizing past with
  | refl =>
    subst hq
    rw [List.append_nil]
    exact hp.1
  | @step c next answer rest q _ ih =>
    obtain ⟨hfirst, hwithin⟩ := List.forall_mem_cons.mp hwithin
    have hcall := ih (hp.2 answer hfirst) hwithin hq
    rwa [List.append_assoc] at hcall

/-- The result of a run satisfies the contract. -/
theorem Contract.result (hp : Contract env Φ Ψ past p) {r : Except E α} (h : Run p trace r)
    (hwithin : Within env trace) : Ψ (past ++ trace) r := by
  rw [Run] at h
  generalize hq : (done r : Prog A E α) = q at h
  induction h generalizing past with
  | refl =>
    subst hq
    rw [List.append_nil]
    exact hp
  | @step c next answer rest q _ ih =>
    obtain ⟨hfirst, hwithin⟩ := List.forall_mem_cons.mp hwithin
    have hresult := ih (hp.2 answer hfirst) hwithin hq
    rwa [List.append_assoc] at hresult

end Prog

import Oati.TypeScript.Budget

/-!
# The currency of the recorded amount

The usage has one amount and one currency. An allowed step adds its amount to the first and, if
it has a currency, writes it over the second; whether the two currencies agree is only checked
with a Commerce context, or under a budget with a currency.

* `OneCurrency`: the recorded amount is what the steps spent in the recorded currency.
* `KeepsCurrency`: the currencies of the usage and of a step agree, or one of the amounts is
  zero.
* `oneCurrency_step_iff`: a step keeps the invariant exactly if it keeps the currency.
* `oneCurrency_iff`: so does a run.
-/

namespace Oati.TypeScript

variable {engine : Engine}

/-- The currency of a step. -/
def stepCurrency (engine : Engine) (step : Step) : String :=
  (effectiveConsumption engine step.1).currency

/-- The amount that a step spends, as the rational it denotes. -/
def stepAmount (engine : Engine) (step : Step) : ℚ :=
  if step.2.decision = .allow then
    (decimalValue (effectiveConsumption engine step.1).amount).getD 0
  else 0

/-- What a step spends in a currency. -/
def stepAmountIn (engine : Engine) (currency : String) (step : Step) : ℚ :=
  if stepCurrency engine step = currency then stepAmount engine step else 0

/-- What the steps spend in a currency. -/
def amountIn (engine : Engine) (currency : String) (steps : List Step) : ℚ :=
  (steps.map (stepAmountIn engine currency)).sum

/-- The usage after some steps. -/
def usageAfter : UsageSnapshot → List Step → UsageSnapshot
  | usage, [] => usage
  | _, step :: rest => usageAfter step.2.nextUsage rest

/-- The recorded amount is what the steps spent in the recorded currency, and they spent nothing
in another one. -/
structure OneCurrency (engine : Engine) (steps : List Step) (usage : Usage) : Prop where
  amount : Denotes usage.amount (amountIn engine usage.currency steps)
  others : ∀ step ∈ steps, stepCurrency engine step ≠ usage.currency → stepAmount engine step = 0

/-- The step spends in the currency of the usage, or one of the amounts is zero. A step without
a currency keeps the one of the usage. -/
def KeepsCurrency (engine : Engine) (request : EvaluationRequest) : Prop :=
  let usage := normalizedUsage request.usage
  let delta := effectiveConsumption engine request
  if delta.currency = "" then usage.currency = "" ∨ Denotes delta.amount 0
  else delta.currency = usage.currency ∨ Denotes usage.amount 0

/-! ### Sums -/

theorem stepAmount_nonneg (step : Step) : 0 ≤ stepAmount engine step := by
  unfold stepAmount
  split_ifs
  · cases h : decimalValue (effectiveConsumption engine step.1).amount with
    | none => exact le_rfl
    | some d => exact (decimalValue_eq_some_iff.mp h).nonneg
  · exact le_rfl

theorem stepAmountIn_nonneg (currency : String) (step : Step) :
    0 ≤ stepAmountIn engine currency step := by
  unfold stepAmountIn
  split_ifs
  · exact stepAmount_nonneg step
  · exact le_rfl

theorem amountIn_append (currency : String) (steps : List Step) (step : Step) :
    amountIn engine currency (steps ++ [step])
      = amountIn engine currency steps + stepAmountIn engine currency step := by
  simp [amountIn]

/-- Nothing is spent in a currency exactly if each step in it spends nothing. -/
theorem amountIn_eq_zero_iff {currency : String} {steps : List Step} :
    amountIn engine currency steps = 0 ↔
      ∀ step ∈ steps, stepCurrency engine step = currency → stepAmount engine step = 0 := by
  constructor
  · intro hsum step hstep hcurrency
    have hzero : stepAmountIn engine currency step = 0 := by
      refine List.all_zero_of_le_zero_le_of_sum_eq_zero ?_ hsum (List.mem_map_of_mem hstep)
      intro x hx
      obtain ⟨other, -, rfl⟩ := List.mem_map.mp hx
      exact stepAmountIn_nonneg currency other
    rwa [stepAmountIn, if_pos hcurrency] at hzero
  · intro hall
    refine List.sum_eq_zero fun x hx => ?_
    obtain ⟨step, hstep, rfl⟩ := List.mem_map.mp hx
    unfold stepAmountIn
    split_ifs with hcurrency
    · exact hall step hstep hcurrency
    · rfl

/-! ### One step -/

/-- A denied step spends nothing. -/
theorem stepAmount_of_deny {step : Step} (h : step.2.decision = .deny) :
    stepAmount engine step = 0 := by
  simp [stepAmount, h]

/-- After steps in one currency, an allowed step leaves it at that exactly if it keeps the
currency. The recorded currency changes only when the step has another one; then what was
recorded before must be zero. -/
theorem oneCurrency_effect_iff {steps : List Step} {request : EvaluationRequest}
    {result : EvaluationResult} {next : Usage}
    (hone : OneCurrency engine steps (normalizedUsage request.usage))
    (hallow : result.decision = .allow) (hn : nextUsage engine request .allow = .ok next) :
    OneCurrency engine (steps ++ [(request, result)]) next ↔ KeepsCurrency engine request := by
  obtain ⟨hsum, hothers⟩ := hone
  have heffect := effect_of_nextUsage hn
  obtain ⟨a, d, ha, hd, had⟩ := heffect.amount
  have hspent : stepAmount engine (request, result) = d := by
    simp [stepAmount, hallow, decimalValue_eq_some_iff.mpr hd]
  have hrecorded : a = amountIn engine (normalizedUsage request.usage).currency steps :=
    ha.unique hsum
  have hcurrency := heffect.currency
  have hzero : Denotes (effectiveConsumption engine request).amount 0 ↔ d = 0 :=
    ⟨fun h => hd.unique h, fun h => h ▸ hd⟩
  have hzero' : Denotes (normalizedUsage request.usage).amount 0 ↔ a = 0 :=
    ⟨fun h => ha.unique h, fun h => h ▸ ha⟩
  unfold KeepsCurrency
  dsimp only
  rw [hzero, hzero']
  have hstep : ∀ currency, stepAmountIn engine currency (request, result)
      = if (effectiveConsumption engine request).currency = currency then d else 0 := by
    intro currency
    rw [stepAmountIn, hspent]
    rfl
  constructor
  · rintro ⟨-, hothers'⟩
    split_ifs with hempty
    · rw [if_pos hempty] at hcurrency
      by_cases hcur : (normalizedUsage request.usage).currency = ""
      · exact .inl hcur
      · refine .inr (hspent ▸ hothers' _ (by simp) ?_)
        rw [hcurrency]
        change (effectiveConsumption engine request).currency ≠ _
        rw [hempty]
        exact Ne.symm hcur
    · rw [if_neg hempty] at hcurrency
      by_cases hcur : (effectiveConsumption engine request).currency
          = (normalizedUsage request.usage).currency
      · exact .inl hcur
      · refine .inr (hrecorded.trans (amountIn_eq_zero_iff.mpr fun step hmem hstepCurrency => ?_))
        refine hothers' step (List.mem_append_left _ hmem) ?_
        rw [hcurrency, hstepCurrency]
        exact Ne.symm hcur
  · intro hkeeps
    -- whichever currency is recorded, the earlier steps spent `a` in it and nothing in others
    suffices hbefore : amountIn engine next.currency steps = a ∧
        (∀ step ∈ steps, stepCurrency engine step ≠ next.currency →
          stepAmount engine step = 0) ∧
        ((effectiveConsumption engine request).currency = next.currency ∨ d = 0) by
      obtain ⟨hbeforeSum, hbeforeOthers, hagrees⟩ := hbefore
      refine ⟨?_, ?_⟩
      · rw [amountIn_append, hbeforeSum, hstep]
        split_ifs with hsame
        · exact had
        · rwa [hagrees.resolve_left hsame] at had
      · intro step hmem hdiffers
        rcases List.mem_append.mp hmem with hold | hnew
        · exact hbeforeOthers step hold hdiffers
        · obtain rfl := List.mem_singleton.mp hnew
          rw [hspent]
          exact hagrees.resolve_left hdiffers
    split_ifs at hkeeps with hempty
    · rw [if_pos hempty] at hcurrency
      rw [hcurrency, hempty]
      exact ⟨hrecorded.symm, hothers, hkeeps.imp Eq.symm id⟩
    · rw [if_neg hempty] at hcurrency
      rw [hcurrency]
      rcases hkeeps with hsame | hnone
      · rw [hsame]
        exact ⟨hrecorded.symm, hothers, .inl rfl⟩
      · have hall : ∀ step ∈ steps, stepAmount engine step = 0 := by
          intro step hmem
          by_cases hcur : stepCurrency engine step = (normalizedUsage request.usage).currency
          · exact amountIn_eq_zero_iff.mp (hrecorded.symm.trans hnone) step hmem hcur
          · exact hothers step hmem hcur
        refine ⟨?_, fun step hmem _ => hall step hmem, .inl rfl⟩
        rw [hnone]
        exact amountIn_eq_zero_iff.mpr fun step hmem _ => hall step hmem

theorem normalizedUsage_toSnapshot_currency (usage : Usage) :
    (normalizedUsage usage.toSnapshot).currency = usage.currency := rfl

/-- The invariant reads only the amount and the currency of the usage. -/
theorem oneCurrency_congr {steps : List Step} {usage other : Usage}
    (hamount : usage.amount = other.amount) (hcurrency : usage.currency = other.currency) :
    OneCurrency engine steps usage ↔ OneCurrency engine steps other := by
  constructor
  · rintro ⟨h, h'⟩
    exact ⟨by rwa [← hamount, ← hcurrency], by rwa [← hcurrency]⟩
  · rintro ⟨h, h'⟩
    exact ⟨by rwa [hamount, hcurrency], by rwa [hcurrency]⟩

/-- A step of a run keeps the invariant exactly if it is denied or keeps the currency. -/
theorem oneCurrency_step_iff {steps : List Step} {request : EvaluationRequest}
    {result : EvaluationResult} (heval : evaluateAuthority engine request = .ok result)
    (hone : OneCurrency engine steps (normalizedUsage request.usage)) :
    OneCurrency engine (steps ++ [(request, result)]) (normalizedUsage result.nextUsage) ↔
      (result.decision = .allow → KeepsCurrency engine request) := by
  rcases evaluateAuthority_cases heval with ⟨hdeny, hnext⟩ | ⟨hallow, -, next, hn, hnext⟩
  · have hspent : stepAmount engine (request, result) = 0 := stepAmount_of_deny hdeny
    have hstep : ∀ currency, stepAmountIn engine currency (request, result) = 0 := by
      intro currency
      rw [stepAmountIn, hspent, ite_self]
    rw [hnext, oneCurrency_congr (normalizedUsage_toSnapshot_amount _)
      (normalizedUsage_toSnapshot_currency _)]
    refine iff_of_true ⟨?_, ?_⟩ (by simp [hdeny])
    · rw [amountIn_append, hstep, add_zero]
      exact hone.amount
    · intro step hmem hdiffers
      rcases List.mem_append.mp hmem with hold | hnew
      · exact hone.others step hold hdiffers
      · obtain rfl := List.mem_singleton.mp hnew
        exact hspent
  · rw [hnext, oneCurrency_congr (normalizedUsage_toSnapshot_amount _)
      (normalizedUsage_toSnapshot_currency _), oneCurrency_effect_iff hone hallow hn]
    simp [hallow]

/-! ### Runs -/

/-- The invariant holds in every state of a run exactly if each allowed step keeps the currency.
Induction on the steps still to come, with those already done as the parameter. -/
theorem oneCurrency_run_iff {mandate : AgentMandate} {usage : UsageSnapshot}
    {done steps : List Step} (hrun : IsRun engine mandate usage steps)
    (hone : OneCurrency engine done (normalizedUsage usage)) :
    (∀ before after, steps = before ++ after →
      OneCurrency engine (done ++ before) (normalizedUsage (usageAfter usage before))) ↔
    ∀ step ∈ steps, step.2.decision = .allow → KeepsCurrency engine step.1 := by
  induction steps generalizing usage done with
  | nil =>
    refine iff_of_true (fun before after h => ?_) (by simp)
    obtain ⟨rfl, -⟩ := List.append_eq_nil_iff.mp h.symm
    rwa [List.append_nil]
  | cons step rest ih =>
    obtain ⟨request, result⟩ := step
    obtain ⟨-, rfl, heval, hrest⟩ := hrun
    have hstep := oneCurrency_step_iff heval hone
    rw [List.forall_mem_cons]
    constructor
    · intro hall
      have hafter : OneCurrency engine (done ++ [(request, result)])
          (normalizedUsage result.nextUsage) := hall [(request, result)] rest rfl
      refine ⟨hstep.mp hafter, (ih hrest hafter).mp fun before after h => ?_⟩
      rw [List.append_assoc]
      exact hall ((request, result) :: before) after (congrArg _ h)
    · rintro ⟨hkeeps, hkeepsRest⟩ before after h
      have hafter := hstep.mpr hkeeps
      cases before with
      | nil => rwa [List.append_nil]
      | cons head tail =>
        obtain ⟨rfl, htail⟩ := List.cons_eq_cons.mp h
        have htailOne := (ih hrest hafter).mpr hkeepsRest tail after htail
        rwa [List.append_assoc] at htailOne

/-- In a run from no usage, the recorded amount is always what the allowed steps spent in the
recorded currency, and they spent nothing in another one, exactly if each allowed step keeps the
currency. -/
theorem oneCurrency_iff {mandate : AgentMandate} {steps : List Step}
    (hrun : IsRun engine mandate {} steps) :
    (∀ before after, steps = before ++ after →
      OneCurrency engine before (normalizedUsage (usageAfter {} before))) ↔
    ∀ step ∈ steps, step.2.decision = .allow → KeepsCurrency engine step.1 :=
  have hstart : OneCurrency engine [] (normalizedUsage {}) := ⟨denotes_zero, by simp⟩
  oneCurrency_run_iff hrun hstart

/-- Five units of a currency, without a quote. -/
def spendFive (currency : String) : EvaluationRequest :=
  { brokerOrder with
    commerce := none
    consumption := some { amount := some "5", currency := some currency } }

/-- The answer to the spending, with the usage it leaves. -/
def spendResult (calls : ℕ) (amount currency : String) : EvaluationResult :=
  { orderResult with
    nextUsage :=
      { calls := some calls, amount := some amount, currency := some currency
        quantity := some "0", consumed := some false, idempotencyKeys := some []
        mintedSupply := some "0" } }

/-- Five euros, and then five units of another currency. -/
def spendTwice (currency : String) : List Step :=
  [(spendFive "EUR", spendResult 1 "5" "EUR"),
    ({ spendFive currency with usage := (spendResult 1 "5" "EUR").nextUsage },
      spendResult 2 "10" currency)]

theorem oneCurrency_iff_spendTwice :
    (∀ before after, spendTwice "EUR" = before ++ after →
      OneCurrency plainEngine before (normalizedUsage (usageAfter {} before))) ↔
    ∀ step ∈ spendTwice "EUR", step.2.decision = .allow → KeepsCurrency plainEngine step.1 :=
  have hrun : IsRun plainEngine brokerMandate {} (spendTwice "EUR") :=
    ⟨rfl, rfl, by decide +kernel, rfl, rfl, by decide +kernel, trivial⟩
  oneCurrency_iff hrun

/-- Five euros and five dollars are recorded as ten dollars. -/
theorem spendTwice_mixes :
    IsRun plainEngine brokerMandate {} (spendTwice "USD") ∧
      ¬ OneCurrency plainEngine (spendTwice "USD")
        (normalizedUsage (usageAfter {} (spendTwice "USD"))) := by
  refine ⟨⟨rfl, rfl, by decide +kernel, rfl, rfl, by decide +kernel, trivial⟩, ?_⟩
  rintro ⟨-, hothers⟩
  have heuros := hothers (spendFive "EUR", spendResult 1 "5" "EUR") List.mem_cons_self (by decide)
  have hfive : stepAmount plainEngine (spendFive "EUR", spendResult 1 "5" "EUR") = 5 := by
    decide +kernel
  rw [hfive] at heuros
  norm_num at heuros

end Oati.TypeScript

import Oati.TypeScript.EvaluatorSpec

/-!
# Budgets over whole runs

A run is a sequence of evaluations under one mandate in which every request carries the usage
that the result before it returned. What the evaluator checks before a step and what it adds
after the step come from different places (the context, the supplied consumption, the signed
envelope); here the two are shown to agree, and the limits to hold of the sums over a run.

* `Effect`: what an allowed step does to the usage.
* `calls_add_callSum_le`, `commerceTotal_eq_zero_or_le`, `nodup_usedKeys`, `deny_of_consumed`:
  the invariants of a run from an arbitrary usage, by induction on the run.
* `budget_kept`: the accounting of a run that starts from no usage.
-/

namespace Oati.TypeScript

variable {engine : Engine}

/-! ### One step -/

@[simp] theorem normalizedUsage_toSnapshot_calls (usage : Usage) :
    (normalizedUsage usage.toSnapshot).calls = usage.calls := rfl

@[simp] theorem normalizedUsage_toSnapshot_amount (usage : Usage) :
    (normalizedUsage usage.toSnapshot).amount = usage.amount := rfl

@[simp] theorem normalizedUsage_toSnapshot_consumed (usage : Usage) :
    (normalizedUsage usage.toSnapshot).consumed = usage.consumed := rfl

@[simp] theorem mem_normalizedUsage_toSnapshot_keys {usage : Usage} {key : String} :
    key ∈ (normalizedUsage usage.toSnapshot).idempotencyKeys ↔ key ∈ usage.idempotencyKeys :=
  mem_sortStrings

/-- What an allowed step does to the usage. -/
structure Effect (usage : Usage) (delta : EffectiveConsumption) (next : Usage) : Prop where
  calls : next.calls = Double.roundNat (usage.calls + delta.calls)
  amount : ∃ a d, Denotes usage.amount a ∧ Denotes delta.amount d ∧ Denotes next.amount (a + d)
  currency : next.currency = if delta.currency = "" then usage.currency else delta.currency
  quantity : ∃ text q d, delta.quantity = .str text ∧ Denotes usage.quantity q ∧
    Denotes text d ∧ Denotes next.quantity (q + d)
  consumed : next.consumed = (usage.consumed || delta.consume)
  keys : next.idempotencyKeys = if delta.idempotencyKey = "" then usage.idempotencyKeys
    else sortStrings (usage.idempotencyKeys ++ [delta.idempotencyKey])

theorem effect_of_nextUsage {request : EvaluationRequest} {next : Usage}
    (h : nextUsage engine request .allow = .ok next) :
    Effect (normalizedUsage request.usage) (effectiveConsumption engine request) next := by
  obtain ⟨amount, text, quantity, minted, ha, ht, hq, -, rfl⟩ := applyConsumption_eq_ok.mp h
  obtain ⟨a, d, hua, hda, hsum⟩ := addDecimal_denotes ha
  obtain ⟨q, e, huq, hdq, hqsum⟩ := addDecimal_denotes hq
  exact ⟨rfl, ⟨a, d, hua, hda, hsum⟩, rfl, ⟨text, q, e, ht, huq, hdq, hqsum⟩, rfl, rfl⟩

/-- The recorded keys after a step: those before it, and its own. -/
theorem Effect.mem_keys {usage next : Usage} {delta : EffectiveConsumption}
    (h : Effect usage delta next) {key : String} :
    key ∈ next.idempotencyKeys ↔
      key ∈ usage.idempotencyKeys ∨ delta.idempotencyKey ≠ "" ∧ key = delta.idempotencyKey := by
  rw [h.keys]
  split_ifs with hkey
  · simp [hkey]
  · rw [mem_sortStrings, List.mem_append, List.mem_singleton]
    simp [hkey]

/-! ### Runs -/

/-- One evaluation of a run. -/
abbrev Step := EvaluationRequest × EvaluationResult

/-- The steps are evaluated under `mandate` one after the other, the first on `usage` and every
later one on the usage that the one before it returned. -/
def IsRun (engine : Engine) (mandate : AgentMandate) : UsageSnapshot → List Step → Prop
  | _, [] => True
  | usage, (request, result) :: rest =>
    request.mandate = mandate ∧ request.usage = usage ∧
      evaluateAuthority engine request = .ok result ∧ IsRun engine mandate result.nextUsage rest

/-- The calls a step adds. -/
def stepCalls (engine : Engine) (step : Step) : ℕ :=
  if step.2.decision = .allow then (effectiveConsumption engine step.1).calls else 0

/-- The Commerce total that a step spends, as the rational it denotes. -/
def stepTotal (step : Step) : ℚ :=
  if step.2.decision = .allow then
    ((step.1.commerce.map (·.totalAmount)).bind decimalValue).getD 0
  else 0

/-- The non-empty idempotency key that a step uses, if any. -/
def stepKeys (engine : Engine) (step : Step) : List String :=
  if step.2.decision = .allow ∧ (effectiveConsumption engine step.1).idempotencyKey ≠ "" then
    [(effectiveConsumption engine step.1).idempotencyKey]
  else []

/-- The calls over the allowed steps. -/
def callSum (engine : Engine) (steps : List Step) : ℕ := (steps.map (stepCalls engine)).sum

/-- The Commerce totals over the allowed steps. -/
def commerceTotal (steps : List Step) : ℚ := (steps.map stepTotal).sum

/-- The idempotency keys of the allowed steps. -/
def usedKeys (engine : Engine) (steps : List Step) : List String :=
  steps.flatMap (stepKeys engine)

/-- The calls of a run stay within a numeric `max_calls` that is a safe number. Induction on the
run: an allowed step checks the sum that it then records, and below the bound the sum is exact. -/
theorem calls_add_callSum_le {mandate : AgentMandate} {usage : UsageSnapshot} {steps : List Step}
    (hrun : IsRun engine mandate usage steps) {m : ℚ}
    (hmax : (mandate.limits.getD []).lookup "max_calls" = some (.num m))
    (hsafe : m ≤ Double.maxSafeInteger) (hstart : ((normalizedUsage usage).calls : ℚ) ≤ m) :
    (((normalizedUsage usage).calls + callSum engine steps : ℕ) : ℚ) ≤ m := by
  induction steps generalizing usage with
  | nil => simpa [callSum] using hstart
  | cons step rest ih =>
    obtain ⟨request, result⟩ := step
    obtain ⟨hmandate, rfl, heval, hrest⟩ := hrun
    have hsum : callSum engine ((request, result) :: rest)
        = stepCalls engine (request, result) + callSum engine rest := by
      simp [callSum]
    rw [hsum]
    rcases evaluateAuthority_cases heval with ⟨hdeny, hnext⟩ | ⟨hallow, ⟨now, hp⟩, next, hn, hnext⟩
    · have hrec := ih hrest (by rw [hnext]; exact hstart)
      rw [hnext] at hrec
      simpa [stepCalls, hdeny] using hrec
    · have heffect := effect_of_nextUsage hn
      have hchecked := hp.consumption.calls m (by rw [hmandate]; exact hmax)
      have hlt : Double.roundNat ((normalizedUsage request.usage).calls
          + (effectiveConsumption engine request).calls) ≤ Double.maxSafeInteger := by
        exact_mod_cast hchecked.trans hsafe
      have hexact := Double.roundNat_eq_of_lt (Nat.lt_of_le_of_lt hlt (by decide))
      rw [hexact] at hchecked
      have hcalls : (normalizedUsage result.nextUsage).calls = (normalizedUsage request.usage).calls
          + (effectiveConsumption engine request).calls := by
        rw [hnext, normalizedUsage_toSnapshot_calls, heffect.calls, hexact]
      have hrec := ih hrest (by rw [hcalls]; exact hchecked)
      rw [hcalls] at hrec
      have hstep : stepCalls engine (request, result)
          = (effectiveConsumption engine request).calls := by
        simp [stepCalls, hallow]
      rw [hstep, ← Nat.add_assoc]
      exact hrec

/-- Every step of a run is an evaluation under its mandate. -/
theorem IsRun.eval_of_mem {mandate : AgentMandate} {usage : UsageSnapshot} {steps : List Step}
    (hrun : IsRun engine mandate usage steps) {step : Step} (hstep : step ∈ steps) :
    step.1.mandate = mandate ∧ evaluateAuthority engine step.1 = .ok step.2 := by
  induction steps generalizing usage with
  | nil => simp at hstep
  | cons head rest ih =>
    obtain ⟨hmandate, -, heval, hrest⟩ := hrun
    rcases List.mem_cons.mp hstep with rfl | hmem
    · exact ⟨hmandate, heval⟩
    · exact ih hrest hmem

/-- What follows a step of a run is a run from the usage it returned. -/
theorem IsRun.of_append {mandate : AgentMandate} {usage : UsageSnapshot} {before after : List Step}
    {step : Step} (hrun : IsRun engine mandate usage (before ++ step :: after)) :
    IsRun engine mandate step.2.nextUsage after := by
  induction before generalizing usage with
  | nil => exact hrun.2.2.2
  | cons head rest ih => exact ih hrun.2.2.2

/-- The budget check of an allowed step with a Commerce context. -/
theorem budget_of_permits {request : EvaluationRequest} {now : ℤ}
    (hp : Permits engine request now) {context : CommerceEvaluationContext}
    (hcontext : request.commerce = some context) {terms : Record}
    (hterms : objectAt request.mandate.extensions "commerce" = some terms) :
    CommercePermits engine terms request.envelope context (normalizedUsage request.usage) := by
  have hneeds : needsCommerce request = true := by simp [needsCommerce, hcontext]
  obtain ⟨c, limits, hc, hlimits, hpermits⟩ := hp.commerce hneeds
  obtain rfl : context = c := by simpa [hcontext] using hc
  obtain rfl : terms = limits := by simpa [hterms] using hlimits
  exact hpermits

/-- The Commerce totals of a run, added to the amount it starts from, stay within `max_total`,
unless there are none. Induction on the run: an allowed step with a context checks the recorded
amount together with its total; other allowed steps only add to the recorded amount. -/
theorem commerceTotal_eq_zero_or_le {mandate : AgentMandate} {terms : Record}
    (hterms : objectAt mandate.extensions "commerce" = some terms) {usage : UsageSnapshot}
    {steps : List Step} (hrun : IsRun engine mandate usage steps) {a : ℚ}
    (ha : Denotes (normalizedUsage usage).amount a) :
    commerceTotal steps = 0 ∨
      ∃ m, Denotes (optionText engine (terms.lookup "max_total")) m ∧
        a + commerceTotal steps ≤ m := by
  induction steps generalizing usage a with
  | nil => exact .inl rfl
  | cons step rest ih =>
    obtain ⟨request, result⟩ := step
    obtain ⟨hmandate, rfl, heval, hrest⟩ := hrun
    have hsum : commerceTotal ((request, result) :: rest)
        = stepTotal (request, result) + commerceTotal rest := by
      simp [commerceTotal]
    rw [hsum]
    rcases evaluateAuthority_cases heval with ⟨hdeny, hnext⟩ | ⟨hallow, ⟨now, hp⟩, next, hn, hnext⟩
    · have hstep : stepTotal (request, result) = 0 := by simp [stepTotal, hdeny]
      rw [hstep, zero_add]
      exact ih hrest (by rw [hnext]; exact ha)
    · obtain ⟨a', d, ha', hd, hnextAmount⟩ := (effect_of_nextUsage hn).amount
      obtain rfl := ha'.unique ha
      have hrec := ih hrest (a := a' + d) (by rw [hnext]; exact hnextAmount)
      cases hcontext : request.commerce with
      | none =>
        have hstep : stepTotal (request, result) = 0 := by simp [stepTotal, hcontext]
        rw [hstep, zero_add]
        have hd0 := hd.nonneg
        exact hrec.imp id fun ⟨m, hm, hle⟩ => ⟨m, hm, by linarith⟩
      | some context =>
        -- the amount that is added is the total that was checked
        have hdelta : Denotes context.totalAmount d := by
          simpa [effectiveConsumption, hcontext] using hd
        have hstep : stepTotal (request, result) = d := by
          simp [stepTotal, hallow, hcontext, decimalValue_eq_some_iff.mpr hdelta]
        obtain ⟨x, y, m, hx, hy, hm, hle⟩ :=
          (budget_of_permits hp hcontext (by rw [hmandate]; exact hterms)).budget
        obtain rfl := hx.unique ha
        obtain rfl := hy.unique hdelta
        rw [hstep]
        refine .inr ?_
        rcases hrec with hzero | ⟨m', hm', hle'⟩
        · exact ⟨m, hm, by rw [hzero, add_zero]; exact hle⟩
        · exact ⟨m', hm', by rw [← add_assoc]; exact hle'⟩

/-- No key is used twice in a run, and none that its start had recorded. -/
theorem nodup_usedKeys {mandate : AgentMandate} {usage : UsageSnapshot} {steps : List Step}
    (hrun : IsRun engine mandate usage steps) :
    (usedKeys engine steps).Nodup ∧
      ∀ key ∈ usedKeys engine steps, key ∉ (normalizedUsage usage).idempotencyKeys := by
  induction steps generalizing usage with
  | nil => simp [usedKeys]
  | cons step rest ih =>
    obtain ⟨request, result⟩ := step
    obtain ⟨hmandate, rfl, heval, hrest⟩ := hrun
    obtain ⟨hnodup, hfresh⟩ := ih hrest
    have hkeys : usedKeys engine ((request, result) :: rest)
        = stepKeys engine (request, result) ++ usedKeys engine rest := by
      simp [usedKeys]
    rw [hkeys]
    rcases evaluateAuthority_cases heval with ⟨hdeny, hnext⟩ | ⟨hallow, ⟨now, hp⟩, next, hn, hnext⟩
    · have hstep : stepKeys engine (request, result) = [] := by simp [stepKeys, hdeny]
      rw [hstep, List.nil_append]
      refine ⟨hnodup, fun key hkey hmem => hfresh key hkey ?_⟩
      rw [hnext]
      exact mem_normalizedUsage_toSnapshot_keys.mpr hmem
    · have hnextKeys : ∀ key, key ∈ (normalizedUsage result.nextUsage).idempotencyKeys ↔
          key ∈ (normalizedUsage request.usage).idempotencyKeys ∨
            (effectiveConsumption engine request).idempotencyKey ≠ "" ∧
              key = (effectiveConsumption engine request).idempotencyKey := by
        intro key
        rw [hnext, mem_normalizedUsage_toSnapshot_keys, (effect_of_nextUsage hn).mem_keys]
      by_cases hempty : (effectiveConsumption engine request).idempotencyKey = ""
      · have hstep : stepKeys engine (request, result) = [] := by simp [stepKeys, hempty]
        rw [hstep, List.nil_append]
        exact ⟨hnodup, fun key hkey hmem => hfresh key hkey ((hnextKeys key).mpr (.inl hmem))⟩
      · have hstep : stepKeys engine (request, result)
            = [(effectiveConsumption engine request).idempotencyKey] := by
          simp [stepKeys, hallow, hempty]
        rw [hstep, List.singleton_append]
        refine ⟨List.nodup_cons.mpr ⟨fun hmem => ?_, hnodup⟩, List.forall_mem_cons.mpr ⟨?_, ?_⟩⟩
        · -- a later use would find the key recorded
          exact hfresh _ hmem ((hnextKeys _).mpr (.inr ⟨hempty, rfl⟩))
        · exact hp.consumption.unused hempty
        · exact fun key hkey hmem => hfresh key hkey ((hnextKeys key).mpr (.inl hmem))

/-- A run from a consumed usage only denies. -/
theorem deny_of_consumed {mandate : AgentMandate} {usage : UsageSnapshot} {steps : List Step}
    (hrun : IsRun engine mandate usage steps) (hconsumed : (normalizedUsage usage).consumed = true) :
    ∀ step ∈ steps, step.2.decision = .deny := by
  induction steps generalizing usage with
  | nil => simp
  | cons step rest ih =>
    obtain ⟨request, result⟩ := step
    obtain ⟨-, rfl, heval, hrest⟩ := hrun
    rcases evaluateAuthority_cases heval with ⟨hdeny, hnext⟩ | ⟨-, ⟨now, hp⟩, -⟩
    · exact List.forall_mem_cons.mpr ⟨hdeny, ih hrest (by rw [hnext]; exact hconsumed)⟩
    · exact absurd hp.consumption.unconsumed (by simp [hconsumed])

/-! ### The signed quote -/

/-- The parts of the schema of a Commerce context that the accounting rests on, and the safety
of its quantity. -/
structure CommerceEvaluationContext.Valid (context : CommerceEvaluationContext) : Prop where
  quantity : ∃ n : ℕ, n ≤ Double.maxSafeInteger ∧ context.quantity = n
  currency : context.currency ≠ ""
  idempotencyKey : context.idempotencyKey ≠ ""

/-- The step from `usage` to `next` adds exactly the signed quote: its total, which is the unit
price times the quantity, its quantity and its idempotency key. -/
structure AddsQuote (signed : Record) (usage next : UsageSnapshot) : Prop where
  quote : ∃ (unitPrice total : String) (n : ℕ) (p : ℚ),
    signed.lookup "quoted_unit_price" = some (.str unitPrice) ∧ Denotes unitPrice p ∧
    signed.lookup "quoted_total" = some (.str total) ∧ Denotes total (p * n) ∧
    signed.lookup "quantity" = some (.num n) ∧
    (∃ a amount, Denotes (usage.amount.getD "0") a ∧ next.amount = some amount ∧
      Denotes amount (a + p * n)) ∧
    ∃ q quantity, Denotes (usage.quantity.getD "0") q ∧ next.quantity = some quantity ∧
      Denotes quantity (q + n)
  currency : ∃ currency, signed.lookup "currency" = some (.str currency) ∧
    next.currency = some currency
  key : ∃ key keys, signed.lookup "idempotency_key" = some (.str key) ∧ key ≠ "" ∧
    key ∉ usage.idempotencyKeys.getD [] ∧ next.idempotencyKeys = some keys ∧
    keys.Perm (key :: usage.idempotencyKeys.getD [])

theorem sortStrings_perm (xs : List String) : (sortStrings xs).Perm xs :=
  List.perm_insertionSort _ xs

/-- The fields of a signed quote and the members of the context they must equal. -/
theorem signed_lookup_eq {envelope : TransactionEnvelope} {context : CommerceEvaluationContext}
    {signed : Record} (hsigned : objectAt envelope.extensions "commerce" = some signed)
    (h : commerceEnvelopeMismatch envelope context = false) (field member : String)
    (hfield : (field, member) ∈ [("offer_id", "offer_id"), ("currency", "currency"),
      ("quantity", "quantity"), ("quoted_unit_price", "unit_price"),
      ("quoted_total", "total_amount"), ("idempotency_key", "idempotency_key"),
      ("terms_digest", "terms_digest")]) :
    signed.lookup field = context.lookup member := by
  simp only [commerceEnvelopeMismatch, hsigned, Bool.or_eq_false_iff, Bool.not_eq_false'] at h
  have hall := List.all_eq_true.mp h.2 _ hfield
  exact eq_of_strictEq hall

/-- An allowed step whose envelope is signed over a quote adds that quote. -/
theorem addsQuote_of_allow {request : EvaluationRequest} {result : EvaluationResult}
    (heval : evaluateAuthority engine request = .ok result) (hallow : result.decision = .allow)
    {context : CommerceEvaluationContext} (hcontext : request.commerce = some context)
    (hvalid : context.Valid) {signed : Record}
    (hsigned : objectAt request.envelope.extensions "commerce" = some signed) :
    AddsQuote signed request.usage result.nextUsage := by
  obtain ⟨hdeny, -⟩ | ⟨-, ⟨now, hp⟩, next, hn, hnext⟩ := evaluateAuthority_cases heval
  · rw [hdeny] at hallow
    cases hallow
  obtain ⟨c, limits, hc, hlimits, -⟩ := hp.commerce (by simp [needsCommerce, hcontext])
  have hpermits := budget_of_permits hp hcontext hlimits
  have hsame := signed_lookup_eq hsigned hpermits.envelope
  have heffect := effect_of_nextUsage hn
  obtain ⟨n, hn', hquantity⟩ := hvalid.quantity
  rw [hnext]
  refine ⟨?_, ⟨context.currency, hsame "currency" "currency" (by simp), ?_⟩,
    ⟨context.idempotencyKey, next.idempotencyKeys,
      hsame "idempotency_key" "idempotency_key" (by simp), hvalid.idempotencyKey, ?_, rfl, ?_⟩⟩
  · -- the checked total is the product of the price and the quantity, and is what is added
    obtain ⟨product, q, hproduct, htotal, hpq⟩ := hpermits.total
    rw [hquantity] at hproduct
    obtain ⟨p, hprice, hprod⟩ := multiplyDecimal_natCast hproduct
    have hq : q = p * n := hpq.unique hprod
    rw [hq] at htotal
    obtain ⟨a, d, ha, hd, had⟩ := heffect.amount
    have hd' : d = p * n := by
      refine hd.unique ?_
      simpa [effectiveConsumption, hcontext] using htotal
    obtain ⟨text, u, e, htext, hu, he, hue⟩ := heffect.quantity
    have htext' : text = numberText engine n := by
      simpa [effectiveConsumption, hcontext, hquantity] using htext.symm
    have he' : e = n := he.unique (htext' ▸ denotes_numberText engine hn')
    have hsigned' : signed.lookup "quantity" = some (.num (n : ℚ)) := by
      rw [← hquantity]; exact hsame "quantity" "quantity" (by simp)
    exact ⟨context.unitPrice, context.totalAmount, n, p,
      hsame "quoted_unit_price" "unit_price" (by simp), hprice,
      hsame "quoted_total" "total_amount" (by simp), htotal, hsigned',
      ⟨a, next.amount, ha, rfl, hd' ▸ had⟩, ⟨u, next.quantity, hu, rfl, he' ▸ hue⟩⟩
  · have hcurrency := heffect.currency
    simp only [effectiveConsumption, hcontext, if_neg hvalid.currency] at hcurrency
    rw [← hcurrency]; rfl
  · exact fun hmem => hpermits.unused (mem_sortStrings.mpr hmem)
  · have hkeys := heffect.keys
    simp only [effectiveConsumption, hcontext, if_neg hvalid.idempotencyKey] at hkeys
    rw [hkeys]
    have hsorted : (normalizedUsage request.usage).idempotencyKeys.Perm
        (request.usage.idempotencyKeys.getD []) := sortStrings_perm _
    exact (sortStrings_perm _).trans ((hsorted.append_right _).trans List.perm_append_comm)

/-! ### The accounting of a run from no usage -/

/-- The calls limit of a mandate is a non-negative safe number, when it is a number. -/
def SafeCallLimit (mandate : AgentMandate) : Prop :=
  ∀ m, (mandate.limits.getD []).lookup "max_calls" = some (.num m) →
    0 ≤ m ∧ m ≤ Double.maxSafeInteger

/-- The budgets of a mandate with Commerce terms are kept over every run from no usage. -/
theorem budget_kept {mandate : AgentMandate} {terms : Record}
    (hterms : objectAt mandate.extensions "commerce" = some terms) (hcalls : SafeCallLimit mandate)
    {steps : List Step} (hrun : IsRun engine mandate {} steps)
    (hvalid : ∀ step ∈ steps, ∀ context, step.1.commerce = some context → context.Valid) :
    (∀ m, Denotes (optionText engine (terms.lookup "max_total")) m → commerceTotal steps ≤ m) ∧
    (∀ m, (mandate.limits.getD []).lookup "max_calls" = some (.num m) →
      (callSum engine steps : ℚ) ≤ m) ∧
    (usedKeys engine steps).Nodup ∧
    (∀ before step after, steps = before ++ step :: after →
      step.2.nextUsage.consumed = some true → ∀ later ∈ after, later.2.decision = .deny) ∧
    ∀ step ∈ steps, step.2.decision = .allow → ∀ context, step.1.commerce = some context →
      (∃ m, Denotes (optionText engine (terms.lookup "max_total")) m) ∧
      ∀ signed, objectAt step.1.envelope.extensions "commerce" = some signed →
        AddsQuote signed step.1.usage step.2.nextUsage := by
  refine ⟨fun m hm => ?_, fun m hm => ?_, (nodup_usedKeys hrun).1, ?_, ?_⟩
  · rcases commerceTotal_eq_zero_or_le hterms hrun denotes_zero with hzero | ⟨m', hm', hle⟩
    · exact hzero.le.trans hm.nonneg
    · rw [hm.unique hm', ← zero_add (commerceTotal steps)]
      exact hle
  · obtain ⟨hnonneg, hsafe⟩ := hcalls m hm
    simpa [normalizedUsage] using calls_add_callSum_le hrun hm hsafe
      (by simpa [normalizedUsage] using hnonneg)
  · rintro before step after rfl hconsumed
    have hafter := hrun.of_append
    exact deny_of_consumed hafter (by simp [normalizedUsage, hconsumed])
  · intro step hstep hallow context hcontext
    obtain ⟨hmandate, heval⟩ := hrun.eval_of_mem hstep
    refine ⟨?_, fun signed hsigned => addsQuote_of_allow heval hallow hcontext
      (hvalid step hstep context hcontext) hsigned⟩
    obtain ⟨⟨now, hp⟩, -⟩ := evaluateAuthority_allow_iff.mp ⟨heval, hallow⟩
    obtain ⟨-, -, m, -, -, hm, -⟩ :=
      (budget_of_permits hp hcontext (by rw [hmandate]; exact hterms)).budget
    exact ⟨m, hm⟩

/-- The order, and the same order again on the usage it leaves. -/
def orderTwice : List Step :=
  [(brokerOrder, orderResult),
    ({ brokerOrder with usage := orderResult.nextUsage },
      { orderResult with decision := .deny, reasonCodes := ["IDEMPOTENCY_REPLAY"] })]

theorem budget_kept_orderTwice :
    commerceTotal orderTwice ≤ 100 ∧ (callSum plainEngine orderTwice : ℚ) ≤ 10 ∧
      (usedKeys plainEngine orderTwice).Nodup := by
  have hrun : IsRun plainEngine brokerMandate {} orderTwice :=
    ⟨rfl, rfl, by decide +kernel, rfl, rfl, by decide +kernel, trivial⟩
  have hcontext : orderContext.Valid := ⟨⟨4, by decide, rfl⟩, by decide, by decide⟩
  have hvalid : ∀ step ∈ orderTwice, ∀ context, step.1.commerce = some context →
      context.Valid := by
    simp only [orderTwice, List.forall_mem_cons]
    refine ⟨?_, ?_, by simp⟩ <;> rintro context ⟨⟩ <;> exact hcontext
  have hcalls : SafeCallLimit brokerMandate := by
    rintro m ⟨⟩
    exact ⟨by norm_num, by norm_num [Double.maxSafeInteger]⟩
  have hterms : objectAt brokerMandate.extensions "commerce" = some (quoteTerms "100" 8) := rfl
  have hkept := budget_kept hterms hcalls hrun hvalid
  exact ⟨hkept.1 100 (by exact_mod_cast denotes_repr 100), hkept.2.1 10 rfl, hkept.2.2.1⟩

/-- A negative limit of calls is below every sum, that of a run without allowed steps included. -/
theorem callSum_exceeds_negative_limit :
    IsRun plainEngine { brokerMandate with limits := some [("max_calls", .num (-1))] } {}
      [({ brokerOrder with
            mandate := { brokerMandate with limits := some [("max_calls", .num (-1))] } },
        { orderResult with
          decision := .deny, reasonCodes := ["CALL_LIMIT_EXCEEDED"]
          nextUsage := (normalizedUsage {}).toSnapshot })] ∧
    ¬ (callSum plainEngine
        [({ brokerOrder with
              mandate := { brokerMandate with limits := some [("max_calls", .num (-1))] } },
          { orderResult with
            decision := .deny, reasonCodes := ["CALL_LIMIT_EXCEEDED"]
            nextUsage := (normalizedUsage {}).toSnapshot })] : ℚ) ≤ -1 :=
  ⟨⟨rfl, rfl, by decide +kernel, trivial⟩, by decide +kernel⟩

end Oati.TypeScript

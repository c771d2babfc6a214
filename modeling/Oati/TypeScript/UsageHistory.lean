import Oati.TypeScript.Denial
import Oati.TypeScript.MiddlewareSpec

/-!
# Mandates whose authority depends on history

Without a usage store the middleware evaluates every request on the empty usage. It refuses the
mandates that `requiresPersistentUsage` names, by their status, limits and profile. The evaluator
also reads the usage for mandates that have neither: for the terms in `extensions`.

* `ReachableUsage`, `HistoryDependent`: what may be recorded under a mandate, and a request that is
  allowed on the empty usage but denied on a recorded one.
* `Blocks`: for a request that is permitted on the empty usage, all that can deny it on another.
* `neverWithoutHistory_iff`: exactly for which mandates the middleware asks for a store whenever
  the authority depends on history.
-/

namespace Oati.TypeScript

open Prog

variable {engine : Engine}

/-! ### Recorded usage -/

/-- A request under a mandate, without a consumption member. -/
structure Under (mandate : AgentMandate) (request : EvaluationRequest) : Prop where
  mandate : request.mandate = mandate
  consumption : request.consumption = none

/-- The usages that allowed requests under a mandate lead to. -/
inductive ReachableUsage (engine : Engine) (mandate : AgentMandate) : UsageSnapshot → Prop
  | empty : ReachableUsage engine mandate {}
  | step {request : EvaluationRequest} {result : EvaluationResult} :
      ReachableUsage engine mandate request.usage → Under mandate request →
      evaluateAuthority engine request = .ok result → result.decision = .allow →
      ReachableUsage engine mandate result.nextUsage

/-- The reasons that what was recorded has used up the authority. -/
def historyCodes : List String :=
  ["MANDATE_ALREADY_CONSUMED", "CALL_LIMIT_EXCEEDED", "BUDGET_EXCEEDED",
    "COMMERCE_BUDGET_EXCEEDED", "QUANTITY_LIMIT_EXCEEDED", "RWA_QUANTITY_EXCEEDED"]

/-- One of these reasons is given. -/
def UsedUp (reasons : Reasons) : Prop := ∃ code ∈ historyCodes, code ∈ reasons

/-- Some request under the mandate is allowed on the empty usage, and denied on a recorded usage
because of what was recorded. -/
def HistoryDependent (engine : Engine) (mandate : AgentMandate) : Prop :=
  ∃ request, Under mandate request ∧
    (∃ result, evaluateAuthority engine (request.on {}) = .ok result ∧ result.decision = .allow) ∧
    ∃ usage, ReachableUsage engine mandate usage ∧
      ∃ result, evaluateAuthority engine (request.on usage) = .ok result ∧
        result.decision = .deny ∧ UsedUp result.reasonCodes

/-- A middleware without a usage store invokes its handler for no request with this mandate. -/
def NeverInvoked (engine : Engine) (mandate : AgentMandate) : Prop :=
  ∀ schemas options middleware request trace context, options.hasUsageStore = false →
    createOatiMiddleware engine schemas options = .ok middleware →
    Reaches (middleware request) trace (.next context) → context.mandate.view ≠ mandate

/-- What a usage has recorded. -/
structure Records (usage : UsageSnapshot) (amount quantity : ℚ) : Prop where
  amount : Denotes (normalizedUsage usage).amount amount
  quantity : Denotes (normalizedUsage usage).quantity quantity
  minted : ∃ q, Denotes (normalizedUsage usage).mintedSupply q

theorem records_empty : Records {} 0 0 := ⟨denotes_zero, denotes_zero, 0, denotes_zero⟩

/-! ### The reasons of history -/

namespace UsedUp

variable {reasons : Reasons} {condition : Bool} {code : String}

theorem addIf_other (h : code ∉ historyCodes) :
    UsedUp (reasons.addIf condition code) ↔ UsedUp reasons := by
  refine exists_congr fun other => and_congr_right fun hother => ?_
  exact Reasons.mem_addIf_of_ne (ne_of_mem_of_not_mem hother h)

theorem addIf_own (h : code ∈ historyCodes) :
    UsedUp (reasons.addIf condition code) ↔ UsedUp reasons ∨ condition = true := by
  constructor
  · rintro ⟨other, hother, hmem⟩
    by_cases hsame : other = code
    · rw [hsame, Reasons.mem_addIf_self] at hmem
      exact hmem.symm.imp_left fun hcode => ⟨code, h, hcode⟩
    · exact .inl ⟨other, hother, (Reasons.mem_addIf_of_ne hsame).mp hmem⟩
  · rintro (⟨other, hother, hmem⟩ | rfl)
    · exact ⟨other, hother, Reasons.mem_addIf_of_mem hmem⟩
    · exact ⟨code, h, Reasons.mem_addIf_true⟩

theorem nil_iff : UsedUp [] ↔ False := iff_false_intro fun ⟨_, _, h⟩ => List.not_mem_nil h

theorem sortStrings_iff : UsedUp (sortStrings reasons) ↔ UsedUp reasons :=
  exists_congr fun _ => and_congr_right fun _ => mem_sortStrings

end UsedUp

/-- The commerce total is over the budget. -/
def Overspends (engine : Engine) (request : EvaluationRequest) (usage : Usage) : Prop :=
  ∃ context terms, request.commerce = some context ∧
    objectAt request.mandate.extensions "commerce" = some terms ∧
    ¬ SumAtMost usage.amount context.totalAmount (optionText engine (terms.lookup "max_total"))

/-- The RWA quantity is over the maximum. -/
def Overcounts (engine : Engine) (request : EvaluationRequest) (usage : Usage) : Prop :=
  truthy request.rwa = true ∧ ∃ terms quantity,
    objectAt request.mandate.extensions "rwa" = some terms ∧
    get request.rwa "quantity" = some (.str quantity) ∧
    ¬ SumAtMost usage.quantity quantity (optionText engine (terms.lookup "max_quantity"))

/-- What was recorded denies the request. -/
def Blocks (engine : Engine) (request : EvaluationRequest) (usage : Usage) : Prop :=
  usage.consumed = true ∨ Overspends engine request usage ∨ Overcounts engine request usage

/-- Without limits and profile the consumption is checked against two records only. -/
theorem checkConsumption_of_unlimited {mandate : AgentMandate} (hlimits : mandate.limits = none)
    (usage : Usage) (delta : EffectiveConsumption) (reasons : Reasons) :
    checkConsumption engine mandate usage delta reasons
      = .ok ((reasons.addIf usage.consumed "MANDATE_ALREADY_CONSUMED").addIf
        (delta.idempotencyKey != "" && usage.idempotencyKeys.contains delta.idempotencyKey)
        "IDEMPOTENCY_REPLAY") := by
  have hquantity : quantityLimitExceeded engine mandate [] usage delta = .ok false :=
    quantityLimitExceeded_eq_false.mpr fun _ limit h => by cases h
  rw [checkConsumption, hlimits, Option.getD_none, hquantity]
  rfl

/-- Commerce terms that admit a context on one usage: on another the budget may be used up. -/
theorem checkCommerce_on {mandate : AgentMandate} {envelope : TransactionEnvelope}
    {context : CommerceEvaluationContext} {terms : Record} {first usage : Usage}
    (hterms : objectAt mandate.extensions "commerce" = some terms)
    (h : CommercePermits engine terms envelope context first) {a : ℚ}
    (ha : Denotes usage.amount a) (reasons : Reasons) :
    ∃ next, checkCommerce engine mandate envelope (some context) usage reasons = .ok next ∧
      (UsedUp next ↔ UsedUp reasons ∨ ¬ SumAtMost usage.amount context.totalAmount
        (optionText engine (terms.lookup "max_total"))) := by
  obtain ⟨unit, hunit, hunit'⟩ := compareDecimal_nonpos_iff.mpr h.unitPrice
  obtain ⟨product, q, hproduct, htotal, hproduct'⟩ := h.total
  obtain ⟨-, d, m, -, hd, hm, -⟩ := h.budget
  obtain ⟨sum, hsum, c, hc, hover⟩ := compare_sum ha hd hm
  obtain ⟨quantity, hquantity, hquantity'⟩ := compareDecimal_nonpos_iff.mpr h.quantity
  have hequal := compareDecimal_eq_zero_iff.mpr ⟨q, htotal, hproduct'⟩
  obtain ⟨next, hnext⟩ : ∃ next, checkCommerce engine mandate envelope (some context) usage reasons
      = .ok next := by
    simp only [checkCommerce, hterms, bind_eq_ok, pure_eq_ok]
    exact ⟨_, unit, hunit, product, hproduct, 0, hequal, sum, hsum, c, hc, quantity, hquantity, rfl⟩
  refine ⟨next, hnext, ?_⟩
  simp only [checkCommerce, hterms, bind_eq_ok, pure_eq_ok, hunit, hproduct, hequal, hsum, hc,
    hquantity, Except.ok.injEq, exists_eq_left'] at hnext
  rw [← hnext]
  simp (disch := decide) only [Reasons.addUnlessSome, UsedUp.addIf_other, UsedUp.addIf_own, hover]

/-- Roles that are all present add no reason. -/
theorem checkRequiredRoles_of_present {approvalRoles : Option Value} {roles : List String}
    (h : ∀ role ∈ roles, includesMethod approvalRoles role = .ok true) (reasons : Reasons) :
    checkRequiredRoles approvalRoles roles reasons = .ok reasons := by
  induction roles with
  | nil => rfl
  | cons role rest ih =>
    rw [List.forall_mem_cons] at h
    rw [checkRequiredRoles, h.1]
    exact ih h.2

/-- RWA terms that admit a context on one usage: on another the maximum may be reached. -/
theorem checkRwa_on {mandate : AgentMandate} {envelope : TransactionEnvelope}
    {context : Option Value} {terms : Record} {first usage : Usage} {now : ℤ}
    (hcontext : truthy context = true) (hterms : objectAt mandate.extensions "rwa" = some terms)
    (h : RwaPermits engine terms envelope context first false now) {k : ℚ}
    (hk : Denotes usage.quantity k) {s : ℚ} (hs : Denotes usage.mintedSupply s) (tracked : Bool)
    (reasons : Reasons) :
    ∃ next quantity, get context "quantity" = some (.str quantity) ∧
      checkRwa engine mandate envelope context usage tracked now reasons = .ok next ∧
      (UsedUp next ↔ UsedUp reasons ∨ ¬ SumAtMost usage.quantity quantity
        (optionText engine (terms.lookup "max_quantity")) ∨
        (strictEq (terms.lookup "one_time") (some (.bool true)) && usage.consumed) = true) := by
  obtain ⟨quantity, hquantity, -, p, m, -, hp, hm, -⟩ := h.quantity
  obtain ⟨total, htotal, c, hc, hover⟩ := compare_sum hk hp hm
  -- what reads no usage but the recorded supply was found before
  obtain ⟨before, hbefore, -⟩ : ∃ next, checkRwa engine mandate envelope context first false now []
      = .ok next ∧ next = [] := ⟨[], checkRwa_eq_nil.mpr ⟨rfl, hcontext, terms, hterms, h⟩, rfl⟩
  simp only [checkRwa, hcontext, hterms, bind_eq_ok, pure_eq_ok, decimalText_eq_ok] at hbefore
  obtain ⟨t, ht, quantity', hquantity', -, -, -, -, supply, hsupply, result, hresult, reserve,
    hreserve, r, hr, maximum, hmaximum, -, -, -, -, -⟩ := hbefore
  obtain rfl : quantity = quantity' := by simpa [hquantity] using hquantity'
  obtain ⟨current, -, hcurrent, -⟩ := addDecimal_denotes hresult
  obtain ⟨mismatch, hmismatch⟩ : ∃ b, andThrow (.ok tracked)
      (do return decide ((← compareDecimal usage.mintedSupply supply) ≠ 0)) = .ok b := by
    cases tracked with
    | false => exact ⟨false, rfl⟩
    | true =>
      have hcompare := compareDecimal_eq_ok.mpr ⟨s, current, hs, hcurrent, rfl⟩
      exact ⟨_, andThrow_true_eq_ok.mpr ⟨_, hcompare, rfl⟩⟩
  obtain ⟨next, hnext⟩ : ∃ next, checkRwa engine mandate envelope context usage tracked now reasons
      = .ok next := by
    simp only [checkRwa, hcontext, hterms, bind_eq_ok, pure_eq_ok, decimalText_eq_ok]
    exact ⟨_, t, ht, quantity, hquantity, total, htotal, c, hc, supply, hsupply, result, hresult,
      reserve, hreserve, r, hr, maximum, hmaximum, mismatch, hmismatch, _,
      checkRequiredRoles_of_present h.roles _, rfl⟩
  refine ⟨next, quantity, hquantity, hnext, ?_⟩
  simp only [checkRwa, hcontext, hterms, bind_eq_ok, pure_eq_ok, decimalText_eq_ok, ht, hquantity,
    htotal, hc, hsupply, hresult, hreserve, hr, hmaximum, hmismatch,
    checkRequiredRoles_of_present h.roles, Except.ok.injEq, Option.some.injEq, Json.str.injEq,
    exists_eq_left'] at hnext
  rw [← hnext]
  simp (disch := decide) only [UsedUp.addIf_other, UsedUp.addIf_own, hover, or_assoc]

/-! ### Requests that are permitted on the empty usage -/

/-- The mandate is one that the middleware lets through without a store. -/
structure Unguarded (mandate : AgentMandate) : Prop where
  limits : mandate.limits = none
  profile : mandate.profile = none

theorem unguarded_of_not_required {mandate : AgentMandate}
    (h : requiresPersistentUsage mandate = false) : Unguarded mandate := by
  simp only [requiresPersistentUsage, Bool.or_eq_false_iff, Option.isSome_eq_false_iff,
    Option.isNone_iff_eq_none] at h
  exact ⟨h.1.2, h.2⟩

/-- A request under the mandate without consumption that is permitted on the empty usage. -/
structure Permissible (engine : Engine) (mandate : AgentMandate) (request : EvaluationRequest) :
    Prop where
  under : Under mandate request
  permits : ∃ now, Permits engine (request.on {}) now

/-- A falsy value has no members. -/
theorem get_of_not_truthy {value : Option Value} (h : truthy value = false) (key : String) :
    get value key = none := by
  cases value with
  | none => rfl
  | some v =>
    cases v with
    | obj members => cases h
    | _ => rfl

variable {mandate : AgentMandate} {request : EvaluationRequest} {now : ℤ}

/-- What a permitted request would add to the usage. -/
theorem exists_delta (hc : request.consumption = none)
    (hp : Permits engine request now) :
    ∃ d text k, Denotes (effectiveConsumption engine request).amount d ∧
      (effectiveConsumption engine request).quantity = .str text ∧ Denotes text k := by
  cases hcommerce : request.commerce with
  | some context =>
    obtain ⟨_, terms, rfl', -, h⟩ := hp.commerce (by simp [needsCommerce, hcommerce])
    obtain rfl := Option.some.inj (hcommerce.symm.trans rfl')
    obtain ⟨-, d, -, -, hd, -, -⟩ := h.budget
    obtain ⟨k, -, hk, -, -⟩ := h.quantity
    refine ⟨d, numberText engine context.quantity, k, ?_, ?_, hk⟩
    · simpa only [effectiveConsumption, hcommerce] using hd
    · simp only [effectiveConsumption, hcommerce]
  | none =>
    have hamount : (effectiveConsumption engine request).amount = "0" := by
      simp only [effectiveConsumption, hcommerce, hc, Option.getD_none]
    rw [hamount]
    by_cases hrwa : truthy request.rwa = true
    · obtain ⟨-, terms, -, h⟩ := hp.rwa (by simp [needsRwa, hrwa])
      obtain ⟨text, htext, -, k, -, -, hk, -, -⟩ := h.quantity
      refine ⟨0, text, k, denotes_zero, ?_, hk⟩
      simp only [effectiveConsumption, hcommerce, htext, nullish, Option.getD_some]
    · have hnone := get_of_not_truthy (eq_false_of_ne_true hrwa) "quantity"
      refine ⟨0, "0", 0, denotes_zero, ?_, denotes_zero⟩
      simp only [effectiveConsumption, hcommerce, hnone, hc, nullish, Option.getD_none,
        Option.map_none]

/-- A permitted request is allowed, and its next usage records what it adds. -/
theorem exists_allow (hc : request.consumption = none)
    (hp : Permits engine request now) {a q : ℚ} (hr : Records request.usage a q) :
    ∃ result next, evaluateAuthority engine request = .ok result ∧ result.decision = .allow ∧
      result.nextUsage = next.toSnapshot ∧
      Effect (normalizedUsage request.usage) (effectiveConsumption engine request) next ∧
      ∃ m, Denotes next.mintedSupply m := by
  obtain ⟨d, text, k, hd, htext, hk⟩ := exists_delta hc hp
  obtain ⟨amount, hamount⟩ := exists_addDecimal hr.amount hd
  obtain ⟨quantity, hquantity⟩ := exists_addDecimal hr.quantity hk
  obtain ⟨minted, hminted, m, hm⟩ : ∃ minted, nextMintedSupply (normalizedUsage request.usage)
      request = .ok minted ∧ ∃ m, Denotes minted m := by
    by_cases hrwa : truthy request.rwa = true
    · obtain ⟨-, terms, -, h⟩ := hp.rwa (by simp [needsRwa, hrwa])
      obtain ⟨supply, issued, -, hsupply, hissued, -, x, y, -, hx, hy, -, -⟩ := h.supply.reserve
      obtain ⟨sum, hsum⟩ := exists_addDecimal hx hy
      refine ⟨sum, ?_, x + y, (denotes_addDecimal hsum).mpr ⟨x, y, hx, hy, rfl⟩⟩
      rw [nextMintedSupply, if_pos hrwa, hsupply, hissued]
      exact hsum
    · obtain ⟨m, hm⟩ := hr.minted
      exact ⟨_, if_neg hrwa, m, hm⟩
  obtain ⟨next, hnext⟩ : ∃ next, nextUsage engine request .allow = .ok next ∧
      next.mintedSupply = minted :=
    ⟨_, applyConsumption_eq_ok.mpr ⟨amount, text, quantity, minted, hamount, htext, hquantity,
      hminted, rfl⟩, rfl⟩
  obtain ⟨heval, hallow⟩ := evaluateAuthority_allow_iff.mpr ⟨⟨now, hp⟩, next, hnext.1, rfl⟩
  exact ⟨_, next, heval, hallow, rfl, effect_of_nextUsage hnext.1, m, hnext.2 ▸ hm⟩

/-- A request that is permitted on a usage is permitted on the empty one. -/
theorem Permits.empty (hu : Unguarded request.mandate) {usage : UsageSnapshot}
    (hp : Permits engine (request.on usage) now) :
    Permits engine (request.on {}) now where
  time := hp.time
  mandate := hp.mandate
  link := hp.link
  agrees := hp.agrees
  consumption := by
    have hlimits : (request.on {}).mandate.limits.getD [] = [] := by
      rw [show (request.on {}).mandate = request.mandate from rfl, hu.limits, Option.getD_none]
    refine ⟨rfl, fun _ => List.not_mem_nil, ?_, ?_, ?_, ?_⟩
    · intro n hn
      rw [hlimits] at hn
      cases hn
    · intro _ limit hl
      rw [hlimits] at hl
      cases hl
    · intro total ht
      rw [hlimits] at ht
      cases ht
    · intro total ht
      rw [hlimits] at ht
      cases ht
  commerce := by
    intro hneeds
    obtain ⟨context, terms, hcontext, hterms, h⟩ := hp.commerce hneeds
    obtain ⟨x, d, m, hx, hd, hm, hle⟩ := h.budget
    refine ⟨context, terms, hcontext, hterms, { h with
      usageCurrency := fun hne => absurd rfl hne
      budget := ⟨0, d, m, denotes_zero, hd, hm, ?_⟩
      unused := List.not_mem_nil }⟩
    have hnonneg := hx.nonneg
    linarith
  rwa := by
    intro hneeds
    obtain ⟨hcontext, terms, hterms, h⟩ := hp.rwa hneeds
    obtain ⟨quantity, hquantity, x, k, m, hx, hk, hm, hle⟩ := h.quantity
    refine ⟨hcontext, terms, hterms, { h with
      quantity := ⟨quantity, hquantity, 0, k, m, denotes_zero, hk, hm, ?_⟩
      supply := { h.supply with minted := fun hset => by cases hset }
      oneTime := fun _ => rfl }⟩
    have hnonneg := hx.nonneg
    linarith

/-- The commerce stage of a request that is permitted on the empty usage. -/
theorem exists_checkCommerceTerms (hu : Unguarded request.mandate)
    (hp : Permits engine (request.on {}) now) {usage : UsageSnapshot} {a q : ℚ}
    (hr : Records usage a q) (reasons : Reasons) :
    ∃ next, checkCommerceTerms engine (request.on usage) reasons = .ok next ∧
      (UsedUp next ↔ UsedUp reasons ∨ Overspends engine request (normalizedUsage usage)) := by
  cases hcommerce : request.commerce with
  | none =>
    have hneeds : needsCommerce (request.on usage) = false := by
      simp [needsCommerce, EvaluationRequest.on, hcommerce, hu.profile]
    refine ⟨reasons, by rw [checkCommerceTerms, hneeds]; rfl, (or_iff_left ?_).symm⟩
    rintro ⟨_, _, h, -, -⟩
    cases hcommerce.symm.trans h
  | some context =>
    have hneeds : needsCommerce (request.on usage) = true := by
      simp [needsCommerce, EvaluationRequest.on, hcommerce]
    obtain ⟨_, terms, hsome, hterms, h⟩ := hp.commerce hneeds
    obtain rfl := Option.some.inj (hcommerce.symm.trans hsome)
    obtain ⟨next, hnext, hiff⟩ := checkCommerce_on hterms h hr.amount reasons
    refine ⟨next, ?_, hiff.trans (or_congr_right ⟨fun hover => ?_, ?_⟩)⟩
    · rw [checkCommerceTerms, if_pos hneeds]
      exact (congrArg (checkCommerce engine request.mandate request.envelope ·
        (normalizedUsage usage) reasons) hcommerce).trans hnext
    · exact ⟨context, terms, hcommerce, hterms, hover⟩
    · rintro ⟨_, _, hsome', hterms', hover⟩
      obtain rfl := Option.some.inj (hcommerce.symm.trans hsome')
      obtain rfl := Option.some.inj (hterms.symm.trans hterms')
      exact hover

/-- The RWA stage of a request that is permitted on the empty usage. A consumed usage was found
before. -/
theorem exists_checkRwaTerms (hu : Unguarded request.mandate)
    (hp : Permits engine (request.on {}) now) {usage : UsageSnapshot} {a q : ℚ}
    (hr : Records usage a q) {reasons : Reasons}
    (hconsumed : (normalizedUsage usage).consumed = true → UsedUp reasons) :
    ∃ next, checkRwaTerms engine (request.on usage) now reasons = .ok next ∧
      (UsedUp next ↔ UsedUp reasons ∨ Overcounts engine request (normalizedUsage usage)) := by
  by_cases hrwa : truthy request.rwa = true
  · have hneeds : needsRwa (request.on usage) = true := by
      simp [needsRwa, EvaluationRequest.on, hrwa]
    obtain ⟨-, terms, hterms, h⟩ := hp.rwa hneeds
    obtain ⟨m, hm⟩ := hr.minted
    obtain ⟨next, quantity, hquantity, hnext, hiff⟩ := checkRwa_on hrwa hterms h hr.quantity hm
      usage.mintedSupply.isSome reasons
    refine ⟨next, (if_pos hneeds).trans hnext, ?_⟩
    constructor
    · intro hused
      obtain hbefore | hover | honce := hiff.mp hused
      · exact .inl hbefore
      · exact .inr ⟨hrwa, terms, quantity, hterms, hquantity, hover⟩
      · exact .inl (hconsumed (Bool.and_eq_true_iff.mp honce).2)
    · rintro (hbefore | ⟨-, _, _, hterms', hquantity', hover⟩)
      · exact hiff.mpr (.inl hbefore)
      · obtain rfl := Option.some.inj (hterms.symm.trans hterms')
        obtain rfl := Json.str.inj (Option.some.inj (hquantity.symm.trans hquantity'))
        exact hiff.mpr (.inr (.inl hover))
  · have hneeds : needsRwa (request.on usage) = false := by
      simp [needsRwa, EvaluationRequest.on, hrwa, hu.profile]
    refine ⟨reasons, by rw [checkRwaTerms, hneeds]; rfl, (or_iff_left ?_).symm⟩
    exact fun hover => hrwa hover.1

/-- A request that is permitted on the empty usage is decided on every other one, and denied for
what was recorded exactly if that blocks it. -/
theorem exists_reasons (hu : Unguarded request.mandate) (hc : request.consumption = none)
    (hp : Permits engine (request.on {}) now) {usage : UsageSnapshot} {a q : ℚ}
    (hr : Records usage a q) :
    ∃ reasons, checkAuthority engine (request.on usage) = .ok reasons ∧
      (UsedUp reasons ↔ Blocks engine request (normalizedUsage usage)) := by
  have hmandate : checkMandate engine (request.on usage) now = .ok [] :=
    checkMandate_eq_nil.mpr ⟨hp.mandate, hp.link⟩
  have hcontext : checkConsumptionContext (request.on usage)
      (effectiveConsumption engine (request.on usage)) [] = [] := by
    simp only [checkConsumptionContext, EvaluationRequest.on, hc]
  obtain ⟨first, hfirst, hconsumed⟩ : ∃ first, checkConsumption engine request.mandate
      (normalizedUsage usage) (effectiveConsumption engine (request.on usage)) [] = .ok first ∧
      (UsedUp first ↔ (normalizedUsage usage).consumed = true) := by
    refine ⟨_, checkConsumption_of_unlimited hu.limits _ _ _, ?_⟩
    simp (disch := decide) only [UsedUp.addIf_other, UsedUp.addIf_own, UsedUp.nil_iff, false_or]
  obtain ⟨second, hsecond, hspent⟩ := exists_checkCommerceTerms hu hp hr first
  obtain ⟨third, hthird, hcounted⟩ := exists_checkRwaTerms hu hp hr
    (fun h => hspent.mpr (.inl (hconsumed.mpr h)))
  refine ⟨third, ?_, ?_⟩
  · simp only [checkAuthority, bind_eq_ok]
    refine ⟨now, hp.time, [], hmandate, first, ?_, second, hsecond, hthird⟩
    rw [hcontext]
    exact hfirst
  · rw [hcounted, hspent, hconsumed, or_assoc, Blocks]

/-- Such a request is denied because of what blocks it. -/
theorem exists_deny (hu : Unguarded request.mandate) (hc : request.consumption = none)
    (hp : Permits engine (request.on {}) now) {usage : UsageSnapshot} {a q : ℚ}
    (hr : Records usage a q) (hblocks : Blocks engine request (normalizedUsage usage)) :
    ∃ result, evaluateAuthority engine (request.on usage) = .ok result ∧
      result.decision = .deny ∧ UsedUp result.reasonCodes := by
  obtain ⟨reasons, hreasons, hiff⟩ := exists_reasons hu hc hp hr
  obtain ⟨code, hown, hcode⟩ := hiff.mpr hblocks
  have hdeny := decisionOf_of_mem hcode
  refine ⟨_, evaluateAuthority_eq_ok.mpr ⟨reasons, normalizedUsage usage, hreasons, ?_, rfl⟩, hdeny,
    UsedUp.sortStrings_iff.mpr ⟨code, hown, hcode⟩⟩
  rw [hdeny]
  rfl

/-! ### Usage without traces -/

/-- No permissible request leaves a trace that denies one later: none is consuming, none has a
commerce context with a total other than zero, and if one has an RWA context then none adds a
quantity other than zero. -/
structure Traceless (engine : Engine) (mandate : AgentMandate) : Prop where
  oneTime : ∀ request, Permissible engine mandate request →
    truthy ((objectAt mandate.extensions "rwa").bind (·.lookup "one_time")) = false
  total : ∀ request, Permissible engine mandate request → ∀ context,
    request.commerce = some context → Denotes context.totalAmount 0
  quantity : ∀ request, Permissible engine mandate request → truthy request.rwa = true →
    ∀ other, Permissible engine mandate other → ∀ text k,
      (effectiveConsumption engine other).quantity = .str text → Denotes text k → k = 0

/-- A usage that denies no permissible request. -/
structure Clean (engine : Engine) (mandate : AgentMandate) (usage : UsageSnapshot) : Prop where
  records : ∃ q, Records usage 0 q ∧
    ∀ request, Permissible engine mandate request → truthy request.rwa = true → q = 0
  consumed : (normalizedUsage usage).consumed = false

/-- Without limits and a consumption only the RWA terms consume the mandate. -/
theorem consume_eq (hu : Unguarded mandate) (hunder : Under mandate request) :
    (effectiveConsumption engine request).consume
      = truthy ((objectAt mandate.extensions "rwa").bind (·.lookup "one_time")) := by
  have hlimits : truthy (mandate.limits.bind (·.lookup "one_time")) = false := by
    rw [hu.limits]
    rfl
  have hsupplied : ((request.consumption.getD {}).consume == some true) = false := by
    rw [hunder.consumption]
    rfl
  simp only [effectiveConsumption, hsupplied, hunder.mandate, hlimits, Bool.or_false]

/-- An allowed request under the mandate was permissible. -/
theorem permissible_of_allow (hu : Unguarded mandate) {result : EvaluationResult}
    (hunder : Under mandate request) (heval : evaluateAuthority engine request = .ok result)
    (hallow : result.decision = .allow) :
    ∃ now, Permits engine request now ∧ Permissible engine mandate request := by
  obtain ⟨⟨now, hp⟩, -⟩ := evaluateAuthority_allow_iff.mp ⟨heval, hallow⟩
  have hu' : Unguarded request.mandate := hunder.mandate ▸ hu
  exact ⟨now, hp, hunder, now, Permits.empty hu' hp⟩

theorem clean_of_reachable (hu : Unguarded mandate) (ht : Traceless engine mandate)
    {usage : UsageSnapshot} (h : ReachableUsage engine mandate usage) :
    Clean engine mandate usage := by
  induction h with
  | empty => exact ⟨⟨0, records_empty, fun _ _ _ => rfl⟩, rfl⟩
  | @step request result _ hunder heval hallow ih =>
    obtain ⟨⟨q, hr, hzero⟩, hconsumed⟩ := ih
    obtain ⟨now, hp, hpermissible⟩ := permissible_of_allow hu hunder heval hallow
    obtain ⟨result', next, heval', -, hnext, heffect, minted⟩ :=
      exists_allow hunder.consumption hp hr
    obtain rfl : result = result' := Except.ok.inj (heval.symm.trans heval')
    obtain ⟨a, d, ha, hd, hamount⟩ := heffect.amount
    obtain ⟨text, q', k, htext, hq', hk, hquantity⟩ := heffect.quantity
    obtain rfl := ha.unique hr.amount
    obtain rfl := hq'.unique hr.quantity
    have hd0 : d = 0 := by
      cases hcommerce : request.commerce with
      | some context =>
        simp only [effectiveConsumption, hcommerce] at hd
        exact hd.unique (ht.total request hpermissible context hcommerce)
      | none =>
        simp only [effectiveConsumption, hcommerce, hunder.consumption, Option.getD_none] at hd
        exact hd.unique denotes_zero
    rw [hnext]
    refine ⟨⟨q' + k, ⟨?_, hquantity, minted⟩, ?_⟩, ?_⟩
    · rw [hd0, add_zero] at hamount
      exact hamount
    · intro other hother hrwa
      rw [hzero other hother hrwa, ht.quantity other hother hrwa request hpermissible text k htext hk,
        add_zero]
    · rw [normalizedUsage_toSnapshot_consumed, heffect.consumed, hconsumed, Bool.false_or]
      rw [consume_eq hu hunder, ht.oneTime request hpermissible]

/-- A clean usage blocks no permissible request. -/
theorem not_blocks_of_clean {usage : UsageSnapshot} (hclean : Clean engine mandate usage)
    (hunder : Under mandate request) (hp : Permits engine (request.on {}) now) :
    ¬ Blocks engine request (normalizedUsage usage) := by
  obtain ⟨⟨q, hr, hzero⟩, hconsumed⟩ := hclean
  rintro (h | ⟨context, terms, hcontext, hterms, hover⟩ | ⟨hrwa, terms, quantity, hterms, hq, hover⟩)
  · rw [hconsumed] at h
    cases h
  · obtain ⟨_, _, hcontext', hterms', h⟩ :=
      hp.commerce (by simp [needsCommerce, EvaluationRequest.on, hcontext])
    obtain rfl := Option.some.inj (hcontext.symm.trans hcontext')
    obtain rfl := Option.some.inj (hterms.symm.trans hterms')
    obtain ⟨x, d, m, hx, hd, hm, hle⟩ := h.budget
    rw [hx.unique denotes_zero] at hle
    exact hover ⟨0, d, m, hr.amount, hd, hm, hle⟩
  · obtain ⟨-, _, hterms', h⟩ := hp.rwa (by simp [needsRwa, EvaluationRequest.on, hrwa])
    obtain rfl := Option.some.inj (hterms.symm.trans hterms')
    obtain ⟨quantity', hq', x, k, m, hx, hk, hm, hle⟩ := h.quantity
    obtain rfl := Json.str.inj (Option.some.inj (hq.symm.trans hq'))
    obtain rfl := hzero request ⟨hunder, now, hp⟩ hrwa
    rw [hx.unique denotes_zero] at hle
    exact hover ⟨0, k, m, hr.quantity, hk, hm, hle⟩

/-- Without traces the authority does not depend on history. -/
theorem not_historyDependent_of_traceless (hu : Unguarded mandate)
    (ht : Traceless engine mandate) : ¬ HistoryDependent engine mandate := by
  rintro ⟨request, hunder, ⟨first, hfirst, hallow⟩, usage, hreach, result, heval, -, hused⟩
  obtain ⟨⟨now, hp⟩, -⟩ := evaluateAuthority_allow_iff.mp ⟨hfirst, hallow⟩
  have hu' : Unguarded request.mandate := hunder.mandate ▸ hu
  have hclean := clean_of_reachable hu ht hreach
  obtain ⟨q, hr, -⟩ := hclean.records
  obtain ⟨reasons, hreasons, hiff⟩ := exists_reasons hu' hunder.consumption hp hr
  obtain ⟨reasons', _, hreasons', -, rfl⟩ := evaluateAuthority_eq_ok.mp heval
  obtain rfl : reasons = reasons' := Except.ok.inj (hreasons.symm.trans hreasons')
  exact not_blocks_of_clean hclean hunder hp (hiff.mp (UsedUp.sortStrings_iff.mp hused))

/-! ### Histories -/

/-- A permitted request on a reachable usage records what it adds. -/
theorem ReachableUsage.extend (hreach : ReachableUsage engine mandate request.usage)
    (hunder : Under mandate request) (hp : Permits engine request now) {a q d k : ℚ}
    (hr : Records request.usage a q) (hd : Denotes (effectiveConsumption engine request).amount d)
    {text : String} (htext : (effectiveConsumption engine request).quantity = .str text)
    (hk : Denotes text k) :
    ∃ next : Usage, ReachableUsage engine mandate next.toSnapshot ∧
      Effect (normalizedUsage request.usage) (effectiveConsumption engine request) next ∧
      Records next.toSnapshot (a + d) (q + k) := by
  obtain ⟨result, next, heval, hallow, hnext, heffect, hminted⟩ :=
    exists_allow hunder.consumption hp hr
  obtain ⟨a', d', ha', hd', hamount⟩ := heffect.amount
  obtain ⟨text', q', k', htext', hq', hk', hquantity⟩ := heffect.quantity
  obtain rfl := ha'.unique hr.amount
  obtain rfl := hd'.unique hd
  obtain rfl := hq'.unique hr.quantity
  obtain rfl := Json.str.inj (htext.symm.trans htext')
  obtain rfl := hk'.unique hk
  have hreach' := hreach.step hunder heval hallow
  rw [hnext] at hreach'
  exact ⟨next, hreach', heffect, hamount, hquantity, hminted⟩

/-- A reachable usage that blocks a permissible request. -/
theorem historyDependent_of_blocks (hu : Unguarded mandate)
    (hpermissible : Permissible engine mandate request) {usage : UsageSnapshot}
    (hreach : ReachableUsage engine mandate usage) {a q : ℚ} (hr : Records usage a q)
    (hblocks : Blocks engine request (normalizedUsage usage)) : HistoryDependent engine mandate := by
  obtain ⟨hunder, now, hp⟩ := hpermissible
  have hu' : Unguarded request.mandate := hunder.mandate ▸ hu
  obtain ⟨first, next, hfirst, hallow, -⟩ :=
    @exists_allow engine (request.on {}) now hunder.consumption hp 0 0 records_empty
  exact ⟨request, hunder, ⟨first, hfirst, hallow⟩, usage, hreach,
    exists_deny hu' hunder.consumption hp hr hblocks⟩

/-- A consuming mandate denies the second request. -/
theorem historyDependent_of_oneTime (hu : Unguarded mandate)
    (hpermissible : Permissible engine mandate request)
    (hone : truthy ((objectAt mandate.extensions "rwa").bind (·.lookup "one_time")) = true) :
    HistoryDependent engine mandate := by
  obtain ⟨hunder, now, hp⟩ := hpermissible
  have hunder' : Under mandate (request.on {}) := ⟨hunder.mandate, hunder.consumption⟩
  obtain ⟨d, text, k, hd, htext, hk⟩ := exists_delta hunder'.consumption hp
  obtain ⟨next, hreach, heffect, hr⟩ :=
    ReachableUsage.empty.extend hunder' hp records_empty hd htext hk
  refine historyDependent_of_blocks hu ⟨hunder, now, hp⟩ hreach hr (.inl ?_)
  rw [normalizedUsage_toSnapshot_consumed, heffect.consumed, consume_eq hu hunder', hone,
    Bool.or_true]

/-- The key of an order in a series. -/
def orderKey (n : ℕ) : String := String.ofList (List.replicate (n + 1) 'k')

theorem orderKey_injective : Function.Injective orderKey := by
  intro m n h
  have hlength := congrArg (fun s : String => s.toList.length) h
  simpa [orderKey] using hlength

/-- The purchase of a request once more, under a key of its own and with nothing else. -/
def nthOrder (request : EvaluationRequest) (context : CommerceEvaluationContext) (n : ℕ)
    (usage : UsageSnapshot) : EvaluationRequest :=
  { request with
    usage := usage
    envelope := { request.envelope with extensions := none }
    commerce := some { context with idempotencyKey := orderKey n }
    rwa := none }

/-- The usage after `n` orders of the same purchase. -/
structure Ordered (engine : Engine) (mandate : AgentMandate) (context : CommerceEvaluationContext)
    (d k : ℚ) (n : ℕ) (usage : UsageSnapshot) : Prop where
  reachable : ReachableUsage engine mandate usage
  records : Records usage (n * d) (n * k)
  unconsumed : (normalizedUsage usage).consumed = false
  currency : (normalizedUsage usage).currency = context.currency ∨
    (normalizedUsage usage).currency = "" ∧ (normalizedUsage usage).amount = "0"
  keys : ∀ key ∈ (normalizedUsage usage).idempotencyKeys, ∃ i < n, key = orderKey i

/-- The next order is permitted while the budget lasts. -/
theorem permits_nthOrder (hu : Unguarded request.mandate) (hc : request.consumption = none)
    (hp : Permits engine (request.on {}) now)
    {context : CommerceEvaluationContext} {terms : Record}
    (hterms : objectAt request.mandate.extensions "commerce" = some terms)
    (h : CommercePermits engine terms request.envelope context (normalizedUsage {}))
    {d k m : ℚ} (hd : Denotes context.totalAmount d)
    (hm : Denotes (optionText engine (terms.lookup "max_total")) m) {n : ℕ}
    {usage : UsageSnapshot} (ho : Ordered engine request.mandate context d k n usage)
    (hle : n * d + d ≤ m) : Permits engine (nthOrder request context n usage) now where
  time := hp.time
  mandate := { hp.mandate with }
  link := hp.link
  agrees := fun _ hsupplied => by cases hc.symm.trans hsupplied
  consumption := by
    have hlimits : request.mandate.limits.getD [] = [] := by rw [hu.limits, Option.getD_none]
    refine ⟨ho.unconsumed, ?_, ?_, ?_, ?_, ?_⟩
    · intro _ hkey
      obtain ⟨i, hi, hkey⟩ := ho.keys _ hkey
      exact hi.ne (orderKey_injective hkey).symm
    · intro bound hbound
      cases (congrArg (List.lookup "max_calls") hlimits).symm.trans hbound
    · intro _ limit hlimit
      cases (congrArg (quantityLimit engine) hlimits).symm.trans hlimit
    · intro total htotal
      cases (congrArg (List.lookup "max_total") hlimits).symm.trans htotal
    · intro total htotal
      cases (congrArg (List.lookup "max_total") hlimits).symm.trans htotal
  commerce := by
    refine fun _ => ⟨_, terms, rfl, hterms, { h with
      usageCurrency := ?_
      budget := ⟨n * d, d, m, ho.records.amount, hd, hm, hle⟩
      unused := ?_
      envelope := rfl }⟩
    · intro hamount
      exact ho.currency.resolve_right fun hnone => hamount hnone.2
    · intro hkey
      obtain ⟨i, hi, hkey⟩ := ho.keys _ hkey
      exact hi.ne (orderKey_injective hkey).symm
  rwa := by
    intro hneeds
    simp [needsRwa, nthOrder, hu.profile, truthy] at hneeds

theorem exists_ordered (hu : Unguarded mandate) (hunder : Under mandate request)
    (hp : Permits engine (request.on {}) now)
    (hone : truthy ((objectAt mandate.extensions "rwa").bind (·.lookup "one_time")) = false)
    {context : CommerceEvaluationContext} {terms : Record}
    (hterms : objectAt mandate.extensions "commerce" = some terms)
    (h : CommercePermits engine terms request.envelope context (normalizedUsage {}))
    {d k m : ℚ} (hd : Denotes context.totalAmount d)
    (hk : Denotes (numberText engine context.quantity) k)
    (hm : Denotes (optionText engine (terms.lookup "max_total")) m) (n : ℕ) (hle : n * d ≤ m) :
    ∃ usage, Ordered engine mandate context d k n usage := by
  induction n with
  | zero =>
    refine ⟨{}, ReachableUsage.empty, ?_, rfl, .inr ⟨rfl, rfl⟩, fun key hkey => ?_⟩
    · rw [Nat.cast_zero, zero_mul, zero_mul]
      exact records_empty
    · cases hkey
  | succ n ih =>
    have hd0 := hd.nonneg
    rw [Nat.cast_succ, add_mul, one_mul] at hle
    obtain ⟨usage, ho⟩ := ih (by linarith)
    obtain ⟨rfl, hc⟩ := hunder
    have hpermits := permits_nthOrder hu hc hp hterms h hd hm ho hle
    have hunder' : Under request.mandate (nthOrder request context n usage) := ⟨rfl, hc⟩
    obtain ⟨next, hreach, heffect, hr⟩ := ho.reachable.extend hunder' hpermits ho.records hd rfl hk
    refine ⟨next.toSnapshot, hreach, ?_, ?_, ?_, ?_⟩
    · rw [Nat.cast_succ, add_mul, add_mul, one_mul, one_mul]
      exact hr
    · rw [normalizedUsage_toSnapshot_consumed, heffect.consumed, consume_eq hu hunder', hone,
        Bool.or_false]
      exact ho.unconsumed
    · have hcurrency : next.currency = if context.currency = "" then (normalizedUsage usage).currency
          else context.currency := heffect.currency
      refine .inl (hcurrency.trans ?_)
      split_ifs with hempty
      · obtain hsame | hnone := ho.currency
        · exact hsame
        · exact hnone.1.trans hempty.symm
      · rfl
    · intro key hkey
      obtain hbefore | ⟨-, hown⟩ :=
        heffect.mem_keys.mp (mem_normalizedUsage_toSnapshot_keys.mp hkey)
      · obtain ⟨i, hi, hi'⟩ := ho.keys key hbefore
        exact ⟨i, Nat.lt_succ_of_lt hi, hi'⟩
      · exact ⟨n, Nat.lt_succ_self n, hown⟩

/-- A purchase that costs something uses up the budget when it is repeated. -/
theorem historyDependent_of_total (hu : Unguarded mandate)
    (hpermissible : Permissible engine mandate request)
    (hone : truthy ((objectAt mandate.extensions "rwa").bind (·.lookup "one_time")) = false)
    {context : CommerceEvaluationContext} (hcontext : request.commerce = some context)
    (hne : ¬ Denotes context.totalAmount 0) : HistoryDependent engine mandate := by
  obtain ⟨hunder, now, hp⟩ := id hpermissible
  obtain ⟨_, terms, hsome, hterms, h⟩ :=
    hp.commerce (by simp [needsCommerce, EvaluationRequest.on, hcontext])
  obtain rfl := Option.some.inj (hcontext.symm.trans hsome)
  obtain ⟨x, d, m, hx, hd, hm, hle⟩ := h.budget
  obtain ⟨k, -, hk, -, -⟩ := h.quantity
  have hpos : 0 < d := lt_of_le_of_ne hd.nonneg fun hzero => hne (hzero ▸ hd)
  -- the last number of orders within the budget
  have hlast : (⌊m / d⌋₊ : ℚ) * d ≤ m := by
    rw [← le_div_iff₀ hpos]
    exact Nat.floor_le (div_nonneg hm.nonneg hpos.le)
  have hover : m < (⌊m / d⌋₊ : ℚ) * d + d := by
    have hfloor := (div_lt_iff₀ hpos).mp (Nat.lt_floor_add_one (m / d))
    linarith
  have hterms' : objectAt mandate.extensions "commerce" = some terms := hunder.mandate ▸ hterms
  obtain ⟨usage, ho⟩ := exists_ordered hu hunder hp hone hterms' h hd hk hm _ hlast
  refine historyDependent_of_blocks hu hpermissible ho.reachable ho.records
    (.inr (.inl ⟨context, terms, hcontext, hterms, ?_⟩))
  rintro ⟨x', d', m', hx', hd', hm', hle'⟩
  rw [hx'.unique ho.records.amount, hd'.unique hd, hm'.unique hm] at hle'
  linarith

/-- A purchase that costs nothing still adds its quantity. -/
theorem historyDependent_of_purchase (hu : Unguarded mandate)
    (hpermissible : Permissible engine mandate request) (hrwa : truthy request.rwa = true)
    {other : EvaluationRequest} (hother : Permissible engine mandate other)
    (hone : truthy ((objectAt mandate.extensions "rwa").bind (·.lookup "one_time")) = false)
    {context : CommerceEvaluationContext} (hcontext : other.commerce = some context)
    (hfree : Denotes context.totalAmount 0) {k : ℚ}
    (hk : Denotes (numberText engine context.quantity) k) (hne : k ≠ 0) :
    HistoryDependent engine mandate := by
  obtain ⟨hunder, now, hp⟩ := id hpermissible
  obtain ⟨hunder', now', hp'⟩ := hother
  obtain ⟨_, terms, hsome, hterms, h⟩ :=
    hp'.commerce (by simp [needsCommerce, EvaluationRequest.on, hcontext])
  obtain rfl := Option.some.inj (hcontext.symm.trans hsome)
  obtain ⟨-, -, m, -, -, hm, -⟩ := h.budget
  obtain ⟨-, limits, hlimits, hpermits⟩ := hp.rwa (by simp [needsRwa, EvaluationRequest.on, hrwa])
  obtain ⟨quantity, hquantity, -, j, l, -, hj, hl, -⟩ := hpermits.quantity
  have hpos : 0 < k := lt_of_le_of_ne hk.nonneg (Ne.symm hne)
  -- enough purchases to exceed the maximum on their own
  obtain ⟨n, hn⟩ : ∃ n : ℕ, l < n * k :=
    ⟨⌊l / k⌋₊ + 1, (div_lt_iff₀ hpos).mp (mod_cast Nat.lt_floor_add_one (l / k))⟩
  have hterms' : objectAt mandate.extensions "commerce" = some terms := hunder'.mandate ▸ hterms
  obtain ⟨usage, ho⟩ := exists_ordered hu hunder' hp' hone hterms' h hfree hk hm n
    (by rw [mul_zero]; exact hm.nonneg)
  refine historyDependent_of_blocks hu hpermissible ho.reachable ho.records
    (.inr (.inr ⟨hrwa, limits, quantity, hlimits, hquantity, ?_⟩))
  rintro ⟨x', j', l', hx', hj', hl', hle'⟩
  rw [hx'.unique ho.records.quantity, hj'.unique hj, hl'.unique hl] at hle'
  have hnonneg := hj.nonneg
  linarith

/-- The members of an RWA context that say how much is issued over what. -/
def issuedMembers : List String := ["quantity", "current_supply", "reserve", "maximum_supply"]

/-- A context of the same target that issues a quantity from nothing, backed by as much. -/
def issueAll (members : Record) (quantity : String) : Record :=
  [("quantity", .str quantity), ("current_supply", .str "0"), ("reserve", .str quantity)]
    ++ members.filter fun m => !issuedMembers.contains m.1

/-- Every other member is as it was. -/
theorem lookup_issueAll (members : Record) (quantity : String) {field : String}
    (h : field ∉ issuedMembers) : (issueAll members quantity).lookup field = members.lookup field := by
  have hne : ∀ {other}, other ∈ issuedMembers → field ≠ other := fun hother =>
    (ne_of_mem_of_not_mem hother h).symm
  have hkept : (!issuedMembers.contains field) = true := by simpa using h
  rw [issueAll, List.cons_append, List.cons_append, List.cons_append, List.nil_append,
    List.lookup_cons_of_ne (hne (by simp [issuedMembers])),
    List.lookup_cons_of_ne (hne (by simp [issuedMembers])),
    List.lookup_cons_of_ne (hne (by simp [issuedMembers])),
    List.lookup_filter_key (fun name => !issuedMembers.contains name), if_pos hkept]

/-- The RWA part of a request, for the largest quantity that the terms admit. -/
def largestIssue (request : EvaluationRequest) (members : Record) (quantity : String) :
    EvaluationRequest :=
  { request with
    usage := {}
    envelope := { request.envelope with extensions := none }
    commerce := none
    rwa := some (.obj (issueAll members quantity)) }

theorem permits_largestIssue (hu : Unguarded request.mandate) (hc : request.consumption = none)
    (hp : Permits engine (request.on {}) now) {members terms : Record}
    (hmembers : request.rwa = some (.obj members))
    (hterms : objectAt request.mandate.extensions "rwa" = some terms)
    (h : RwaPermits engine terms request.envelope request.rwa (normalizedUsage {}) false now)
    {m : ℚ} (hm : Denotes (optionText engine (terms.lookup "max_quantity")) m) :
    Permits engine
      (largestIssue request members (optionText engine (terms.lookup "max_quantity"))) now where
  time := hp.time
  mandate := { hp.mandate with }
  link := hp.link
  agrees := fun _ hsupplied => by cases hc.symm.trans hsupplied
  consumption := by
    have hlimits : request.mandate.limits.getD [] = [] := by rw [hu.limits, Option.getD_none]
    refine ⟨rfl, fun _ => List.not_mem_nil, ?_, ?_, ?_, ?_⟩
    · intro n hn
      cases (congrArg (List.lookup "max_calls") hlimits).symm.trans hn
    · intro _ limit hlimit
      cases (congrArg (quantityLimit engine) hlimits).symm.trans hlimit
    · intro total htotal
      cases (congrArg (List.lookup "max_total") hlimits).symm.trans htotal
    · intro total htotal
      cases (congrArg (List.lookup "max_total") hlimits).symm.trans htotal
  commerce := by
    intro hneeds
    simp [needsCommerce, largestIssue, hu.profile] at hneeds
  rwa := by
    refine fun _ => ⟨rfl, terms, hterms, ?_⟩
    have hkept : ∀ {field}, field ∉ issuedMembers →
        get (some (.obj (issueAll members (optionText engine (terms.lookup "max_quantity"))))) field
          = get request.rwa field := fun hfield => by
      rw [hmembers, get_obj, get_obj, lookup_issueAll members _ hfield]
    have hnone : (issueAll members (optionText engine (terms.lookup "max_quantity"))).lookup
        "maximum_supply" = none := by
      rw [issueAll, List.cons_append, List.cons_append, List.cons_append, List.nil_append,
        List.lookup_cons_of_ne (by decide), List.lookup_cons_of_ne (by decide),
        List.lookup_cons_of_ne (by decide),
        List.lookup_filter_key (fun name => !issuedMembers.contains name)]
      rfl
    refine ⟨rfl, ?_, ?_, ⟨_, rfl, 0, m, m, denotes_zero, hm, hm, (zero_add m).le⟩, ⟨?_, ?_, ?_⟩,
      ?_, ?_, fun _ => rfl⟩
    · have htarget := h.target
      simp only [sameFields, List.all_eq_true] at htarget ⊢
      intro field hfield
      refine (congrArg (strictEq · (terms.lookup field)) (hkept ?_)).trans (htarget field hfield)
      revert field
      decide
    · refine (@hkept "claim_valid_until" (by decide)).symm ▸ h.claim
    · exact ⟨"0", _, _, rfl, rfl, rfl, 0, m, m, denotes_zero, hm, hm, (zero_add m).le⟩
    · intro hset
      rw [largestIssue, get_obj, hnone] at hset
      cases hset
    · intro htracked
      cases htracked
    · rw [largestIssue, hkept (by decide)]
      exact h.approvals
    · intro role hrole
      rw [largestIssue, hkept (by decide)]
      exact h.roles role hrole

/-- An issue adds its quantity to those that are recorded. -/
theorem historyDependent_of_issue (hu : Unguarded mandate)
    (hpermissible : Permissible engine mandate request) (hrwa : truthy request.rwa = true)
    {text : String} {k : ℚ}
    (htext : get request.rwa "quantity" = some (.str text)) (hk : Denotes text k) (hne : k ≠ 0) :
    HistoryDependent engine mandate := by
  obtain ⟨hunder, now, hp⟩ := id hpermissible
  obtain ⟨members, hmembers⟩ : ∃ members, request.rwa = some (.obj members) := by
    cases hvalue : request.rwa with
    | none => rw [hvalue] at htext; cases htext
    | some v =>
      rw [hvalue] at htext
      cases v with
      | obj members => exact ⟨members, rfl⟩
      | _ => cases htext
  obtain ⟨-, terms, hterms, h⟩ := hp.rwa (by simp [needsRwa, EvaluationRequest.on, hrwa])
  obtain ⟨-, -, -, -, m, -, -, hm, -⟩ := h.quantity
  have hu' : Unguarded request.mandate := hunder.mandate ▸ hu
  have hlargest := permits_largestIssue hu' hunder.consumption hp hmembers hterms h hm
  have hunder' : Under mandate
      (largestIssue request members (optionText engine (terms.lookup "max_quantity"))) :=
    ⟨hunder.mandate, hunder.consumption⟩
  have hamount : (effectiveConsumption engine (largestIssue request members
      (optionText engine (terms.lookup "max_quantity")))).amount = "0" := by
    simp only [effectiveConsumption, largestIssue, hunder.consumption, Option.getD_none]
  obtain ⟨next, hreach, -, hr⟩ := ReachableUsage.empty.extend hunder' hlargest records_empty
    (hamount ▸ denotes_zero) rfl hm
  have hpos : 0 < k := lt_of_le_of_ne hk.nonneg (Ne.symm hne)
  refine historyDependent_of_blocks hu hpermissible hreach hr
    (.inr (.inr ⟨hrwa, terms, text, hterms, htext, ?_⟩))
  rintro ⟨x, k', m', hx, hk', hm', hle⟩
  rw [hx.unique hr.quantity, hk'.unique hk, hm'.unique hm] at hle
  linarith

/-! ### The claim about the middleware -/

/-- The authority under an unguarded mandate depends on history exactly if some permissible request
leaves a trace. -/
theorem historyDependent_iff (hu : Unguarded mandate) :
    HistoryDependent engine mandate ↔ ¬ Traceless engine mandate := by
  refine ⟨fun h ht => not_historyDependent_of_traceless hu ht h, fun h => ?_⟩
  by_contra hindependent
  have hone : ∀ request, Permissible engine mandate request →
      truthy ((objectAt mandate.extensions "rwa").bind (·.lookup "one_time")) = false := by
    intro request hpermissible
    by_contra hset
    exact hindependent (historyDependent_of_oneTime hu hpermissible (eq_true_of_ne_false hset))
  have htotal : ∀ request, Permissible engine mandate request → ∀ context,
      request.commerce = some context → Denotes context.totalAmount 0 := by
    intro request hpermissible context hcontext
    by_contra hne
    exact hindependent (historyDependent_of_total hu hpermissible (hone request hpermissible)
      hcontext hne)
  refine h ⟨hone, htotal, fun request hpermissible hrwa other hother text k htext hk => ?_⟩
  by_contra hne
  obtain ⟨hunder, now, hp⟩ := id hother
  cases hcommerce : other.commerce with
  | some context =>
    simp only [effectiveConsumption, hcommerce] at htext
    obtain rfl := Json.str.inj htext
    exact hindependent (historyDependent_of_purchase hu hpermissible hrwa hother
      (hone other hother) hcommerce (htotal other hother context hcommerce) hk hne)
  | none =>
    by_cases hset : truthy other.rwa = true
    · obtain ⟨-, _, -, h⟩ := hp.rwa (by simp [needsRwa, EvaluationRequest.on, hset])
      obtain ⟨quantity, hquantity, -⟩ := h.quantity
      have hquantity' : get other.rwa "quantity" = some (.str quantity) := hquantity
      simp only [effectiveConsumption, hcommerce, hquantity', nullish, Option.getD_some] at htext
      obtain rfl := Json.str.inj htext
      exact hindependent (historyDependent_of_issue hu hother hset hquantity hk hne)
    · have hnone := get_of_not_truthy (eq_false_of_ne_true hset) "quantity"
      simp only [effectiveConsumption, hcommerce, hnone, hunder.consumption, nullish,
        Option.getD_none, Option.map_none] at htext
      obtain rfl := Json.str.inj htext
      exact hne (hk.unique denotes_zero)

/-- Without a usage store no mandate that requires one gets to the handler. -/
theorem neverInvoked_of_required (h : requiresPersistentUsage mandate = true) :
    NeverInvoked engine mandate := by
  rintro schemas options middleware request trace context hstore hcreate hreach rfl
  unfold createOatiMiddleware at hcreate
  split_ifs at hcreate
  obtain rfl := Except.ok.inj hcreate
  obtain ⟨correlationId, extracted, v, evaluation, hgate, rfl⟩ := gate_of_reaches hreach
  obtain ⟨-, -, -, -, -, previous, -, -, -, stored, -, -, -, -, hstored⟩ := hgate
  rw [Handling.Stored, if_neg (by rw [hstore]; exact Bool.false_ne_true)] at hstored
  rw [show requiresPersistentUsage extracted.mandate.view = true from h] at hstored
  cases hstored.2

/-- A mandate whose authority depends on history is never evaluated without history, exactly if
the middleware asks for a store or no permissible request leaves a trace. -/
theorem neverWithoutHistory_iff (engine : Engine) (mandate : AgentMandate) :
    (HistoryDependent engine mandate →
      requiresPersistentUsage mandate = true ∧ NeverInvoked engine mandate) ↔
    requiresPersistentUsage mandate = true ∨ Traceless engine mandate := by
  cases hrequired : requiresPersistentUsage mandate with
  | true =>
    exact iff_of_true (fun _ => ⟨rfl, neverInvoked_of_required hrequired⟩) (.inl rfl)
  | false =>
    have hdepends := @historyDependent_iff engine mandate (unguarded_of_not_required hrequired)
    constructor
    · intro h
      refine .inr (by_contra fun htraces => ?_)
      cases (h (hdepends.mpr htraces)).1
    · rintro (hfalse | ht) hdependent
      · cases hfalse
      · exact absurd ht (hdepends.mp hdependent)

/-- The broker may purchase once, without limits. -/
def onceMandate : AgentMandate :=
  { brokerMandate with
    limits := none
    extensions := some [("rwa", .obj [("one_time", .bool true)])] }

/-- A purchase under that mandate. -/
def oncePurchase : EvaluationRequest :=
  { evaluationTime := "2026-06-01T12:00:00Z", mandate := onceMandate
    envelope :=
      { id := "oati:transaction:1", agentId := "oati:agent:broker"
        organisationId := "oati:organisation:desk", mandateId := "oati:mandate:broker"
        action := "purchase", resource := "quotes", purpose := some "procurement" } }

/-- The usage after it. -/
def onceUsage : UsageSnapshot :=
  { calls := some 1, amount := some "0", currency := some "", quantity := some "0"
    consumed := some true, idempotencyKeys := some [], mintedSupply := some "0" }

/-- The second purchase is denied, if the first was recorded; but no store is required. -/
theorem onceMandate_evaluated_without_history :
    ¬ (HistoryDependent plainEngine onceMandate →
      requiresPersistentUsage onceMandate = true ∧ NeverInvoked plainEngine onceMandate) := by
  intro h
  have hunder : Under onceMandate oncePurchase := ⟨rfl, rfl⟩
  have hfirst : evaluateAuthority plainEngine oncePurchase
      = .ok ⟨.allow, "oati:mandate:broker", "oati:transaction:1", [], onceUsage⟩ := by
    decide +kernel
  have hsecond : evaluateAuthority plainEngine (oncePurchase.on onceUsage)
      = .ok ⟨.deny, "oati:mandate:broker", "oati:transaction:1", ["MANDATE_ALREADY_CONSUMED"],
        onceUsage⟩ := by
    decide +kernel
  have hreach := ReachableUsage.empty.step hunder hfirst rfl
  have hrequired := h ⟨oncePurchase, hunder, ⟨_, hfirst, rfl⟩, onceUsage, hreach, _, hsecond, rfl,
    "MANDATE_ALREADY_CONSUMED", by decide, by decide⟩
  exact absurd hrequired.1 (by decide)

end Oati.TypeScript

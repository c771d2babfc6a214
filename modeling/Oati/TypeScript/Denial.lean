import Oati.TypeScript.Codes
import Oati.TypeScript.Supply

/-!
# Usage after a denial

A denied request returns the usage as it was read, with the absent members filled in. The checks
read the filled-in members in either case, except one: the supply is compared with the recorded
one only if the usage has a `minted_supply`, which the returned usage always has.

* `checkRwa_tracked`: what tracking the supply changes in `checkRwa`.
* `denial_neutral_iff`: a request is decided alike before and after a denial exactly if the
  comparison does not start with that denial, or finds a supply of zero.
-/

namespace Oati.TypeScript

variable {engine : Engine}

/-! ### Normalized usage -/

/-- Reading a normalized usage again changes nothing. -/
theorem normalizedUsage_toSnapshot (usage : UsageSnapshot) :
    normalizedUsage (normalizedUsage usage).toSnapshot = normalizedUsage usage := by
  simp [normalizedUsage, Usage.toSnapshot, sortStrings_sortStrings]

/-! ### Tracking the supply -/

/-- The code of a supply that is not the recorded one. -/
def SUPPLY_MISMATCH : String := "RWA_SUPPLY_STATE_MISMATCH"


/-- The roles are checked alike whatever was found before, and no code gets lost. -/
theorem exists_checkRequiredRoles {approvalRoles : Option Value} {roles : List String}
    {reasons next : Reasons} (h : checkRequiredRoles approvalRoles roles reasons = .ok next)
    (other : Reasons) : ∃ next', checkRequiredRoles approvalRoles roles other = .ok next' ∧
      ∀ code ∈ other, code ∈ next' := by
  induction roles generalizing reasons other with
  | nil => exact ⟨other, rfl, fun _ => id⟩
  | cons role rest ih =>
    simp only [checkRequiredRoles, bind_eq_ok] at h
    obtain ⟨present, hpresent, hrest⟩ := h
    obtain ⟨next', hnext', hkept⟩ := ih hrest (other.addIf (!present) "RWA_REQUIRED_ROLE_MISSING")
    refine ⟨next', ?_, fun code hcode => hkept code (Reasons.mem_addIf_of_mem hcode)⟩
    rw [checkRequiredRoles]
    exact bind_eq_ok.mpr ⟨present, hpresent, hnext'⟩

/-- The second operand of `&&` decides when the first is true. -/
theorem andThrow_true_eq_ok {x : Except JsError ℤ} {b : Bool} :
    andThrow (.ok true) (do return decide ((← x) ≠ 0)) = .ok b ↔
      ∃ c, x = .ok c ∧ b = decide (c ≠ 0) := by
  cases x <;> simp [andThrow, bind, Except.bind, pure, Except.pure, eq_comm]

/-- What tracking the supply changes in `checkRwa`: nothing if the recorded supply is the current
one, and otherwise there is the code that the untracked check never adds. -/
theorem checkRwa_tracked {mandate : AgentMandate} {envelope : TransactionEnvelope}
    {context : Option Value} {usage : Usage} {now : ℤ} {reasons next : Reasons}
    (h : checkRwa engine mandate envelope context usage false now reasons = .ok next)
    (hcontext : truthy context = true) {limits : Record}
    (hlimits : objectAt mandate.extensions "rwa" = some limits)
    (hr : SUPPLY_MISMATCH ∉ reasons) {m : ℚ} (hm : Denotes usage.mintedSupply m) :
    SUPPLY_MISMATCH ∉ next ∧
    ∃ s p, get context "current_supply" = some (.str s) ∧ Denotes s p ∧
      (m = p → checkRwa engine mandate envelope context usage true now reasons = .ok next) ∧
      (m ≠ p → ∃ next', SUPPLY_MISMATCH ∈ next' ∧
        checkRwa engine mandate envelope context usage true now reasons = .ok next') := by
  simp only [checkRwa, hcontext, hlimits, bind_eq_ok, pure_eq_ok, decimalText_eq_ok] at h ⊢
  obtain ⟨t, ht, quantity, hq, total, htotal, c, hle, supply, hsupply, result, hresult, reserve,
    hreserve, c', hle', maximum, hmaximum, minted, hminted, before, hroles, rfl⟩ := h
  obtain ⟨p, -, hp, -⟩ := addDecimal_denotes hresult
  obtain rfl : false = minted := by simpa [andThrow, bind, Except.bind, pure, Except.pure] using hminted
  refine ⟨?_, supply, p, hsupply, hp, ?_, ?_⟩
  · rw [Reasons.mem_addIf_of_ne (by decide), mem_checkRequiredRoles hroles (by decide)]
    simpa (disch := decide) only [Reasons.mem_addIf_of_ne, Reasons.addIf_false] using hr
  · rintro rfl
    have hequal : compareDecimal usage.mintedSupply supply = .ok 0 :=
      compareDecimal_eq_zero_iff.mpr ⟨m, hm, hp⟩
    exact ⟨t, ht, quantity, hq, total, htotal, c, hle, supply, hsupply, result, hresult, reserve,
      hreserve, c', hle', maximum, hmaximum, false, andThrow_true_eq_ok.mpr ⟨0, hequal, rfl⟩,
      before, hroles, rfl⟩
  · intro hne
    obtain ⟨d, hd⟩ : ∃ d, compareDecimal usage.mintedSupply supply = .ok d :=
      ⟨_, compareDecimal_eq_ok.mpr ⟨m, p, hm, hp, rfl⟩⟩
    have hd0 : d ≠ 0 := by
      rintro rfl
      obtain ⟨q, hmq, hpq⟩ := compareDecimal_eq_zero_iff.mp hd
      exact hne ((hm.unique hmq).trans (hpq.unique hp))
    obtain ⟨before', hroles', hkept⟩ := exists_checkRequiredRoles hroles _
    refine ⟨_, ?_, t, ht, quantity, hq, total, htotal, c, hle, supply, hsupply, result, hresult,
      reserve, hreserve, c', hle', maximum, hmaximum, true,
      andThrow_true_eq_ok.mpr ⟨d, hd, (decide_eq_true hd0).symm⟩, before', hroles', rfl⟩
    exact Reasons.mem_addIf_of_mem
      (hkept _ (Reasons.mem_addIf_of_mem Reasons.mem_addIf_true))

/-- Without a context or without terms there is nothing to compare. -/
theorem checkRwa_of_missing {mandate : AgentMandate} {envelope : TransactionEnvelope}
    {context : Option Value} {usage : Usage} {tracked : Bool} {now : ℤ} {reasons : Reasons}
    (h : truthy context = false ∨ objectAt mandate.extensions "rwa" = none) :
    checkRwa engine mandate envelope context usage tracked now reasons
      = .ok (reasons.add "RWA_CONTEXT_REQUIRED") := by
  unfold checkRwa
  split
  next limits hcontext hlimits =>
    obtain hfalse | hnone := h
    · rw [hcontext] at hfalse
      cases hfalse
    · rw [hlimits] at hnone
      cases hnone
  next => rfl

/-! ### A request before and after a denial -/

/-- The request as it is evaluated on the usage that a denial returns. -/
def afterDenial (request : EvaluationRequest) : EvaluationRequest :=
  { request with usage := (normalizedUsage request.usage).toSnapshot }

/-- Nothing changes for a request when the supply is tracked from then on: the usage tracks it
already, the request has no RWA context or the mandate no terms for one, or its current supply is
the zero that an absent member is read as. -/
def IgnoresTracking (request : EvaluationRequest) : Prop :=
  request.usage.mintedSupply.isSome = true ∨ truthy request.rwa = false ∨
    objectAt request.mandate.extensions "rwa" = none ∨
    ∃ s, get request.rwa "current_supply" = some (.str s) ∧ Denotes s 0

/-- After a denial `checkRwa` finds what it found before, or the code of a supply that is not the
recorded one. -/
theorem checkRwaTerms_afterDenial {request : EvaluationRequest} {now : ℤ}
    {reasons next : Reasons} (h : checkRwaTerms engine request now reasons = .ok next)
    (hr : SUPPLY_MISMATCH ∉ reasons) :
    (IgnoresTracking request → checkRwaTerms engine (afterDenial request) now reasons = .ok next) ∧
    (¬ IgnoresTracking request → SUPPLY_MISMATCH ∉ next ∧ ∃ next', SUPPLY_MISMATCH ∈ next' ∧
      checkRwaTerms engine (afterDenial request) now reasons = .ok next') := by
  have hafter : checkRwaTerms engine (afterDenial request) now reasons
      = if needsRwa request then
          checkRwa engine request.mandate request.envelope request.rwa
            (normalizedUsage request.usage) true now reasons
        else .ok reasons := by
    have husage : normalizedUsage (afterDenial request).usage = normalizedUsage request.usage :=
      normalizedUsage_toSnapshot request.usage
    unfold checkRwaTerms
    rw [husage]
    rfl
  unfold checkRwaTerms at h
  rw [hafter]
  by_cases htracked : request.usage.mintedSupply.isSome = true
  · rw [htracked] at h
    exact ⟨fun _ => h, fun hnot => absurd (.inl htracked) hnot⟩
  · have huntracked : request.usage.mintedSupply = none := by simpa using htracked
    have hminted : (normalizedUsage request.usage).mintedSupply = "0" := by
      simp [normalizedUsage, huntracked]
    by_cases hcontext : truthy request.rwa = false
    · rw [checkRwa_of_missing (.inl hcontext)] at h
      rw [checkRwa_of_missing (.inl hcontext)]
      exact ⟨fun _ => h, fun hnot => absurd (.inr (.inl hcontext)) hnot⟩
    by_cases hterms : objectAt request.mandate.extensions "rwa" = none
    · rw [checkRwa_of_missing (.inr hterms)] at h
      rw [checkRwa_of_missing (.inr hterms)]
      exact ⟨fun _ => h, fun hnot => absurd (.inr (.inr (.inl hterms))) hnot⟩
    have htruthy : truthy request.rwa = true := by simpa using hcontext
    obtain ⟨limits, hlimits⟩ := Option.ne_none_iff_exists'.mp hterms
    have hneeds : needsRwa request = true := by simp [needsRwa, htruthy]
    rw [if_pos hneeds, Bool.eq_false_iff.mpr htracked] at h
    rw [if_pos hneeds]
    obtain ⟨hnotMem, s, p, hs, hp, hsame, hdiffers⟩ :=
      checkRwa_tracked h htruthy hlimits hr (m := 0) (by rw [hminted]; exact denotes_zero)
    refine ⟨?_, fun hnot => ⟨hnotMem, hdiffers ?_⟩⟩
    · rintro (hsome | hfalse | hnone | ⟨s', hs', hzero⟩)
      · exact absurd hsome htracked
      · exact absurd hfalse hcontext
      · exact absurd hnone hterms
      · obtain rfl : s = s' := by simpa [hs] using hs'
        exact hsame (hzero.unique hp)
    · rintro rfl
      exact hnot (.inr (.inr (.inr ⟨s, hs, hp⟩)))

theorem checkAuthority_afterDenial {request : EvaluationRequest} {reasons : Reasons}
    (h : checkAuthority engine request = .ok reasons) :
    (IgnoresTracking request → checkAuthority engine (afterDenial request) = .ok reasons) ∧
    (¬ IgnoresTracking request → SUPPLY_MISMATCH ∉ reasons ∧ ∃ reasons',
      SUPPLY_MISMATCH ∈ reasons' ∧ checkAuthority engine (afterDenial request) = .ok reasons') := by
  have husage : normalizedUsage (afterDenial request).usage = normalizedUsage request.usage :=
    normalizedUsage_toSnapshot request.usage
  simp only [checkAuthority, bind_eq_ok] at h
  obtain ⟨now, htime, r, hmandate, r', hconsumption, r'', hcommerce, hrwa⟩ := h
  -- no check before `checkRwa` adds the code
  have hnotMem : SUPPLY_MISMATCH ∉ r'' := by
    rw [mem_checkCommerceTerms hcommerce (by decide), mem_checkConsumption hconsumption (by decide),
      mem_checkConsumptionContext (by decide)]
    exact notMem_checkMandate hmandate (by decide)
  have hafter : ∀ next, checkRwaTerms engine (afterDenial request) now r'' = .ok next →
      checkAuthority engine (afterDenial request) = .ok next := by
    intro next hnext
    simp only [checkAuthority, bind_eq_ok]
    refine ⟨now, htime, r, hmandate, r', ?_, r'', ?_, hnext⟩
    · rw [husage]
      exact hconsumption
    · rw [checkCommerceTerms, husage]
      exact hcommerce
  obtain ⟨hsame, hdiffers⟩ := checkRwaTerms_afterDenial hrwa hnotMem
  refine ⟨fun hignores => hafter _ (hsame hignores), fun hnot => ?_⟩
  obtain ⟨hnext, next', hmem, hnext'⟩ := hdiffers hnot
  exact ⟨hnext, next', hmem, hafter _ hnext'⟩

/-- The decision is read off the reason codes. -/
def decisionOf (reasons : Reasons) : Decision := if sortStrings reasons = [] then .allow else .deny

theorem decisionOf_of_mem {reasons : Reasons} {code : String} (h : code ∈ reasons) :
    decisionOf reasons = .deny := if_neg (List.ne_nil_of_mem (mem_sortStrings.mpr h))

theorem evaluateAuthority_eq_ok {request : EvaluationRequest} {result : EvaluationResult} :
    evaluateAuthority engine request = .ok result ↔ ∃ reasons next,
      checkAuthority engine request = .ok reasons ∧
      nextUsage engine request (decisionOf reasons) = .ok next ∧
      result = { decision := decisionOf reasons, mandateId := request.mandate.id,
                 transactionId := request.envelope.id, reasonCodes := sortStrings reasons,
                 nextUsage := next.toSnapshot } := by
  simp only [evaluateAuthority, bind_eq_ok, pure_eq_ok]
  constructor
  · rintro ⟨reasons, hreasons, next, hnext, rfl⟩
    exact ⟨reasons, next, hreasons, hnext, rfl⟩
  · rintro ⟨reasons, next, hreasons, hnext, rfl⟩
    exact ⟨reasons, hreasons, next, hnext, rfl⟩

/-- A request that is evaluated on the usage a denial returned: the decision and the reason codes
are those on the usage before the denial exactly if nothing in it depends on whether the supply
is tracked. -/
theorem denial_neutral_iff {first : EvaluationRequest} (second : EvaluationRequest)
    {denied result : EvaluationResult}
    (hdenied : evaluateAuthority engine first = .ok denied) (hdeny : denied.decision = .deny)
    (heval : evaluateAuthority engine { second with usage := first.usage } = .ok result) :
    ∃ result', evaluateAuthority engine { second with usage := denied.nextUsage } = .ok result' ∧
      (result'.decision = result.decision ∧ result'.reasonCodes = result.reasonCodes ↔
        IgnoresTracking { second with usage := first.usage }) := by
  have husage : normalizedUsage denied.nextUsage = normalizedUsage first.usage := by
    rw [nextUsage_of_deny hdenied hdeny]
    exact normalizedUsage_toSnapshot first.usage
  have hafter : { second with usage := denied.nextUsage }
      = afterDenial { second with usage := first.usage } := by
    rw [nextUsage_of_deny hdenied hdeny]
    rfl
  obtain ⟨reasons, next, hreasons, hnext, rfl⟩ := evaluateAuthority_eq_ok.mp heval
  obtain ⟨hsame, hdiffers⟩ := checkAuthority_afterDenial hreasons
  rw [hafter]
  by_cases hignores : IgnoresTracking { second with usage := first.usage }
  · have hnext' : nextUsage engine (afterDenial { second with usage := first.usage })
        (decisionOf reasons) = .ok next := by
      rw [← hnext, ← hafter]
      cases decisionOf reasons with
      | allow =>
        change applyConsumption (normalizedUsage denied.nextUsage) _ _ = _
        rw [husage]
        rfl
      | deny => exact congrArg Except.ok husage
    exact ⟨_, evaluateAuthority_eq_ok.mpr ⟨reasons, next, hsame hignores, hnext', rfl⟩,
      by simp [hignores]⟩
  · obtain ⟨hnotMem, reasons', hmem, hreasons'⟩ := hdiffers hignores
    have hdecision := decisionOf_of_mem hmem
    refine ⟨_, evaluateAuthority_eq_ok.mpr
      ⟨reasons', _, hreasons', by rw [hdecision]; rfl, rfl⟩, ?_⟩
    simp only [hignores, iff_false]
    rintro ⟨-, hcodes⟩
    exact hnotMem (mem_sortStrings.mp (hcodes ▸ mem_sortStrings.mpr hmem))

/-- The forty shares that follow on sixty. -/
def secondIssuance : EvaluationRequest := issuance "mint" "40" "60"

/-- An issuance that the mandate does not allow. -/
def foreignIssuance : EvaluationRequest := issuance "mint" "1000" "0"

/-- The answer to it: the usage as it was read. -/
def foreignResult : EvaluationResult :=
  { issuanceResult (sharesUsage 0 "0" "0") with
    decision := .deny
    reasonCodes := ["RWA_QUANTITY_EXCEEDED", "RWA_RESERVE_EXCEEDED"] }

/-- A first issuance of sixty shares is decided alike after that denial. -/
theorem denial_neutral_iff_issuance :
    ∃ result', evaluateAuthority plainEngine
        { issuance "mint" "60" "0" with usage := foreignResult.nextUsage } = .ok result' ∧
      (result'.decision = .allow ∧ result'.reasonCodes = [] ↔
        IgnoresTracking (issuance "mint" "60" "0")) :=
  have hdenied : evaluateAuthority plainEngine foreignIssuance = .ok foreignResult := by
    decide +kernel
  have heval : evaluateAuthority plainEngine (issuance "mint" "60" "0")
      = .ok (issuanceResult (sharesUsage 1 "60" "60")) := by
    decide +kernel
  denial_neutral_iff (issuance "mint" "60" "0") hdenied rfl heval

/-- Shares that are issued on top of sixty which the usage does not track: allowed before the
denial, and not after it. -/
theorem secondIssuance_denied :
    evaluateAuthority plainEngine foreignIssuance = .ok foreignResult ∧
      evaluateAuthority plainEngine secondIssuance
        = .ok (issuanceResult (sharesUsage 1 "40" "100")) ∧
      evaluateAuthority plainEngine { secondIssuance with usage := foreignResult.nextUsage }
        = .ok { foreignResult with reasonCodes := ["RWA_SUPPLY_STATE_MISMATCH"] } :=
  ⟨by decide +kernel, by decide +kernel, by decide +kernel⟩

end Oati.TypeScript

import Oati.TypeScript.Evaluator

/-!
# The codes of a check

A check adds codes of its own to the reasons it is given, and removes none. So a code that is not
one of a check's own is there after the check exactly if it was there before: one lemma for each
check, with the list of its codes.
-/

namespace Oati.TypeScript

variable {engine : Engine} {code : String}

namespace Reasons

variable {reasons : Reasons} {condition : Bool} {other : String}

theorem mem_add_of_ne (hne : other ≠ code) : other ∈ reasons.add code ↔ other ∈ reasons := by
  unfold add
  split
  · rfl
  · simp [hne]

theorem mem_addIf_of_ne (hne : other ≠ code) :
    other ∈ reasons.addIf condition code ↔ other ∈ reasons := by
  cases condition
  · rfl
  · exact mem_add_of_ne hne

theorem mem_addUnlessSome_of_ne {test : String → Bool} (hne : other ≠ code) :
    other ∈ reasons.addUnlessSome test condition code ↔ other ∈ reasons := mem_addIf_of_ne hne

theorem mem_add_of_mem (h : other ∈ reasons) : other ∈ reasons.add code := by
  unfold add
  split_ifs <;> simp [h]

theorem mem_addIf_of_mem (h : other ∈ reasons) : other ∈ reasons.addIf condition code := by
  cases condition
  · exact h
  · exact mem_add_of_mem h

theorem addIf_false : reasons.addIf false code = reasons := rfl

theorem mem_addIf_true : code ∈ reasons.addIf true code := mem_add

theorem mem_addIf_self : code ∈ reasons.addIf condition code ↔ condition = true ∨ code ∈ reasons := by
  cases condition with
  | false => simp [addIf_false]
  | true => simp [mem_addIf_true]

end Reasons

theorem mem_checkSetConstraint {allowed : Option (List String)} {actual : Option String}
    {own : String} {reasons : Reasons} (hne : code ≠ own) :
    code ∈ checkSetConstraint allowed actual own reasons ↔ code ∈ reasons := by
  cases allowed with
  | none => rfl
  | some items => exact Reasons.mem_addIf_of_ne hne

/-! ### Delegation -/

theorem mem_checkProfileSubset {child parent : AgentMandate} {reasons next : Reasons}
    (h : checkProfileSubset child parent reasons = .ok next)
    (hcode : code ∉ ["CHILD_PROFILE_AMPLIFICATION", "CHILD_COMMERCE_AMPLIFICATION",
      "CHILD_RWA_AMPLIFICATION"]) : code ∈ next ↔ code ∈ reasons := by
  simp only [List.mem_cons, List.not_mem_nil, or_false, not_or] at hcode
  obtain ⟨hprofile, hcommerce, hrwa⟩ := hcode
  unfold checkProfileSubset at h
  by_cases hsame : child.profile = parent.profile
  · rw [if_neg (not_not_intro hsame)] at h
    simp only [bind_eq_ok, pure_eq_ok] at h
    obtain ⟨commerce, -, rwa, -, rfl⟩ := h
    rw [Reasons.mem_addIf_of_ne hrwa, Reasons.mem_addIf_of_ne hcommerce]
  · rw [if_pos hsame, pure_eq_ok] at h
    rw [← h, Reasons.mem_addIf_of_ne hprofile]

/-- The codes of `checkMandate`, those of the delegation included. -/
def mandateCodes : List String :=
  ["MANDATE_NOT_ACTIVE", "MANDATE_NOT_YET_ACTIVE", "MANDATE_EXPIRED", "MANDATE_REFERENCE_MISMATCH",
    "SUBJECT_MISMATCH", "ACTION_NOT_ALLOWED", "RESOURCE_NOT_ALLOWED", "PURPOSE_MISMATCH",
    "COUNTERPARTY_NOT_ALLOWED", "DESTINATION_NOT_ALLOWED", "PROFILE_MISMATCH",
    "PARENT_MANDATE_REQUIRED", "PARENT_MANDATE_MISMATCH", "PARENT_MANDATE_NOT_ACTIVE",
    "DELEGATION_NOT_ALLOWED", "CHILD_ACTION_AMPLIFICATION", "CHILD_RESOURCE_AMPLIFICATION",
    "CHILD_COUNTERPARTY_AMPLIFICATION", "CHILD_DESTINATION_AMPLIFICATION",
    "CHILD_PURPOSE_AMPLIFICATION", "CHILD_TIME_AMPLIFICATION", "CHILD_LIMIT_AMPLIFICATION",
    "CHILD_DATA_USE_AMPLIFICATION", "CHILD_DELEGATION_AMPLIFICATION", "CHILD_PROFILE_AMPLIFICATION",
    "CHILD_COMMERCE_AMPLIFICATION", "CHILD_RWA_AMPLIFICATION"]

theorem notMem_checkMandate {request : EvaluationRequest} {now : ℤ} {next : Reasons}
    (h : checkMandate engine request now = .ok next) (hcode : code ∉ mandateCodes) :
    code ∉ next := by
  simp only [mandateCodes, List.mem_cons, List.not_mem_nil, or_false, not_or] at hcode
  unfold checkMandate at h
  simp only [bind_eq_ok] at h
  obtain ⟨_, -, _, -, h⟩ := h
  cases hparent : request.parentMandate with
  | none =>
    rw [hparent, pure_eq_ok] at h
    rw [← h]
    simp only [Reasons.mem_addIf_of_ne, mem_checkSetConstraint, hcode, ne_eq, not_false_eq_true,
      List.not_mem_nil]
  | some parent =>
    rw [hparent] at h
    simp only [checkChildMandate, bind_eq_ok] at h
    obtain ⟨_, -, _, -, _, -, hprofile⟩ := h
    rw [mem_checkProfileSubset hprofile (by simp [hcode])]
    simp only [Reasons.mem_addIf_of_ne, mem_checkSetConstraint, hcode, ne_eq, not_false_eq_true,
      List.not_mem_nil]

/-! ### Consumption -/

theorem mem_checkConsumptionContext {request : EvaluationRequest} {delta : EffectiveConsumption}
    {reasons : Reasons} (hcode : code ≠ "CONSUMPTION_CONTEXT_MISMATCH") :
    code ∈ checkConsumptionContext request delta reasons ↔ code ∈ reasons := by
  unfold checkConsumptionContext
  cases request.consumption with
  | none => rfl
  | some supplied => exact Reasons.mem_addIf_of_ne hcode

theorem mem_checkBudget {limits : Record} {usage : Usage} {delta : EffectiveConsumption}
    {reasons next : Reasons} (h : checkBudget limits usage delta reasons = .ok next)
    (hcode : code ∉ ["BUDGET_CURRENCY_MISMATCH", "BUDGET_EXCEEDED"]) :
    code ∈ next ↔ code ∈ reasons := by
  simp only [List.mem_cons, List.not_mem_nil, or_false, not_or] at hcode
  obtain ⟨hcurrency, hexceeded⟩ := hcode
  unfold checkBudget at h
  split at h
  · simp only [bind_eq_ok, pure_eq_ok] at h
    obtain ⟨_, -, _, -, rfl⟩ := h
    rw [Reasons.mem_addIf_of_ne hexceeded, Reasons.mem_addIf_of_ne hcurrency]
  · cases h
    rfl

theorem mem_checkConsumption {mandate : AgentMandate} {usage : Usage}
    {delta : EffectiveConsumption} {reasons next : Reasons}
    (h : checkConsumption engine mandate usage delta reasons = .ok next)
    (hcode : code ∉ ["MANDATE_ALREADY_CONSUMED", "IDEMPOTENCY_REPLAY", "CALL_LIMIT_EXCEEDED",
      "QUANTITY_LIMIT_EXCEEDED", "BUDGET_CURRENCY_MISMATCH", "BUDGET_EXCEEDED"]) :
    code ∈ next ↔ code ∈ reasons := by
  simp only [List.mem_cons, List.not_mem_nil, or_false, not_or] at hcode
  obtain ⟨hconsumed, hreplay, hcalls, hquantity, hcurrency, hbudget⟩ := hcode
  unfold checkConsumption at h
  simp only [bind_eq_ok] at h
  obtain ⟨_, -, h⟩ := h
  rw [mem_checkBudget h (by simp [hcurrency, hbudget]), Reasons.mem_addIf_of_ne hquantity,
    Reasons.mem_addIf_of_ne hcalls, Reasons.mem_addIf_of_ne hreplay,
    Reasons.mem_addIf_of_ne hconsumed]

/-! ### Profiles -/

/-- The codes of `checkCommerce`. -/
def commerceCodes : List String :=
  ["COMMERCE_CONTEXT_REQUIRED", "COMMERCE_MERCHANT_NOT_ALLOWED", "COMMERCE_SERVICE_NOT_ALLOWED",
    "COMMERCE_OFFER_NOT_ALLOWED", "COMMERCE_CURRENCY_MISMATCH", "COMMERCE_UNIT_PRICE_EXCEEDED",
    "COMMERCE_TOTAL_INVALID", "COMMERCE_BUDGET_EXCEEDED", "COMMERCE_QUANTITY_EXCEEDED",
    "COMMERCE_TERMS_MISMATCH", "IDEMPOTENCY_REPLAY", "COMMERCE_ENVELOPE_CONTEXT_MISMATCH"]

theorem mem_checkCommerceTerms {request : EvaluationRequest} {reasons next : Reasons}
    (h : checkCommerceTerms engine request reasons = .ok next) (hcode : code ∉ commerceCodes) :
    code ∈ next ↔ code ∈ reasons := by
  simp only [commerceCodes, List.mem_cons, List.not_mem_nil, or_false, not_or] at hcode
  unfold checkCommerceTerms at h
  by_cases hneeds : needsCommerce request = true
  · rw [if_pos hneeds] at h
    unfold checkCommerce at h
    split at h
    · simp only [bind_eq_ok, pure_eq_ok] at h
      obtain ⟨_, -, _, -, _, -, _, -, _, -, _, -, rfl⟩ := h
      simp only [Reasons.mem_addIf_of_ne, Reasons.mem_addUnlessSome_of_ne, hcode, ne_eq,
        not_false_eq_true]
    · cases h
      exact Reasons.mem_add_of_ne hcode.1
  · rw [if_neg hneeds] at h
    cases h
    rfl

theorem mem_checkRequiredRoles {approvalRoles : Option Value} {roles : List String}
    {reasons next : Reasons} (h : checkRequiredRoles approvalRoles roles reasons = .ok next)
    (hcode : code ≠ "RWA_REQUIRED_ROLE_MISSING") : code ∈ next ↔ code ∈ reasons := by
  induction roles generalizing reasons with
  | nil =>
    cases h
    rfl
  | cons role rest ih =>
    simp only [checkRequiredRoles, bind_eq_ok] at h
    obtain ⟨present, -, hrest⟩ := h
    rw [ih hrest, Reasons.mem_addIf_of_ne hcode]

/-- The codes of `checkRwa`. -/
def rwaCodes : List String :=
  ["RWA_CONTEXT_REQUIRED", "RWA_ENVELOPE_CONTEXT_MISMATCH", "RWA_TARGET_MISMATCH",
    "RWA_STATE_CLAIM_EXPIRED", "RWA_QUANTITY_EXCEEDED", "RWA_RESERVE_EXCEEDED",
    "RWA_MAXIMUM_SUPPLY_EXCEEDED", "RWA_SUPPLY_STATE_MISMATCH", "RWA_APPROVAL_THRESHOLD_NOT_MET",
    "RWA_REQUIRED_ROLE_MISSING", "MANDATE_ALREADY_CONSUMED"]

theorem mem_checkRwaTerms {request : EvaluationRequest} {now : ℤ} {reasons next : Reasons}
    (h : checkRwaTerms engine request now reasons = .ok next) (hcode : code ∉ rwaCodes) :
    code ∈ next ↔ code ∈ reasons := by
  simp only [rwaCodes, List.mem_cons, List.not_mem_nil, or_false, not_or] at hcode
  unfold checkRwaTerms at h
  by_cases hneeds : needsRwa request = true
  · rw [if_pos hneeds] at h
    unfold checkRwa at h
    split at h
    · simp only [bind_eq_ok, pure_eq_ok] at h
      obtain ⟨_, -, _, -, _, -, _, -, _, -, _, -, _, -, _, -, _, -, _, -, _, hroles, rfl⟩ := h
      have hkept := @mem_checkRequiredRoles code _ _ _ _ hroles (by simp [hcode])
      simp only [Reasons.mem_addIf_of_ne, hkept, hcode, ne_eq, not_false_eq_true]
    · cases h
      exact Reasons.mem_add_of_ne hcode.1
  · rw [if_neg hneeds] at h
    cases h
    rfl

/-! ### All codes -/

/-- The codes of an evaluation. -/
def authorityCodes : List String :=
  mandateCodes ++ ["CONSUMPTION_CONTEXT_MISMATCH", "MANDATE_ALREADY_CONSUMED", "IDEMPOTENCY_REPLAY",
    "CALL_LIMIT_EXCEEDED", "QUANTITY_LIMIT_EXCEEDED", "BUDGET_CURRENCY_MISMATCH",
    "BUDGET_EXCEEDED"] ++ commerceCodes ++ rwaCodes

/-- There are no other reasons. -/
theorem mem_authorityCodes {request : EvaluationRequest} {reasons : Reasons}
    (h : checkAuthority engine request = .ok reasons) (hcode : code ∈ reasons) :
    code ∈ authorityCodes := by
  by_contra hother
  simp only [authorityCodes, List.mem_append, not_or] at hother
  obtain ⟨⟨⟨hmandate, hconsumption⟩, hcommerce⟩, hrwa⟩ := hother
  simp only [List.mem_cons, List.not_mem_nil, or_false, not_or] at hconsumption
  simp only [checkAuthority, bind_eq_ok] at h
  obtain ⟨now, -, first, hfirst, limited, hlimited, priced, hpriced, hlast⟩ := h
  rw [mem_checkRwaTerms hlast hrwa, mem_checkCommerceTerms hpriced hcommerce,
    mem_checkConsumption hlimited (by simp [hconsumption]),
    mem_checkConsumptionContext hconsumption.1] at hcode
  exact notMem_checkMandate hfirst hmandate hcode

end Oati.TypeScript

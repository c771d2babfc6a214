import Oati.Go.Evaluator

/-!
# When the Go evaluators allow

Each check adds no reason exactly if its conditions hold; they are collected by document, in the
order of the code, and `checkAuthority_eq_nil` puts them together: a Go evaluator has no reason
to deny exactly if `Permits` holds.
-/

namespace Oati.Go

open TypeScript (Reasons startsWith)

variable {runtime : Runtime} {program : Program}

/-! ### Sets -/

@[simp] theorem checkSetConstraint_eq_nil {o : Object} {field actual code : String}
    {reasons : Reasons} : checkSetConstraint o field actual code reasons = [] ↔
      reasons = [] ∧ ((o.lookup field).isSome = true → actual ∈ stringsFrom (o.lookup field)) := by
  unfold checkSetConstraint
  cases hlookup : o.lookup field <;> simp

/-- A set of the parent that bounds the child's. -/
def SetWithin (child parent : Object) (field : String) : Prop :=
  (parent.lookup field).isSome = true → (child.lookup field).isSome = true ∧
    subset (stringsFrom (child.lookup field)) (stringsFrom (parent.lookup field)) = true

@[simp] theorem checkChildSet_eq_nil {child parent : Object} {field code : String}
    {reasons : Reasons} : checkChildSet child parent field code reasons = [] ↔
      reasons = [] ∧ SetWithin child parent field := by
  unfold checkChildSet SetWithin
  cases hparent : parent.lookup field <;> cases hchild : child.lookup field <;> simp

/-! ### Delegation -/

section Conditions

variable (runtime : Runtime) (program : Program)

/-- The profile terms of the child are within the parent's. -/
def ProfilePermits (child parent : Object) : Prop :=
  str (child.lookup "profile") = str (parent.lookup "profile") ∧
    commerceWidened runtime program (terms child "commerce") (terms parent "commerce")
      = .ok false ∧
    rwaWidened runtime program (terms child "rwa") (terms parent "rwa") = .ok false

/-- What `checkChildMandate` establishes. -/
structure ChildPermits (child parent : Object) (depth now : ℤ) : Prop where
  reference : str (child.lookup "parent_mandate") = str (parent.lookup "id")
  status : str (parent.lookup "status") = "active"
  started : program.onTime runtime (str (parent.lookup "not_before"))
    (fun start => decide (start > now)) = false
  unexpired : program.onTime runtime (str (parent.lookup "expires_at"))
    (fun stop => !decide (stop > now)) = false
  delegation : delegationDisallowed program (object (parent.lookup "delegation")) depth = false
  actions : subset (stringsFrom (child.lookup "actions"))
    (stringsFrom (parent.lookup "actions")) = true
  resources : SetWithin child parent "resources"
  counterparties : SetWithin child parent "counterparties"
  destinations : SetWithin child parent "destinations"
  purpose : str (child.lookup "purpose") = str (parent.lookup "purpose")
  starts : program.onTime runtime (str (child.lookup "not_before")) (fun childStart =>
    program.onTime runtime (str (parent.lookup "not_before")) fun parentStart =>
      decide (childStart < parentStart)) = false
  ends : program.onTime runtime (str (child.lookup "expires_at")) (fun childEnd =>
    program.onTime runtime (str (parent.lookup "expires_at")) fun parentEnd =>
      decide (childEnd > parentEnd)) = false
  limits : narrowWith (program.comparison runtime) (object (child.lookup "limits"))
    (object (parent.lookup "limits")) = .ok true
  dataUse : narrowWith (program.comparison runtime) (object (child.lookup "data_use"))
    (object (parent.lookup "data_use")) = .ok true
  remaining : delegationWidened program (object (child.lookup "delegation"))
    (object (parent.lookup "delegation")) depth = false
  profile : ProfilePermits runtime program child parent

/-- The checks that compare the envelope with the mandate and the mandate with the time. -/
structure MandatePermits (mandate envelope : Object) (now : ℤ) : Prop where
  status : str (mandate.lookup "status") = "active"
  started : program.onTime runtime (str (mandate.lookup "not_before"))
    (fun start => decide (start > now)) = false
  unexpired : program.onTime runtime (str (mandate.lookup "expires_at"))
    (fun stop => !decide (stop > now)) = false
  reference : str (envelope.lookup "mandate_id") = str (mandate.lookup "id")
  subject : str (envelope.lookup "agent_id") = str (mandate.lookup "subject")
  action : str (envelope.lookup "action") ∈ stringsFrom (mandate.lookup "actions")
  resource : (mandate.lookup "resources").isSome = true →
    str (envelope.lookup "resource") ∈ stringsFrom (mandate.lookup "resources")
  purpose : str (envelope.lookup "purpose") = str (mandate.lookup "purpose")
  counterparty : (mandate.lookup "counterparties").isSome = true →
    str (envelope.lookup "counterparty") ∈ stringsFrom (mandate.lookup "counterparties")
  destination : (mandate.lookup "destinations").isSome = true →
    str (envelope.lookup "destination") ∈ stringsFrom (mandate.lookup "destinations")
  profile : (envelope.lookup "profile").isSome = true →
    str (envelope.lookup "profile") = str (mandate.lookup "profile")

/-- The mandate is a root, or the request carries its parent and the link is within it. -/
def LinkPermits (request mandate : Object) (now : ℤ) : Prop :=
  match object (request.lookup "parent_mandate") with
  | some parent => ChildPermits runtime program mandate parent
      (program.integerDefault (request.lookup "delegation_depth") 1) now
  | none => str (mandate.lookup "parent_mandate") = ""

/-! ### Accounting -/

/-- The sum of two decimals is at most a third. -/
def SumAtMost (a b limit : String) : Prop := ∃ sum, decimalAdd a b = .ok sum ∧ AtMost sum limit

/-- A supplied consumption does not contradict the context, nor leave unconsumed what the
mandate consumes. -/
def ConsumptionAgrees (request : Object) (effective : Delta) : Prop :=
  ∀ supplied, object (request.lookup "consumption") = some supplied →
    (∀ field ∈ contextFields request effective, ∀ v, supplied.lookup field.1 = some v →
      sprint v = sprint field.2) ∧
    (boolean (some effective.consume) = true → ∀ v, supplied.lookup "consume" = some v →
      boolean (some v) = false → sprint v = sprint effective.consume)

/-- What `checkConsumption` establishes under limits. -/
structure LimitsPermit (mandate limits : Object) (usage : Usage) (delta : Delta) : Prop where
  calls : callLimitExceeded program limits usage delta = false
  quantity : str (mandate.lookup "profile") = "" → (limits.lookup "max_quantity").isSome = true →
    SumAtMost usage.quantity (str (some delta.quantity))
      (program.limitText (limits.lookup "max_quantity"))
  currency : str (limits.lookup "max_total") ≠ "" → str (some delta.amount) ≠ "0" →
    budgetCurrencyMismatch limits usage delta = false
  total : str (limits.lookup "max_total") ≠ "" → str (some delta.amount) ≠ "0" →
    SumAtMost usage.amount (str (some delta.amount)) (str (limits.lookup "max_total"))

/-- What `checkConsumption` establishes. -/
structure ConsumptionPermits (mandate : Object) (usage : Usage) (delta : Delta) : Prop where
  unconsumed : usage.consumed = false
  unused : str (some delta.idempotencyKey) ≠ "" →
    str (some delta.idempotencyKey) ∉ usage.idempotencyKeys
  limits : ∀ limits, object (mandate.lookup "limits") = some limits →
    LimitsPermit program mandate limits usage delta

/-! ### Profiles -/

/-- What `checkCommerce` establishes. -/
structure CommercePermits (limits envelope context : Object) (usage : Usage) : Prop where
  merchant : str (context.lookup "merchant_organisation_id")
    = str (limits.lookup "merchant_organisation_id")
  service : str (context.lookup "service_id") = str (limits.lookup "service_id")
  offer : str (context.lookup "offer_id") = str (limits.lookup "offer_id")
  currency : str (context.lookup "currency") = str (limits.lookup "currency")
  usageCurrency : usage.amount ≠ "0" → usage.currency = str (context.lookup "currency")
  unitPrice : AtMost (str (context.lookup "unit_price")) (str (limits.lookup "max_unit_price"))
  total : ∃ product, decimalMultiply (str (context.lookup "unit_price"))
    (program.integer (context.lookup "quantity") 0) = .ok product ∧
    decimalCompare (str (context.lookup "total_amount")) product = .ok 0
  budget : SumAtMost usage.amount (str (context.lookup "total_amount"))
    (str (limits.lookup "max_total"))
  quantity : program.quantityExceeded (context.lookup "quantity") (limits.lookup "max_quantity")
    = .ok false
  terms : str (limits.lookup "terms_digest") ≠ "" →
    str (context.lookup "terms_digest") = str (limits.lookup "terms_digest")
  unused : str (context.lookup "idempotency_key") ∉ usage.idempotencyKeys
  envelope : commerceEnvelopeMismatch envelope context = false

/-- What `checkRWA` establishes. -/
structure RwaPermits (limits envelope context : Object) (usage : Usage) (hasMintedSupply : Bool)
    (now : ℤ) : Prop where
  envelope : rwaEnvelopeMismatch envelope context = false
  target : sameFields context limits
    ["asset_id", "state_claim_id", "network", "token_contract", "operation", "unit"] = true
  claim : program.onTime runtime (str (context.lookup "claim_valid_until"))
    (fun stop => !decide (stop > now)) = false
  quantity : SumAtMost usage.quantity (str (context.lookup "quantity"))
    (str (limits.lookup "max_quantity"))
  reserve : SumAtMost (str (context.lookup "current_supply")) (str (context.lookup "quantity"))
    (str (context.lookup "reserve"))
  maximum : str (context.lookup "maximum_supply") ≠ "" →
    SumAtMost (str (context.lookup "current_supply")) (str (context.lookup "quantity"))
      (str (context.lookup "maximum_supply"))
  minted : hasMintedSupply = true →
    decimalCompare usage.mintedSupply (str (context.lookup "current_supply")) = .ok 0
  approvals : ¬ program.integer (context.lookup "approval_count") 0
    < program.integer (limits.lookup "minimum_approvals") 0
  roles : subset (stringsFrom (limits.lookup "required_roles"))
    (stringsFrom (context.lookup "approval_roles")) = true
  oneTime : boolean (limits.lookup "one_time") = true → usage.consumed = false

/-- Whether `checkCommerce` applies. -/
def needsCommerce (request mandate : Object) : Prop :=
  (object (request.lookup "commerce")).isSome = true ∨
    str (mandate.lookup "profile") = commerceProfile

/-- Whether `checkRWA` applies. -/
def needsRwa (request mandate : Object) : Prop :=
  (object (request.lookup "rwa")).isSome = true ∨ str (mandate.lookup "profile") = rwaProfile

/-- Every check passes at the time `now`. -/
structure Permits (request mandate envelope : Object) (now : ℤ) : Prop where
  document : MandatePermits runtime program mandate envelope now
  link : LinkPermits runtime program request mandate now
  agrees : ConsumptionAgrees request (effectiveConsumption program request mandate)
  consumption : ConsumptionPermits program mandate
    (normalizeUsage program (object (request.lookup "usage")))
    (effectiveConsumption program request mandate)
  commerce : needsCommerce request mandate → ∃ context limits,
    object (request.lookup "commerce") = some context ∧ terms mandate "commerce" = some limits ∧
    CommercePermits program limits envelope context
      (normalizeUsage program (object (request.lookup "usage")))
  rwa : needsRwa request mandate → ∃ context limits,
    object (request.lookup "rwa") = some context ∧ terms mandate "rwa" = some limits ∧
    RwaPermits runtime program limits envelope context
      (normalizeUsage program (object (request.lookup "usage")))
      (index (object (request.lookup "usage")) "minted_supply").isSome now

end Conditions

/-! ### No reason -/

theorem checkProfileSubset_eq_nil {child parent : Object} {reasons : Reasons} :
    checkProfileSubset runtime program child parent reasons = .ok [] ↔
      reasons = [] ∧ ProfilePermits runtime program child parent := by
  unfold checkProfileSubset ProfilePermits
  split_ifs with hprofile
  · have hsome : (str (child.lookup "profile") != "" || str (parent.lookup "profile") != "")
        = true := by
      by_contra hnone
      simp only [Bool.or_eq_true, bne_iff_ne, not_or, not_not] at hnone
      exact hprofile (hnone.1.trans hnone.2.symm)
    simp [hprofile, hsome]
  · have heq := not_not.mp hprofile
    simp only [bind_eq_ok, pure_eq_ok, Reasons.addIf_eq_nil, heq, true_and]
    constructor
    · rintro ⟨commerce, hcommerce, rwa, hrwa, ⟨hr, rfl⟩, rfl⟩
      exact ⟨hr, hcommerce, hrwa⟩
    · rintro ⟨hr, hcommerce, hrwa⟩
      exact ⟨false, hcommerce, false, hrwa, ⟨hr, rfl⟩, rfl⟩

theorem checkChildMandate_eq_nil {child parent : Object} {depth now : ℤ} {reasons : Reasons} :
    checkChildMandate runtime program child parent depth now reasons = .ok [] ↔
      reasons = [] ∧ ChildPermits runtime program child parent depth now := by
  unfold checkChildMandate
  simp only [bind_eq_ok, checkProfileSubset_eq_nil, Reasons.addIf_eq_nil, checkChildSet_eq_nil,
    bne_eq_false_iff_eq, Bool.not_eq_false', Bool.or_eq_false_iff, and_assoc]
  constructor
  · rintro ⟨limits, hlimits, dataUse, hdataUse, hr, hreference, hstatus, hstarted, hunexpired,
      hdelegation, hactions, hresources, hcounterparties, hdestinations, hpurpose, hstarts, hends,
      rfl, rfl, hremaining, hprofile⟩
    exact ⟨hr, hreference, hstatus, hstarted, hunexpired, hdelegation, hactions, hresources,
      hcounterparties, hdestinations, hpurpose, hstarts, hends, hlimits, hdataUse, hremaining,
      hprofile⟩
  · rintro ⟨hr, h⟩
    exact ⟨true, h.limits, true, h.dataUse, hr, h.reference, h.status, h.started, h.unexpired,
      h.delegation, h.actions, h.resources, h.counterparties, h.destinations, h.purpose, h.starts,
      h.ends, rfl, rfl, h.remaining, h.profile⟩

theorem checkMandate_eq_nil {request mandate envelope : Object} {now : ℤ} :
    checkMandate runtime program request mandate envelope now = .ok [] ↔
      MandatePermits runtime program mandate envelope now ∧
        LinkPermits runtime program request mandate now := by
  unfold checkMandate LinkPermits
  cases object (request.lookup "parent_mandate") <;>
    simp only [checkChildMandate_eq_nil, checkSetConstraint_eq_nil, Except.ok.injEq,
      Reasons.addIf_eq_nil, bne_eq_false_iff_eq, Bool.not_eq_false', Bool.and_eq_false_imp,
      List.contains_iff_mem, true_and, and_assoc]
  all_goals
    constructor
    · rintro ⟨hstatus, hstarted, hunexpired, hreference, hsubject, haction, hresource, hpurpose,
        hcounterparty, hdestination, hprofile, hlink⟩
      exact ⟨⟨hstatus, hstarted, hunexpired, hreference, hsubject, haction, hresource, hpurpose,
        hcounterparty, hdestination, hprofile⟩, hlink⟩
    · rintro ⟨h, hlink⟩
      exact ⟨h.status, h.started, h.unexpired, h.reference, h.subject, h.action, h.resource,
        h.purpose, h.counterparty, h.destination, h.profile, hlink⟩

theorem checkConsumptionContext_eq_nil {request : Object} {effective : Delta}
    {reasons : Reasons} : checkConsumptionContext request effective reasons = [] ↔
      reasons = [] ∧ ConsumptionAgrees request effective := by
  unfold checkConsumptionContext ConsumptionAgrees
  cases object (request.lookup "consumption") with
  | none => simp
  | some supplied =>
    have hfield : ∀ key (w : Value), ((supplied.lookup key).any fun v => sprint v != sprint w)
        = false ↔ ∀ v, supplied.lookup key = some v → sprint v = sprint w := by
      intro key w
      cases supplied.lookup key <;> simp
    simp only [Reasons.addIf_eq_nil, List.any_append, Bool.or_eq_false_iff, List.any_eq_false,
      Bool.not_eq_true, hfield, Option.some.injEq, forall_eq']
    refine and_congr_right fun _ => and_congr_right fun _ => ?_
    cases hlookup : supplied.lookup "consume" with
    | none => simp
    | some v =>
      cases hconsume : boolean (some effective.consume) <;> cases hv : boolean (some v) <;>
        simp [hlookup, hv]

theorem sumExceeds_eq_false {a b limit : String} :
    (decimalAdd a b >>= fun sum => exceeds sum limit) = .ok false ↔ SumAtMost a b limit := by
  simp only [bind_eq_ok, exceeds_eq_false, SumAtMost]

theorem quantityLimitExceeded_eq_false {mandate limits : Object} {usage : Usage} {delta : Delta} :
    quantityLimitExceeded program mandate limits usage delta = .ok false ↔
      (str (mandate.lookup "profile") = "" → (limits.lookup "max_quantity").isSome = true →
        SumAtMost usage.quantity (str (some delta.quantity))
          (program.limitText (limits.lookup "max_quantity"))) := by
  unfold quantityLimitExceeded
  split_ifs with h
  · rw [sumExceeds_eq_false]
    exact ⟨fun hsum _ _ => hsum, fun hsum => hsum h.1 h.2⟩
  · simp only [true_iff]
    exact fun hprofile hlimit => absurd ⟨hprofile, hlimit⟩ h

theorem checkBudget_eq_nil {limits : Object} {usage : Usage} {delta : Delta} {reasons : Reasons} :
    checkBudget limits usage delta reasons = .ok [] ↔
      reasons = [] ∧ (str (limits.lookup "max_total") ≠ "" → str (some delta.amount) ≠ "0" →
        budgetCurrencyMismatch limits usage delta = false ∧
          SumAtMost usage.amount (str (some delta.amount)) (str (limits.lookup "max_total"))) := by
  unfold checkBudget
  simp only
  split_ifs with h
  · simp only [bind_eq_ok, pure_eq_ok, Reasons.addIf_eq_nil, ← sumExceeds_eq_false, h.1, h.2,
      ne_eq, not_false_eq_true, forall_const]
    constructor
    · rintro ⟨sum, hsum, exceeded, hexceeds, ⟨hr, hcurrency⟩, rfl⟩
      exact ⟨hr, hcurrency, sum, hsum, hexceeds⟩
    · rintro ⟨hr, hcurrency, sum, hsum, hexceeds⟩
      exact ⟨sum, hsum, false, hexceeds, ⟨hr, hcurrency⟩, rfl⟩
  · simp only [Except.ok.injEq, iff_self_and]
    exact fun _ htotal hamount => absurd ⟨htotal, hamount⟩ h

theorem checkConsumption_eq_nil {mandate : Object} {usage : Usage} {delta : Delta}
    {reasons : Reasons} : checkConsumption program mandate usage delta reasons = .ok [] ↔
      reasons = [] ∧ ConsumptionPermits program mandate usage delta := by
  have hkey : ∀ key : String, (key != "" && usage.idempotencyKeys.contains key) = false ↔
      (key ≠ "" → key ∉ usage.idempotencyKeys) := by
    intro key
    simp
  unfold checkConsumption
  simp only
  split
  next hnone =>
    simp only [Except.ok.injEq, Reasons.addIf_eq_nil, hkey, and_assoc]
    constructor
    · rintro ⟨hr, hconsumed, hunused⟩
      exact ⟨hr, hconsumed, hunused, fun limits hlimits => by simp [hnone] at hlimits⟩
    · rintro ⟨hr, h⟩
      exact ⟨hr, h.unconsumed, h.unused⟩
  next limits hlimits =>
    simp only [bind_eq_ok, checkBudget_eq_nil, Reasons.addIf_eq_nil, hkey, and_assoc]
    constructor
    · rintro ⟨exceeded, hquantity, hr, hconsumed, hunused, hcalls, rfl, hbudget⟩
      refine ⟨hr, hconsumed, hunused, fun limits' hlimits' => ?_⟩
      obtain rfl : limits = limits' := by simpa [hlimits] using hlimits'
      exact ⟨hcalls, quantityLimitExceeded_eq_false.mp hquantity,
        fun ht ha => (hbudget ht ha).1, fun ht ha => (hbudget ht ha).2⟩
    · rintro ⟨hr, h⟩
      have hl := h.limits limits hlimits
      exact ⟨false, quantityLimitExceeded_eq_false.mpr hl.quantity, hr, h.unconsumed, h.unused,
        hl.calls, rfl, fun ht ha => ⟨hl.currency ht ha, hl.total ht ha⟩⟩

theorem checkCommerce_eq_nil {mandate envelope : Object} {context : Option Object} {usage : Usage}
    {reasons : Reasons} : checkCommerce program mandate envelope context usage reasons = .ok [] ↔
      reasons = [] ∧ ∃ c limits, context = some c ∧ terms mandate "commerce" = some limits ∧
        CommercePermits program limits envelope c usage := by
  unfold checkCommerce
  split
  next c limits hlimits =>
    simp only [bind_eq_ok, pure_eq_ok, Reasons.addIf_eq_nil, Reasons.addUnlessSome_eq_nil,
      Bool.or_eq_false_iff, Bool.and_eq_false_imp, bne_iff_ne, bne_eq_false_iff_eq,
      List.contains_eq_mem, decide_eq_false_iff_not, ne_eq, not_not, and_assoc, Option.some.injEq,
      hlimits]
    constructor
    · rintro ⟨unit, hunit, product, hproduct, total, htotal, sum, hsum, budget, hbudget, quantity,
        hquantity, hr, hmerchant, hservice, hoffer, hcurrency, husage, rfl, rfl, rfl, rfl, hterms,
        hkey, henvelope⟩
      exact ⟨hr, c, limits, rfl, rfl, hmerchant, hservice, hoffer, hcurrency, husage,
        exceeds_eq_false.mp hunit, ⟨product, hproduct, htotal⟩,
        ⟨sum, hsum, exceeds_eq_false.mp hbudget⟩, hquantity, hterms, hkey, henvelope⟩
    · rintro ⟨hr, _, _, rfl, rfl, h⟩
      obtain ⟨product, hproduct, htotal⟩ := h.total
      obtain ⟨sum, hsum, hbudget⟩ := h.budget
      exact ⟨false, exceeds_eq_false.mpr h.unitPrice, product, hproduct, 0, htotal, sum, hsum,
        false, exceeds_eq_false.mpr hbudget, false, h.quantity, hr, h.merchant, h.service, h.offer,
        h.currency, h.usageCurrency, rfl, rfl, rfl, rfl, h.terms, h.unused, h.envelope⟩
  next hn =>
    simp only [Except.ok.injEq, Reasons.add_ne_nil, false_iff]
    rintro ⟨-, c, limits, rfl, hlimits, -⟩
    exact hn c limits rfl hlimits

theorem checkRequiredRoles_eq_nil {approvalRoles required : List String} {reasons : Reasons} :
    checkRequiredRoles approvalRoles required reasons = [] ↔
      reasons = [] ∧ subset required approvalRoles = true := by
  unfold checkRequiredRoles subset
  induction required generalizing reasons with
  | nil => simp
  | cons role rest ih =>
    rw [List.foldl_cons, ih]
    simp [and_assoc]

/-- The supplies agree exactly if the comparison is zero. -/
theorem supplyDiffers_eq_false {a b : String} :
    ((do return decide ((← decimalCompare a b) ≠ 0)) : Except Fault Bool) = .ok false ↔
      decimalCompare a b = .ok 0 := by
  simp only [bind_eq_ok, pure_eq_ok, decide_eq_false_iff_not, ne_eq, not_not, exists_eq_right]

theorem checkRWA_eq_nil {mandate envelope : Object} {context : Option Object} {usage : Usage}
    {hasMintedSupply : Bool} {now : ℤ} {reasons : Reasons} :
    checkRWA runtime program mandate envelope context usage hasMintedSupply now reasons = .ok [] ↔
      reasons = [] ∧ ∃ c limits, context = some c ∧ terms mandate "rwa" = some limits ∧
        RwaPermits runtime program limits envelope c usage hasMintedSupply now := by
  unfold checkRWA
  split
  next c limits hlimits =>
    simp only [bind_eq_ok, pure_eq_ok, Reasons.addIf_eq_nil, checkRequiredRoles_eq_nil,
      Bool.not_eq_false', Bool.and_eq_false_imp, decide_eq_false_iff_not, and_assoc,
      Option.some.injEq, hlimits]
    constructor
    · rintro ⟨sum, hsum, quantity, hquantity, supply, hsupply, reserve, hreserve, maximum, hmaximum,
        mismatch, hmismatch, hr, henvelope, htarget, hclaim, rfl, rfl, rfl, rfl, happrovals, hroles,
        honce⟩
      simp only [andAlso_eq_false, Except.ok.injEq, bne_eq_false_iff_eq, bne_iff_ne] at hmaximum
      simp only [andAlso_eq_false, Except.ok.injEq, supplyDiffers_eq_false] at hmismatch
      refine ⟨hr, c, limits, rfl, rfl, henvelope, htarget, hclaim,
        ⟨sum, hsum, exceeds_eq_false.mp hquantity⟩, ⟨supply, hsupply, exceeds_eq_false.mp hreserve⟩,
        fun hset => ?_, ?_, happrovals, hroles, honce⟩
      · exact ⟨supply, hsupply, exceeds_eq_false.mp (hmaximum.resolve_left hset).2⟩
      · rintro rfl
        simpa using hmismatch
    · rintro ⟨hr, _, _, rfl, rfl, h⟩
      obtain ⟨sum, hsum, hquantity⟩ := h.quantity
      obtain ⟨supply, hsupply, hreserve⟩ := h.reserve
      refine ⟨sum, hsum, false, exceeds_eq_false.mpr hquantity, supply, hsupply, false,
        exceeds_eq_false.mpr hreserve, false, ?_, false, ?_, hr, h.envelope, h.target, h.claim, rfl,
        rfl, rfl, rfl, h.approvals, h.roles, h.oneTime⟩
      · rw [andAlso_eq_false]
        by_cases hset : str (c.lookup "maximum_supply") = ""
        · exact .inl (by simp [hset])
        · obtain ⟨supply', hsupply', hmaximum⟩ := h.maximum hset
          obtain rfl : supply = supply' := by simpa [hsupply] using hsupply'
          exact .inr ⟨by simpa using hset, exceeds_eq_false.mpr hmaximum⟩
      · rw [andAlso_eq_false, supplyDiffers_eq_false]
        cases hasMintedSupply with
        | false => exact .inl rfl
        | true => exact .inr ⟨rfl, h.minted rfl⟩
  next hn =>
    simp only [Except.ok.injEq, Reasons.add_ne_nil, false_iff]
    rintro ⟨-, c, limits, rfl, hlimits, -⟩
    exact hn c limits rfl hlimits

/-! ### The whole evaluation -/

theorem checkCommerceTerms_eq_nil {request mandate envelope : Object} {usage : Usage}
    {reasons : Reasons} :
    checkCommerceTerms program request mandate envelope usage reasons = .ok [] ↔ reasons = [] ∧
      (needsCommerce request mandate → ∃ context limits,
        object (request.lookup "commerce") = some context ∧
        terms mandate "commerce" = some limits ∧
        CommercePermits program limits envelope context usage) := by
  unfold checkCommerceTerms needsCommerce
  simp only [Bool.or_eq_true, beq_iff_eq]
  split_ifs with hneeds
  · simp only [checkCommerce_eq_nil, hneeds, forall_const]
  · simp [hneeds]

theorem checkRWATerms_eq_nil {request mandate envelope : Object} {usage : Usage} {now : ℤ}
    {reasons : Reasons} :
    checkRWATerms runtime program request mandate envelope usage now reasons = .ok [] ↔
      reasons = [] ∧ (needsRwa request mandate → ∃ context limits,
        object (request.lookup "rwa") = some context ∧ terms mandate "rwa" = some limits ∧
        RwaPermits runtime program limits envelope context usage
          (index (object (request.lookup "usage")) "minted_supply").isSome now) := by
  unfold checkRWATerms needsRwa
  simp only [Bool.or_eq_true, beq_iff_eq]
  split_ifs with hneeds
  · simp only [checkRWA_eq_nil, hneeds, forall_const]
  · simp [hneeds]

/-- A Go evaluator finds no reason to deny exactly if every check passes. -/
theorem checkAuthority_eq_nil {request mandate envelope : Object} {now : ℤ} :
    checkAuthority runtime program request mandate envelope now = .ok [] ↔
      Permits runtime program request mandate envelope now := by
  unfold checkAuthority
  simp only [bind_eq_ok]
  constructor
  · rintro ⟨_, hmandate, _, hconsumption, _, hcommerce, hrwa⟩
    -- a check that returns no reason was given none, so the checks are inverted last first
    obtain ⟨rfl, hrwaTerms⟩ := checkRWATerms_eq_nil.mp hrwa
    obtain ⟨rfl, hcommerceTerms⟩ := checkCommerceTerms_eq_nil.mp hcommerce
    obtain ⟨hcontext, hpermitted⟩ := checkConsumption_eq_nil.mp hconsumption
    obtain ⟨rfl, hagrees⟩ := checkConsumptionContext_eq_nil.mp hcontext
    obtain ⟨hpermits, hlink⟩ := checkMandate_eq_nil.mp hmandate
    exact ⟨hpermits, hlink, hagrees, hpermitted, hcommerceTerms, hrwaTerms⟩
  · intro h
    have hcontext := checkConsumptionContext_eq_nil.mpr ⟨rfl, h.agrees⟩
    exact ⟨[], checkMandate_eq_nil.mpr ⟨h.document, h.link⟩, [],
      checkConsumption_eq_nil.mpr ⟨hcontext, h.consumption⟩, [],
      checkCommerceTerms_eq_nil.mpr ⟨rfl, h.commerce⟩, checkRWATerms_eq_nil.mpr ⟨rfl, h.rwa⟩⟩

end Oati.Go

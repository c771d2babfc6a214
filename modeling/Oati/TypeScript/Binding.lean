import Oati.TypeScript.EvaluatorSpec

/-!
# The signed profile data of an envelope

An envelope may carry signed Commerce or RWA data. The caller supplies the context that is
evaluated, and what the request consumes is taken from that context; a comparison with the signed
data is part of `checkCommerce` and `checkRwa`, which run only in some requests.

* `CommerceCharged`, `RwaCharged`: the request carries a context with the signed values, and its
  effective consumption has them.
* `signed_charged_iff`: an allowed request is charged what is signed exactly if the profile of
  the data is evaluated and, for RWA, a Commerce context does not replace the quantity.
-/

namespace Oati.TypeScript

variable {engine : Engine}

/-! ### What is charged -/

/-- The request carries a Commerce context with the signed values, and they are what the request
consumes. -/
structure CommerceCharged (engine : Engine) (request : EvaluationRequest) (signed : Record) :
    Prop where
  context : ∃ context, request.commerce = some context ∧
    request.envelope.resource = context.serviceId ∧
    request.envelope.counterparty = some context.merchantOrganisationId ∧
    signed.lookup "offer_id" = some (.str context.offerId) ∧
    signed.lookup "currency" = some (.str context.currency) ∧
    signed.lookup "quantity" = some (.num context.quantity) ∧
    signed.lookup "quoted_unit_price" = some (.str context.unitPrice) ∧
    signed.lookup "terms_digest" = context.termsDigest.map .str ∧
    (effectiveConsumption engine request).quantity = .str (numberText engine context.quantity)
  amount : signed.lookup "quoted_total" = some (.str (effectiveConsumption engine request).amount)
  idempotencyKey : signed.lookup "idempotency_key" =
    some (.str (effectiveConsumption engine request).idempotencyKey)

/-- The request carries an RWA context with the signed values, and its quantity is what the
request consumes. -/
structure RwaCharged (engine : Engine) (request : EvaluationRequest) (signed : Record) :
    Prop where
  context : truthy request.rwa = true
  asset : get request.rwa "asset_id" = some (.str request.envelope.resource)
  fields : ∀ field ∈ ["asset_id", "state_claim_id", "network", "token_contract", "operation",
    "unit", "quantity"], signed.lookup field = get request.rwa field
  quantity : signed.lookup "quantity" = some (effectiveConsumption engine request).quantity

/-! ### The comparison with the envelope -/

/-- The quote of the envelope is the one of the context. -/
theorem commerceEnvelopeMismatch_eq_false {envelope : TransactionEnvelope}
    {context : CommerceEvaluationContext} {signed : Record}
    (hsigned : objectAt envelope.extensions "commerce" = some signed)
    (h : commerceEnvelopeMismatch envelope context = false) :
    envelope.resource = context.serviceId ∧
      envelope.counterparty = some context.merchantOrganisationId ∧
      ∀ fields ∈ [("offer_id", "offer_id"), ("currency", "currency"), ("quantity", "quantity"),
        ("quoted_unit_price", "unit_price"), ("quoted_total", "total_amount"),
        ("idempotency_key", "idempotency_key"), ("terms_digest", "terms_digest")],
        signed.lookup fields.1 = context.lookup fields.2 := by
  unfold commerceEnvelopeMismatch at h
  rw [hsigned] at h
  simp only [Bool.or_eq_false_iff, bne_eq_false_iff_eq, Bool.not_eq_false'] at h
  obtain ⟨⟨hresource, hcounterparty⟩, hfields⟩ := h
  refine ⟨hresource, hcounterparty, ?_⟩
  intro fields hmem
  exact eq_of_strictEq (List.all_eq_true.mp hfields fields hmem)

/-- The RWA data of the envelope is the one of the context. -/
theorem rwaEnvelopeMismatch_eq_false {envelope : TransactionEnvelope} {context : Option Value}
    {signed : Record} (hsigned : objectAt envelope.extensions "rwa" = some signed)
    (h : rwaEnvelopeMismatch envelope context = false) :
    get context "asset_id" = some (.str envelope.resource) ∧
      ∀ field ∈ ["asset_id", "state_claim_id", "network", "token_contract", "operation", "unit",
        "quantity"], signed.lookup field = get context field := by
  unfold rwaEnvelopeMismatch at h
  rw [hsigned] at h
  simp only [Bool.or_eq_false_iff, Bool.not_eq_false'] at h
  obtain ⟨hasset, hfields⟩ := h
  refine ⟨strictEq_str_left.mp hasset, ?_⟩
  intro field hmem
  exact eq_of_strictEq (List.all_eq_true.mp hfields field hmem)

/-! ### The effective consumption -/

theorem effectiveConsumption_of_commerce {request : EvaluationRequest}
    {context : CommerceEvaluationContext} (h : request.commerce = some context) :
    (effectiveConsumption engine request).amount = context.totalAmount ∧
      (effectiveConsumption engine request).idempotencyKey = context.idempotencyKey ∧
      (effectiveConsumption engine request).quantity =
        .str (numberText engine context.quantity) := by
  unfold effectiveConsumption
  rw [h]
  exact ⟨rfl, rfl, rfl⟩

/-- Without a Commerce context the quantity of the RWA context is consumed. -/
theorem effectiveConsumption_of_rwa {request : EvaluationRequest} {quantity : String}
    (hcommerce : request.commerce = none)
    (h : get request.rwa "quantity" = some (.str quantity)) :
    (effectiveConsumption engine request).quantity = .str quantity := by
  unfold effectiveConsumption
  rw [hcommerce, h]
  rfl

/-! ### Allowed requests -/

/-- With a Commerce context an allowed request is charged the signed quote. -/
theorem commerceCharged_of_permits {request : EvaluationRequest} {now : ℤ} {signed : Record}
    (hpermits : Permits engine request now)
    (hsigned : objectAt request.envelope.extensions "commerce" = some signed)
    (hneeds : needsCommerce request = true) : CommerceCharged engine request signed := by
  obtain ⟨context, limits, hcontext, -, hcommerce⟩ := hpermits.commerce hneeds
  obtain ⟨hresource, hcounterparty, hfields⟩ :=
    commerceEnvelopeMismatch_eq_false hsigned hcommerce.envelope
  obtain ⟨hamount, hkey, hquantity⟩ :=
    @effectiveConsumption_of_commerce engine _ _ hcontext
  have hfield := fun left right hmem => hfields (left, right) hmem
  refine ⟨⟨context, hcontext, hresource, hcounterparty, ?_, ?_, ?_, ?_, ?_, hquantity⟩, ?_, ?_⟩
  · exact hfield "offer_id" "offer_id" (by decide)
  · exact hfield "currency" "currency" (by decide)
  · exact hfield "quantity" "quantity" (by decide)
  · exact hfield "quoted_unit_price" "unit_price" (by decide)
  · exact hfield "terms_digest" "terms_digest" (by decide)
  · rw [hamount]
    exact hfield "quoted_total" "total_amount" (by decide)
  · rw [hkey]
    exact hfield "idempotency_key" "idempotency_key" (by decide)

/-- With an RWA context an allowed request is charged the signed quantity, unless a Commerce
context has another one. -/
theorem rwaCharged_of_permits {request : EvaluationRequest} {now : ℤ} {signed : Record}
    (hpermits : Permits engine request now)
    (hsigned : objectAt request.envelope.extensions "rwa" = some signed)
    (hneeds : needsRwa request = true)
    (hcommerce : ∀ context, request.commerce = some context →
      signed.lookup "quantity" = some (.str (numberText engine context.quantity))) :
    RwaCharged engine request signed := by
  obtain ⟨htruthy, limits, -, hrwa⟩ := hpermits.rwa hneeds
  obtain ⟨hasset, hfields⟩ := rwaEnvelopeMismatch_eq_false hsigned hrwa.envelope
  refine ⟨htruthy, hasset, hfields, ?_⟩
  cases hc : request.commerce with
  | some context =>
    rw [(effectiveConsumption_of_commerce hc).2.2]
    exact hcommerce context hc
  | none =>
    obtain ⟨quantity, hquantity, -⟩ := hrwa.quantity
    rw [effectiveConsumption_of_rwa hc hquantity, ← hquantity]
    exact hfields "quantity" (by decide)

/-- An allowed request is charged its signed Commerce data exactly if Commerce is evaluated, and
its signed RWA data exactly if RWA is evaluated and a Commerce context, which takes precedence in
the consumption, has the same quantity. -/
theorem signed_charged_iff {request : EvaluationRequest} {result : EvaluationResult}
    (h : evaluateAuthority engine request = .ok result) (hallow : result.decision = .allow) :
    (∀ signed, objectAt request.envelope.extensions "commerce" = some signed →
      (CommerceCharged engine request signed ↔
        request.commerce.isSome = true ∨ request.mandate.profile = some COMMERCE_PROFILE)) ∧
    ∀ signed, objectAt request.envelope.extensions "rwa" = some signed →
      (RwaCharged engine request signed ↔
        (truthy request.rwa = true ∨ request.mandate.profile = some RWA_PROFILE) ∧
          ∀ context, request.commerce = some context →
            signed.lookup "quantity" = some (.str (numberText engine context.quantity))) := by
  obtain ⟨⟨now, hpermits⟩, -⟩ := evaluateAuthority_allow_iff.mp ⟨h, hallow⟩
  refine ⟨fun signed hsigned => ⟨?_, ?_⟩, fun signed hsigned => ⟨?_, ?_⟩⟩
  · intro hcharged
    obtain ⟨context, hcontext, -⟩ := hcharged.context
    exact .inl (by rw [hcontext]; rfl)
  · intro hneeds
    refine commerceCharged_of_permits hpermits hsigned ?_
    simpa [needsCommerce] using hneeds
  · intro hcharged
    refine ⟨.inl hcharged.context, fun context hcontext => ?_⟩
    rw [hcharged.quantity, (effectiveConsumption_of_commerce hcontext).2.2]
  · rintro ⟨hneeds, hcommerce⟩
    refine rwaCharged_of_permits hpermits hsigned ?_ hcommerce
    simpa [needsRwa] using hneeds

/-- The order without its context. -/
def unquotedOrder : EvaluationRequest := { brokerOrder with commerce := none }

/-- The answer to it: a call that spends nothing. -/
def unquotedResult : EvaluationResult :=
  { orderResult with
    nextUsage :=
      { calls := some 1, amount := some "0", currency := some "", quantity := some "0"
        consumed := some false, idempotencyKeys := some [], mintedSupply := some "0" } }

/-- The quote that the envelope of the order is signed over. -/
def orderQuote : Record :=
  [("offer_id", .str "basic"), ("currency", .str "EUR"), ("quantity", .num 4),
    ("quoted_unit_price", .str "2.50"), ("quoted_total", .str "10"),
    ("idempotency_key", .str "order-1")]

theorem signed_charged_iff_brokerOrder : CommerceCharged plainEngine brokerOrder orderQuote := by
  have hallow : evaluateAuthority plainEngine brokerOrder = .ok orderResult := by decide +kernel
  exact ((signed_charged_iff hallow rfl).1 orderQuote rfl).mpr (.inl rfl)

/-- Without its context the order is allowed, and nothing of the signed quote is charged. -/
theorem unquotedOrder_not_charged :
    objectAt unquotedOrder.envelope.extensions "commerce" = some orderQuote ∧
      evaluateAuthority plainEngine unquotedOrder = .ok unquotedResult ∧
      unquotedResult.decision = .allow ∧
      (effectiveConsumption plainEngine unquotedOrder).amount = "0" ∧
      ¬ CommerceCharged plainEngine unquotedOrder orderQuote := by
  refine ⟨rfl, ?_, rfl, rfl, ?_⟩
  · decide +kernel
  · rintro ⟨⟨context, hcontext, -⟩, -, -⟩
    cases hcontext

end Oati.TypeScript

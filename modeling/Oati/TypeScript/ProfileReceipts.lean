import Oati.TypeScript.ProfilesSpec

/-!
# Receipts for what the evaluator allows

A receipt that carries the terms of an allowed request is checked by code that shares nothing with
the evaluator. Each of its checks follows from one of the evaluator's, except that an RWA receipt
needs a quantity, which the evaluator does not ask for.

* `PurchaseMandate.Conforms`, `AssetMandate.Conforms`, `RwaConforms`: what the schemas say beyond
  the types.
* `commerceReceipt_valid`: the Commerce receipt of an allowed request is valid.
* `rwaReceipt_valid_iff`: the RWA receipt of an allowed request is valid exactly if its quantity is
  not zero.
-/

namespace Oati.TypeScript.Profiles

variable {engine : Engine}

/-! ### Terms and their records -/

/-- The record has the terms as its members. -/
structure CommerceTerms.Of (record : Record) (terms : CommerceTerms) : Prop where
  merchant : record.lookup "merchant_organisation_id" = some (.str terms.merchantOrganisationId)
  service : record.lookup "service_id" = some (.str terms.serviceId)
  offer : record.lookup "offer_id" = some (.str terms.offerId)
  currency : record.lookup "currency" = some (.str terms.currency)
  maxUnitPrice : record.lookup "max_unit_price" = some (.str terms.maxUnitPrice)
  maxTotal : record.lookup "max_total" = some (.str terms.maxTotal)
  maxQuantity : record.lookup "max_quantity" = some (.num terms.maxQuantity)
  termsDigest : record.lookup "terms_digest" = terms.termsDigest.map .str

/-- The record has the terms as its members. -/
structure RwaMandateTerms.Of (record : Record) (terms : RwaMandateTerms) : Prop where
  asset : record.lookup "asset_id" = some (.str terms.assetId)
  stateClaim : record.lookup "state_claim_id" = some (.str terms.stateClaimId)
  network : record.lookup "network" = some (.str terms.network)
  tokenContract : record.lookup "token_contract" = some (.str terms.tokenContract)
  operation : record.lookup "operation" = some (.str terms.operation.text)
  unit : record.lookup "unit" = some (.str terms.unit)
  maxQuantity : record.lookup "max_quantity" = some (.str terms.maxQuantity)
  minimumApprovals : record.lookup "minimum_approvals" = some (.num terms.minimumApprovals)

theorem textAt_eq_some {record : Record} {key s : String} :
    textAt record key = some s ↔ record.lookup key = some (.str s) := by
  simp [textAt, Option.bind_eq_some_iff]

theorem numberAt_eq_some {record : Record} {key : String} {q : ℚ} :
    numberAt record key = some q ↔ record.lookup key = some (.num q) := by
  unfold numberAt
  split <;> simp_all

theorem optionalTextAt_eq_some {record : Record} {key : String} {s : Option String} :
    optionalTextAt record key = some s ↔ record.lookup key = s.map .str := by
  unfold optionalTextAt
  cases record.lookup key with
  | none => cases s <;> simp
  | some v => cases s <;> simp

theorem operationAt_eq_some {record : Record} {key : String} {operation : RwaOperation}
    (h : operationAt record key = some operation) :
    record.lookup key = some (.str operation.text) := by
  obtain ⟨s, hs, hfind⟩ := Option.bind_eq_some_iff.mp h
  have htext : operation.text = s := by simpa using List.find?_some hfind
  rw [htext]
  exact textAt_eq_some.mp hs

theorem CommerceTerms.of_read {record : Record} {terms : CommerceTerms}
    (h : CommerceTerms.read record = some terms) : CommerceTerms.Of record terms := by
  simp only [CommerceTerms.read, Option.bind_eq_bind, Option.bind_eq_some_iff, Option.pure_def,
    Option.some.injEq, textAt_eq_some, numberAt_eq_some, optionalTextAt_eq_some] at h
  obtain ⟨_, h1, _, h2, _, h3, _, h4, _, h5, _, h6, _, h7, _, h8, rfl⟩ := h
  exact ⟨h1, h2, h3, h4, h5, h6, h7, h8⟩

theorem RwaMandateTerms.of_read {record : Record} {terms : RwaMandateTerms}
    (h : RwaMandateTerms.read record = some terms) : RwaMandateTerms.Of record terms := by
  simp only [RwaMandateTerms.read, Option.bind_eq_bind, Option.bind_eq_some_iff, Option.pure_def,
    Option.some.injEq, textAt_eq_some, numberAt_eq_some] at h
  obtain ⟨_, h1, _, h2, _, h3, _, h4, _, h5, _, h6, _, h7, _, -, _, h9, rfl⟩ := h
  exact ⟨h1, h2, h3, h4, operationAt_eq_some h5, h6, h7, h9⟩

/-- The object that terms are read from is the one the evaluator reads. -/
theorem ReadsAs.objectAt {α : Type} {read : Record → Option α} {extensions : Option Record}
    {key : String} {terms : α}
    (h : ReadsAs read (extensions.bind (·.lookup key)) (some terms)) :
    ∃ record, TypeScript.objectAt extensions key = some record ∧ read record = some terms := by
  rcases h with ⟨-, hnone⟩ | ⟨record, t, hrecord, hread, hsome⟩
  · cases hnone
  · obtain rfl := Option.some.inj hsome
    obtain ⟨members, hmembers, hlookup⟩ := Option.bind_eq_some_iff.mp hrecord
    exact ⟨record, by simp [TypeScript.objectAt, hmembers, hlookup], hread⟩

/-! ### The schemas -/

/-- `^oati:mandate:[A-Za-z0-9._:-]+$`. -/
def isMandateId (id : String) : Bool :=
  startsWith id "oati:mandate:"
    && match id.toList.drop 13 with
      | [] => false
      | name => name.all fun c => c.isAlphanum || c == '.' || c == '_' || c == ':' || c == '-'

/-- `purchase-mandate.schema.json`, as far as the types leave it open. -/
structure PurchaseMandate.Conforms (mandate : PurchaseMandate) (terms : CommerceTerms) : Prop where
  id : isMandateId mandate.id = true
  profile : mandate.profile = some COMMERCE_PROFILE
  commerce : mandate.commerce = some terms
  currency : isCurrency terms.currency = true
  maxUnitPrice : isDecimal terms.maxUnitPrice = true
  maxTotal : isDecimal terms.maxTotal = true
  maxQuantity : ∃ n : ℕ, terms.maxQuantity = n ∧ 1 ≤ n

/-- `asset-mandate.schema.json`, as far as the types leave it open. -/
structure AssetMandate.Conforms (mandate : AssetMandate) (terms : RwaMandateTerms) : Prop where
  id : isMandateId mandate.id = true
  profile : mandate.profile = some RWA_PROFILE
  rwa : mandate.rwa = some terms
  maxQuantity : isDecimal terms.maxQuantity = true
  minimumApprovals : ∃ n : ℕ, terms.minimumApprovals = n ∧ 1 ≤ n

/-- The `rwa` definition of `evaluation-request.schema.json`. -/
structure RwaConforms (context : Value) : Prop where
  texts : ∀ key ∈ ["asset_id", "state_claim_id", "network", "token_contract", "unit",
    "claim_valid_until"], ∃ s, context.member key = some (.str s)
  operation : ∃ operation : RwaOperation, context.member "operation" = some (.str operation.text)
  decimals : ∀ key ∈ ["quantity", "reserve", "current_supply"],
    ∃ s, context.member key = some (.str s) ∧ isDecimal s = true
  maximumSupply : ∀ v, context.member "maximum_supply" = some v →
    ∃ s, v = .str s ∧ isDecimal s = true
  approvalCount : ∃ n : ℕ, context.member "approval_count" = some (.num n)
  approvalRoles : ∃ roles : List String,
    context.member "approval_roles" = some (.arr (roles.map .str)) ∧ roles.Nodup

theorem startsWith_of_isMandateId {id : String} (h : isMandateId id = true) :
    startsWith id "oati:mandate:" = true :=
  (Bool.and_eq_true_iff.mp h).1

/-! ### Commerce -/

/-- The receipt of a Commerce request: it carries the terms of the context under the mandate. -/
structure CommerceReceipt.Carries (receipt : CommerceReceipt) (mandate : PurchaseMandate)
    (context : CommerceEvaluationContext) : Prop where
  id : startsWith receipt.id "oati:receipt:" = true
  transactionId : startsWith receipt.transactionId "oati:tx:" = true
  proof : receipt.proof.isSome = true
  profile : receipt.profile = some COMMERCE_PROFILE
  mandateId : receipt.mandateId = mandate.id
  commerce : receipt.commerce = some
    { merchantOrganisationId := context.merchantOrganisationId
      serviceId := context.serviceId
      offerId := context.offerId
      currency := context.currency
      quantity := context.quantity
      unitPrice := context.unitPrice
      totalAmount := context.totalAmount
      termsDigest := context.termsDigest }

/-- A safe quantity that the evaluator finds within the limit is at most the limit. The text of
a limit that is not safe is not that of the number. -/
theorem quantity_le_limit {n m : ℕ} (hn : n ≤ Double.maxSafeInteger)
    (h : TextAtMost (numberText engine n) (numberText engine m)) : n ≤ m := by
  rcases Nat.lt_or_ge Double.maxSafeInteger m with hlarge | hsmall
  · omega
  · obtain ⟨p, q, hp, hq, hle⟩ := h
    rw [hp.unique (denotes_numberText engine hn), hq.unique (denotes_numberText engine hsmall)]
      at hle
    exact_mod_cast hle

/-- The total of an allowed context is the product of its price and its quantity. -/
theorem product_of_total {context : CommerceEvaluationContext} {n : ℕ}
    (hquantity : context.quantity = n)
    (h : ∃ product q, TypeScript.multiplyDecimal context.unitPrice context.quantity = .ok product ∧
      Denotes context.totalAmount q ∧ Denotes product q) :
    ∃ p, Denotes context.unitPrice p ∧ Denotes context.totalAmount (p * context.quantity) := by
  obtain ⟨product, q, hproduct, htotal, hdenotes⟩ := h
  rw [hquantity] at hproduct ⊢
  obtain ⟨p, hp, hdenotes'⟩ := multiplyDecimal_natCast hproduct
  exact ⟨p, hp, hdenotes.unique hdenotes' ▸ htotal⟩

/-- What the evaluator allows under a purchase mandate, the receipt check accepts. -/
theorem commerceReceipt_valid {mandate : PurchaseMandate} {terms : CommerceTerms}
    (hmandate : mandate.Conforms terms) {request : EvaluationRequest}
    (hunder : request.mandate = mandate.toAgentMandate) (hvalid : request.AccountingValid)
    {context : CommerceEvaluationContext} (hcontext : request.commerce = some context)
    (hsafe : isSafeInteger context.quantity = true) {result : EvaluationResult}
    (heval : evaluateAuthority engine request = .ok result) (hallow : result.decision = .allow)
    {receipt : CommerceReceipt} (hreceipt : receipt.Carries mandate context) :
    validateCommerceReceipt receipt (some mandate) = .ok ⟨true, []⟩ := by
  obtain ⟨⟨now, hpermits⟩, -⟩ := evaluateAuthority_allow_iff.mp ⟨heval, hallow⟩
  have hneeds : needsCommerce request = true := by rw [needsCommerce, hcontext]; rfl
  obtain ⟨context', limits, hcontext', hlimits, hcommerce⟩ := hpermits.commerce hneeds
  obtain rfl : context = context' := Option.some.inj (hcontext.symm.trans hcontext')
  -- the evaluator reads the terms of the mandate
  have htyped := mandate.typed
  rw [hmandate.commerce] at htyped
  obtain ⟨record, hrecord, hread⟩ := htyped.objectAt
  have hof := CommerceTerms.of_read hread
  obtain rfl : limits = record := by
    rw [hunder, hrecord] at hlimits
    exact (Option.some.inj hlimits).symm
  obtain ⟨n, hquantity, hpositive⟩ := (hvalid.commerce context hcontext).quantity
  obtain ⟨m, hlimit, -⟩ := hmandate.maxQuantity
  have hn : n ≤ Double.maxSafeInteger := by
    rw [hquantity] at hsafe
    exact isSafeInteger_natCast.mp hsafe
  have hwithin : n ≤ m := by
    have htext := hcommerce.quantity
    rw [hof.maxQuantity, hquantity, hlimit] at htext
    exact quantity_le_limit hn htext
  have hunit := hcommerce.unitPrice
  have hbudget := hcommerce.budget.right
  rw [hof.maxUnitPrice] at hunit
  rw [hof.maxTotal] at hbudget
  have hmerchant := hcommerce.merchant
  have hservice := hcommerce.service
  have hoffer := hcommerce.offer
  have hcurrency := hcommerce.currency
  simp only [hof.merchant, hof.service, hof.offer, hof.currency, Option.some.injEq,
    Json.str.injEq] at hmerchant hservice hoffer hcurrency
  have hconforms := hvalid.commerce context hcontext
  refine validateCommerceReceipt_valid_iff.mpr ⟨_, terms, hreceipt.commerce, hmandate.commerce,
    ⟨hreceipt.id, hreceipt.transactionId, ?_, hreceipt.proof, hreceipt.profile⟩,
    ⟨hconforms.currency, ?_, hconforms.unitPrice, hconforms.totalAmount, hsafe,
      product_of_total hquantity hcommerce.total⟩, hreceipt.mandateId,
    ⟨hmerchant.symm, hservice.symm, hoffer.symm, hcurrency.symm, ?_, ?_, withinLimit_of_textAtMost hunit,
      withinLimit_of_textAtMost hbudget⟩⟩
  · rw [hreceipt.mandateId]
    exact startsWith_of_isMandateId hmandate.id
  · dsimp only
    rw [hquantity]
    exact_mod_cast hpositive
  · intro digest hdigest hne
    have hsame := hcommerce.terms
    rw [hof.termsDigest, hdigest, Option.map_some, strictEq_str_right, Option.map_eq_some_iff]
      at hsame
    obtain ⟨s, hs, heq⟩ := hsame (by simp [truthy, hne])
    rw [hs, Json.str.inj heq]
  · dsimp only
    rw [hquantity, hlimit]
    exact_mod_cast hwithin

/-- The broker's mandate, as a purchase mandate. -/
def brokerPurchase : PurchaseMandate :=
  { brokerMandate with
    profile := some COMMERCE_PROFILE
    commerce := some
      { merchantOrganisationId := "oati:organisation:shop", serviceId := "quotes"
        offerId := "basic", currency := "EUR", maxUnitPrice := "2.50", maxTotal := "100"
        maxQuantity := 8, termsDigest := none }
    typed := .inr ⟨quoteTerms "100" 8, _, rfl, rfl, rfl⟩ }

/-- The receipt for the broker's order. -/
def orderReceipt : CommerceReceipt :=
  { id := "oati:receipt:1", transactionId := "oati:tx:1", mandateId := "oati:mandate:broker"
    profile := some COMMERCE_PROFILE, proof := some []
    commerce := some
      { merchantOrganisationId := "oati:organisation:shop", serviceId := "quotes"
        offerId := "basic", currency := "EUR", quantity := 4, unitPrice := "2.50"
        totalAmount := "10", termsDigest := none } }

theorem commerceReceipt_valid_order :
    validateCommerceReceipt orderReceipt (some brokerPurchase) = .ok ⟨true, []⟩ := by
  have hvalid : ({ brokerOrder with mandate := brokerPurchase.toAgentMandate } :
      EvaluationRequest).AccountingValid := by
    refine ⟨⟨?_, ?_, ?_, ?_, ?_, ?_⟩, ?_, ?_⟩
    all_goals rintro _ ⟨⟩
    exact ⟨by decide, ⟨4, rfl, by decide⟩, by decide, by decide, by decide⟩
  have hmandate : brokerPurchase.Conforms _ :=
    ⟨by decide, rfl, rfl, by decide, by decide, by decide, ⟨8, rfl, by decide⟩⟩
  have heval : evaluateAuthority plainEngine
      { brokerOrder with mandate := brokerPurchase.toAgentMandate } = .ok orderResult := by
    decide +kernel
  have hcontext : brokerOrder.commerce = some orderContext := rfl
  exact commerceReceipt_valid hmandate rfl hvalid hcontext
    (@isSafeInteger_natCast 4 |>.mpr (by decide)) heval rfl
    ⟨by decide, by decide, rfl, rfl, rfl, rfl⟩

/-! ### RWA -/

/-- The receipt of an RWA request: it carries the context under the mandate, and the supply that
the evaluation recorded. -/
structure RwaReceipt.Carries (receipt : RwaReceipt) (mandate : AssetMandate) (context : Value)
    (evaluation : EvaluationResult) (rwa : RwaReceiptTerms) : Prop where
  id : startsWith receipt.id "oati:receipt:" = true
  transactionId : startsWith receipt.transactionId "oati:tx:" = true
  proof : receipt.proof.isSome = true
  profile : receipt.profile = some RWA_PROFILE
  mandateId : receipt.mandateId = mandate.id
  terms : receipt.rwa = some rwa
  asset : context.member "asset_id" = some (.str rwa.assetId)
  stateClaim : context.member "state_claim_id" = some (.str rwa.stateClaimId)
  network : context.member "network" = some (.str rwa.network)
  tokenContract : context.member "token_contract" = some (.str rwa.tokenContract)
  operation : context.member "operation" = some (.str rwa.operation.text)
  unit : context.member "unit" = some (.str rwa.unit)
  quantity : context.member "quantity" = some (.str rwa.quantity)
  approvalCount : context.member "approval_count" = some (.num rwa.approvalCount)
  resultingSupply : rwa.resultingSupply = evaluation.nextUsage.mintedSupply
  chainTransactionHash : rwa.chainTransactionHash ≠ ""

theorem text_injective {a b : RwaOperation} (h : a.text = b.text) : a = b := by
  cases a <;> cases b <;> first | rfl | exact absurd h (by decide)

/-- An object with members is truthy. -/
theorem truthy_of_member {context v : Value} {key : String} (h : context.member key = some v) :
    truthy (some context) = true := by
  cases context with
  | obj members => rfl
  | _ => cases h

/-- What the evaluator allows under an asset mandate, the receipt check accepts exactly if it has
a quantity. -/
theorem rwaReceipt_valid_iff {mandate : AssetMandate} {terms : RwaMandateTerms}
    (hmandate : mandate.Conforms terms) {request : EvaluationRequest}
    (hunder : request.mandate = mandate.toAgentMandate) {context : Value}
    (hcontext : request.rwa = some context) (hvalid : RwaConforms context)
    {evaluation : EvaluationResult} (heval : evaluateAuthority engine request = .ok evaluation)
    (hallow : evaluation.decision = .allow) {receipt : RwaReceipt} {rwa : RwaReceiptTerms}
    (hreceipt : receipt.Carries mandate context evaluation rwa) :
    validateRwaReceipt receipt (some mandate) = .ok ⟨true, []⟩ ↔ ¬ Denotes rwa.quantity 0 := by
  obtain ⟨⟨now, hpermits⟩, next, hnext, hresult⟩ :=
    evaluateAuthority_allow_iff.mp ⟨heval, hallow⟩
  have htruthy : truthy request.rwa = true := by
    rw [hcontext]
    exact truthy_of_member hreceipt.asset
  have hneeds : needsRwa request = true := by rw [needsRwa, htruthy]; rfl
  obtain ⟨-, limits, hlimits, hchecked⟩ := hpermits.rwa hneeds
  -- the evaluator reads the terms of the mandate
  have htyped := mandate.typed
  rw [hmandate.rwa] at htyped
  obtain ⟨record, hrecord, hread⟩ := htyped.objectAt
  have hof := RwaMandateTerms.of_read hread
  obtain rfl : limits = record := by
    rw [hunder, hrecord] at hlimits
    exact (Option.some.inj hlimits).symm
  have hget : ∀ key, get request.rwa key = context.member key := by
    intro key
    rw [hcontext]
    rfl
  -- target
  have htarget := hchecked.target
  simp only [sameFields, List.all_cons, List.all_nil, Bool.and_true, Bool.and_eq_true, hget,
    hreceipt.asset, hreceipt.stateClaim, hreceipt.network, hreceipt.tokenContract,
    hreceipt.operation, hreceipt.unit, hof.asset, hof.stateClaim, hof.network, hof.tokenContract,
    hof.operation, hof.unit, strictEq_str_left, Option.some.injEq, Json.str.injEq] at htarget
  obtain ⟨hasset, hclaim, hnetwork, htoken, hoperation, hunit⟩ := htarget
  have hoperation := text_injective hoperation
  -- quantity
  obtain ⟨quantity, hquantity, hsum⟩ := hchecked.quantity
  rw [hget, hreceipt.quantity] at hquantity
  obtain rfl : rwa.quantity = quantity := by simpa using hquantity
  rw [hof.maxQuantity] at hsum
  obtain ⟨q, m, hq, -⟩ := hsum.right
  -- approvals
  obtain ⟨approvals, happrovals⟩ := hvalid.approvalCount
  rw [hreceipt.approvalCount] at happrovals
  have hcount : rwa.approvalCount = approvals := by simpa using happrovals
  have hminimum := hchecked.approvals
  rw [hget, hreceipt.approvalCount, hof.minimumApprovals] at hminimum
  -- supply
  have hsupply : rwa.resultingSupply.any isDecimal = true := by
    obtain ⟨_, _, _, minted, -, -, -, hminted, rfl⟩ := applyConsumption_eq_ok.mp hnext
    rw [hreceipt.resultingSupply, hresult]
    rw [nextMintedSupply, if_pos htruthy] at hminted
    obtain ⟨supply, -, hminted⟩ := bind_eq_ok.mp hminted
    obtain ⟨added, -, hminted⟩ := bind_eq_ok.mp hminted
    exact isDecimal_addDecimal hminted
  have hpositive : Positive rwa.quantity ↔ ¬ Denotes rwa.quantity 0 := by
    constructor
    · rintro ⟨p, hp, hpos⟩ hzero
      exact hpos.ne' (hp.unique hzero)
    · intro hnot
      exact ⟨q, hq, lt_of_le_of_ne hq.nonneg fun hzero => hnot (hzero ▸ hq)⟩
  rw [← hpositive, validateRwaReceipt_valid_iff]
  constructor
  · rintro ⟨rwa', limit, h⟩
    obtain rfl := Option.some.inj (hreceipt.terms.symm.trans h.carried)
    exact h.terms.quantity
  · intro hpos
    refine ⟨rwa, terms, hreceipt.terms, hmandate.rwa,
      ⟨hreceipt.id, hreceipt.transactionId, ?_, hreceipt.proof, hreceipt.profile⟩,
      ⟨hreceipt.chainTransactionHash, ?_, hpos, hsupply⟩, hreceipt.mandateId,
      ⟨hasset.symm, hclaim.symm, ⟨hnetwork.symm, htoken.symm⟩, hoperation.symm, hunit.symm,
        withinLimit_of_textAtMost hsum.right, ?_⟩⟩
    · rw [hreceipt.mandateId]
      exact startsWith_of_isMandateId hmandate.id
    · rw [hcount]
      exact Nat.cast_nonneg approvals
    · simpa [numberLt, toNumber] using hminimum

/-- A quantity of shares to mint. -/
def mintContext (quantity : String) : Value :=
  .obj (sampleTarget "mint"
    ++ [("quantity", .str quantity), ("reserve", .str "500"), ("approval_count", .num 1),
      ("approval_roles", .arr []), ("current_supply", .str "40"),
      ("claim_valid_until", .str "2026-12-31T00:00:00Z")])

/-- The answer to the request to mint them. -/
def mintResult (quantity supply : String) : EvaluationResult :=
  { issuanceResult { sharesUsage 1 quantity supply with consumed := some true } with
    transactionId := "oati:tx:7" }

/-- The request to mint them. -/
def mintRequest (quantity : String) : EvaluationRequest :=
  { evaluationTime := "2026-06-01T12:00:00Z", mandate := mintMandate.toAgentMandate
    envelope :=
      { id := "oati:tx:7", agentId := "oati:agent:broker", organisationId := "oati:org:desk"
        mandateId := "oati:mandate:broker", action := "purchase", resource := "building-7"
        purpose := some "procurement" }
    rwa := some (mintContext quantity) }

/-- The receipt for them. -/
def mintReceipt (quantity supply : String) : RwaReceipt :=
  { id := "oati:receipt:7", transactionId := "oati:tx:7", mandateId := "oati:mandate:broker"
    profile := some RWA_PROFILE, proof := some []
    rwa := some
      { assetId := "building-7", stateClaimId := "claim-7", operation := .mint
        network := "testnet", tokenContract := "0x07", quantity := quantity, unit := "share"
        chainTransactionHash := "0xabc", approvalCount := 1, resultingSupply := some supply } }

theorem mintMandate_conforms : ∃ terms, mintMandate.Conforms terms :=
  ⟨_, by decide, rfl, rfl, by decide, ⟨1, rfl, by decide⟩⟩

theorem mintContext_conforms {quantity : String} (h : isDecimal quantity = true) :
    RwaConforms (mintContext quantity) where
  texts := by
    intro key hkey
    simp only [List.mem_cons, List.not_mem_nil, or_false] at hkey
    rcases hkey with rfl | rfl | rfl | rfl | rfl | rfl <;> exact ⟨_, rfl⟩
  operation := ⟨.mint, rfl⟩
  decimals := by
    intro key hkey
    simp only [List.mem_cons, List.not_mem_nil, or_false] at hkey
    rcases hkey with rfl | rfl | rfl
    · exact ⟨quantity, rfl, h⟩
    · exact ⟨"500", rfl, by decide⟩
    · exact ⟨"40", rfl, by decide⟩
  maximumSupply := fun _ h => (by cases h)
  approvalCount := ⟨1, rfl⟩
  approvalRoles := ⟨[], rfl, List.nodup_nil⟩

theorem mintReceipt_carries (quantity supply : String) :
    ∃ rwa, (mintReceipt quantity supply).Carries mintMandate (mintContext quantity)
      (mintResult quantity supply) rwa ∧ rwa.quantity = quantity := by
  have hid : startsWith "oati:receipt:7" "oati:receipt:" = true := by decide
  have htransaction : startsWith "oati:tx:7" "oati:tx:" = true := by decide
  have hhash : "0xabc" ≠ "" := by decide
  exact ⟨_, ⟨hid, htransaction, rfl, rfl, rfl, rfl, rfl, rfl, rfl, rfl, rfl, rfl, rfl, rfl, rfl,
    hhash⟩, rfl⟩

/-- Sixty shares have a valid receipt. -/
theorem rwaReceipt_valid_sixty :
    validateRwaReceipt (mintReceipt "60" "100") (some mintMandate) = .ok ⟨true, []⟩ := by
  obtain ⟨terms, hmandate⟩ := mintMandate_conforms
  obtain ⟨rwa, hreceipt, hquantity⟩ := mintReceipt_carries "60" "100"
  have heval : evaluateAuthority plainEngine (mintRequest "60")
      = .ok (mintResult "60" "100") := by decide +kernel
  refine (rwaReceipt_valid_iff hmandate rfl rfl (mintContext_conforms (by decide)) heval rfl
    hreceipt).mpr fun hzero => ?_
  rw [hquantity] at hzero
  have hsixty : Denotes "60" 60 := by exact_mod_cast denotes_repr 60
  exact absurd (hzero.unique hsixty) (by norm_num)

/-- No shares are allowed, and have no valid receipt. -/
theorem rwaReceipt_invalid_zero : ∃ terms evaluation rwa, mintMandate.Conforms terms ∧
    RwaConforms (mintContext "0") ∧
    evaluateAuthority plainEngine (mintRequest "0") = .ok evaluation ∧
    evaluation.decision = .allow ∧
    (mintReceipt "0" "40").Carries mintMandate (mintContext "0") evaluation rwa ∧
    validateRwaReceipt (mintReceipt "0" "40") (some mintMandate)
      = .ok ⟨false, ["receipt quantity must be greater than zero"]⟩ := by
  obtain ⟨terms, hmandate⟩ := mintMandate_conforms
  obtain ⟨rwa, hreceipt, -⟩ := mintReceipt_carries "0" "40"
  have heval : evaluateAuthority plainEngine (mintRequest "0")
      = .ok (mintResult "0" "40") := by decide +kernel
  have hissues : validateRwaReceipt (mintReceipt "0" "40") (some mintMandate)
      = .ok ⟨false, ["receipt quantity must be greater than zero"]⟩ := by rfl
  exact ⟨terms, _, rwa, hmandate, mintContext_conforms (by decide), heval, rfl, hreceipt, hissues⟩

end Oati.TypeScript.Profiles

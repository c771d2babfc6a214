import Oati.TypeScript.Profiles

/-!
# What a valid profile document says

The issues of each validator are empty exactly if its rules hold. A rule that compares an operand
which cannot be read holds of it: the comparison with `NaN` or an invalid date is false.

* `ReceiptRules`, `CommerceRules`, `RwaRules`, `MintRules`: the rules, with decimals as the
  rationals they denote and dates as instants.
* `failClosed_iff`: exactly when a valid document is within its bounds.
-/

namespace Oati.TypeScript.Profiles

variable {engine : Engine}

/-! ### Single checks -/

@[simp] theorem result_eq_valid {issues : List String} :
    result issues = ⟨true, []⟩ ↔ issues = [] := by
  cases issues <;> simp [result]

/-- The first decimal is at most the second, if both are decimals. -/
def WithinLimit (text limit : String) : Prop :=
  ∀ p q, Denotes text p → Denotes limit q → p ≤ q

theorem compareDecimal_of_not_isDecimal {left right : String}
    (h : ¬ (isDecimal left = true ∧ isDecimal right = true)) : compareDecimal left right = none := by
  have hcondition : (!isDecimal left || !isDecimal right) = true := by
    cases hl : isDecimal left <;> cases hr : isDecimal right <;> simp_all
  rw [compareDecimal, if_pos hcondition]

theorem withinLimit_iff {text limit : String} :
    (compareDecimal text limit).any (0 < ·) = false ↔ WithinLimit text limit := by
  by_cases hdecimal : isDecimal text = true ∧ isDecimal limit = true
  · obtain ⟨p, hp, -⟩ := exists_denotes hdecimal.1
    obtain ⟨q, hq, -⟩ := exists_denotes hdecimal.2
    rw [compareDecimal_of_isDecimal hdecimal.1 hdecimal.2 hp hq, Option.any_some,
      decide_eq_false_iff_not]
    have hle : ¬ (0 : ℤ) < (if p = q then 0 else if q < p then 1 else -1) ↔ p ≤ q := by
      split_ifs with heq hlt
      · exact iff_of_true (by omega) heq.le
      · exact iff_of_false (by omega) hlt.not_ge
      · exact iff_of_true (by omega) (not_lt.mp hlt)
    rw [hle]
    exact ⟨fun h p' q' hp' hq' => hp'.unique hp ▸ hq'.unique hq ▸ h, fun h => h p q hp hq⟩
  · rw [compareDecimal_of_not_isDecimal hdecimal]
    refine iff_of_true rfl fun p q hp hq => ?_
    exact absurd ⟨hp.isDecimal, hq.isDecimal⟩ hdecimal

theorem withinLimit_of_textAtMost {text limit : String} (h : TextAtMost text limit) :
    WithinLimit text limit := by
  obtain ⟨p, q, hp, hq, hle⟩ := h
  exact fun p' q' hp' hq' => hp'.unique hp ▸ hq'.unique hq ▸ hle

theorem WithinLimit.textAtMost {text limit : String} (h : WithinLimit text limit)
    (htext : isDecimal text = true) (hlimit : isDecimal limit = true) : TextAtMost text limit := by
  obtain ⟨p, hp, -⟩ := exists_denotes htext
  obtain ⟨q, hq, -⟩ := exists_denotes hlimit
  exact ⟨p, q, hp, hq, h p q hp hq⟩

/-- `value` is a decimal greater than zero. -/
def Positive (value : String) : Prop := ∃ q, Denotes value q ∧ 0 < q

theorem positive_iff {value : String} :
    (!isDecimal value || (compareDecimal value "0").any (· ≤ 0)) = false ↔ Positive value := by
  by_cases hdecimal : isDecimal value = true
  · obtain ⟨q, hq, hnonneg⟩ := exists_denotes hdecimal
    rw [hdecimal, compareDecimal_of_isDecimal hdecimal denotes_zero.isDecimal hq denotes_zero,
      Bool.not_true, Bool.false_or, Option.any_some, decide_eq_false_iff_not]
    have hpositive : Positive value ↔ 0 < q :=
      ⟨fun ⟨p, hp, hpos⟩ => hp.unique hq ▸ hpos, fun hpos => ⟨q, hq, hpos⟩⟩
    rw [hpositive]
    by_cases hzero : q = 0
    · simp [hzero]
    · have hpos : 0 < q := lt_of_le_of_ne hnonneg (Ne.symm hzero)
      simp [hzero, hpos]
  · refine iff_of_false (by simp [hdecimal]) ?_
    rintro ⟨q, hq, -⟩
    exact hdecimal hq.isDecimal

/-- The date is no later, if it can be read. -/
def NotLater (engine : Engine) (date : String) (time : ℤ) : Prop :=
  ∀ t, dateParse engine date = some t → t ≤ time

/-- The date is later, if it can be read. -/
def Later (engine : Engine) (date : String) (time : ℤ) : Prop :=
  ∀ t, dateParse engine date = some t → time < t

theorem after_eq_false {date : String} {time : ℤ} :
    after engine date time = false ↔ NotLater engine date time := by
  unfold after NotLater
  cases dateParse engine date <;> simp

theorem notAfter_eq_false {date : String} {time : ℤ} :
    notAfter engine date time = false ↔ Later engine date time := by
  unfold notAfter Later
  cases dateParse engine date <;> simp

/-! ### Receipts -/

/-- The rules of every receipt. -/
structure ReceiptRules (receipt : ActionReceipt) (profile : String) : Prop where
  id : startsWith receipt.id "oati:receipt:" = true
  transactionId : startsWith receipt.transactionId "oati:tx:" = true
  mandateId : startsWith receipt.mandateId "oati:mandate:" = true
  proof : receipt.proof.isSome = true
  profile : receipt.profile = some profile

theorem receiptRules_iff {receipt : ActionReceipt} {profile : String} :
    validateReceiptCore receipt = [] ∧ receipt.profile = some profile ↔
      ReceiptRules receipt profile := by
  simp only [validateReceiptCore, pushIf_eq_nil, true_and, Bool.not_eq_false', and_assoc,
    Option.isNone_eq_false_iff]
  constructor
  · rintro ⟨h1, h2, h3, h4, h5⟩
    exact ⟨h1, h2, h3, h4, h5⟩
  · rintro ⟨h1, h2, h3, h4, h5⟩
    exact ⟨h1, h2, h3, h4, h5⟩

/-! ### Commerce -/

/-- The rules of a Commerce receipt on its own terms. -/
structure CommerceTermsRules (commerce : CommerceReceiptTerms) : Prop where
  currency : isCurrency commerce.currency = true
  quantity : 1 ≤ commerce.quantity
  unitPrice : isDecimal commerce.unitPrice = true
  totalAmount : isDecimal commerce.totalAmount = true
  product : isSafeInteger commerce.quantity = true ∧
    ∃ p, Denotes commerce.unitPrice p ∧ Denotes commerce.totalAmount (p * commerce.quantity)

/-- The rules of a Commerce receipt against the terms of the mandate. -/
structure CommerceLimitRules (commerce : CommerceReceiptTerms) (limit : CommerceTerms) :
    Prop where
  merchant : commerce.merchantOrganisationId = limit.merchantOrganisationId
  service : commerce.serviceId = limit.serviceId
  offer : commerce.offerId = limit.offerId
  currency : commerce.currency = limit.currency
  terms : ∀ digest, limit.termsDigest = some digest → digest ≠ "" →
    commerce.termsDigest = some digest
  quantity : commerce.quantity ≤ limit.maxQuantity
  unitPrice : WithinLimit commerce.unitPrice limit.maxUnitPrice
  total : WithinLimit commerce.totalAmount limit.maxTotal

/-- The total is compared with the product, or with the text for an unsafe quantity. -/
theorem compareProduct_iff {total price : String} {quantity : ℚ} (htotal : isDecimal total = true)
    (hprice : isDecimal price = true) (hquantity : 1 ≤ quantity) :
    compareDecimal total (multiplyDecimal price quantity) = some 0 ↔
      isSafeInteger quantity = true ∧ ∃ p, Denotes price p ∧ Denotes total (p * quantity) := by
  cases hsafe : isSafeInteger quantity with
  | false =>
    have hinvalid : multiplyDecimal price quantity = "invalid" := by
      rw [multiplyDecimal, hsafe, if_pos (by simp)]
    have hnone : compareDecimal total "invalid" = none :=
      compareDecimal_of_not_isDecimal fun h => absurd h.2 (by decide)
    rw [hinvalid, hnone]
    exact iff_of_false (by simp) (by simp)
  | true =>
    obtain ⟨n, rfl⟩ : ∃ n : ℕ, quantity = n := by
      have hint : (quantity.num : ℚ) = quantity := by
        rw [isSafeInteger, Bool.and_eq_true, beq_iff_eq] at hsafe
        exact Rat.coe_int_num_of_den_eq_one hsafe.1
      have hnonneg : 0 ≤ quantity.num := Rat.num_nonneg.mpr (by linarith)
      obtain ⟨n, hn⟩ := Int.eq_ofNat_of_zero_le hnonneg
      exact ⟨n, by rw [← hint, hn, Int.cast_natCast]⟩
    obtain ⟨product, hproduct⟩ := exists_multiplyDecimal hprice n
    obtain ⟨p, hp, hdenotes⟩ := multiplyDecimal_natCast hproduct
    obtain ⟨q, hq, -⟩ := exists_denotes htotal
    rw [multiplyDecimal_of_ok (isSafeInteger_natCast.mp hsafe) hproduct,
      compareDecimal_of_isDecimal htotal hdenotes.isDecimal hq hdenotes, Option.some.injEq]
    have hzero : (if q = p * n then (0 : ℤ) else if p * n < q then 1 else -1) = 0 ↔ q = p * n := by
      split_ifs <;> simp_all
    rw [hzero]
    constructor
    · rintro rfl
      exact ⟨rfl, p, hp, hq⟩
    · rintro ⟨-, p', hp', hq'⟩
      rw [hp.unique hp']
      exact hq.unique hq'

theorem checkCommerceTerms_eq_nil {commerce : CommerceReceiptTerms} {issues : List String} :
    checkCommerceTerms commerce issues = [] ↔ issues = [] ∧ CommerceTermsRules commerce := by
  simp only [checkCommerceTerms, pushIf_eq_nil, Bool.not_eq_false', decide_eq_false_iff_not,
    not_lt, and_assoc, Bool.and_eq_false_imp, bne_eq_false_iff_eq, Bool.and_eq_true, and_imp]
  constructor
  · rintro ⟨hissues, hcurrency, hquantity, hunit, htotal, hproduct⟩
    have hproduct := (compareProduct_iff htotal hunit hquantity).mp (hproduct hunit htotal)
    exact ⟨hissues, hcurrency, hquantity, hunit, htotal, hproduct⟩
  · rintro ⟨hissues, h⟩
    have hproduct := (compareProduct_iff h.totalAmount h.unitPrice h.quantity).mpr h.product
    exact ⟨hissues, h.currency, h.quantity, h.unitPrice, h.totalAmount, fun _ _ => hproduct⟩

theorem termsDigest_eq_false {limit digest : Option String} :
    (limit.any (· != "") && digest != limit) = false ↔
      ∀ s, limit = some s → s ≠ "" → digest = some s := by
  cases limit with
  | none => simp
  | some s => simp

theorem checkCommerceLimit_eq_nil {commerce : CommerceReceiptTerms} {limit : CommerceTerms}
    {issues : List String} :
    checkCommerceLimit commerce limit issues = [] ↔
      issues = [] ∧ CommerceLimitRules commerce limit := by
  simp only [checkCommerceLimit, pushIf_eq_nil, bne_eq_false_iff_eq, decide_eq_false_iff_not,
    gt_iff_lt, not_lt, and_assoc, termsDigest_eq_false, withinLimit_iff]
  refine and_congr_right fun _ => ⟨?_, ?_⟩
  · rintro ⟨h1, h2, h3, h4, h5, h6, h7, h8⟩
    exact ⟨h1, h2, h3, h4, h5, h6, h7, h8⟩
  · rintro ⟨h1, h2, h3, h4, h5, h6, h7, h8⟩
    exact ⟨h1, h2, h3, h4, h5, h6, h7, h8⟩

/-- The rules of a Commerce receipt under a mandate. -/
structure CommerceRules (receipt : CommerceReceipt) (commerce : CommerceReceiptTerms)
    (mandate : PurchaseMandate) (limit : CommerceTerms) : Prop where
  carried : receipt.commerce = some commerce
  granted : mandate.commerce = some limit
  core : ReceiptRules receipt.toActionReceipt COMMERCE_PROFILE
  terms : CommerceTermsRules commerce
  mandateId : receipt.mandateId = mandate.id
  limits : CommerceLimitRules commerce limit

theorem validateCommerceReceipt_valid_iff {receipt : CommerceReceipt} {mandate : PurchaseMandate} :
    validateCommerceReceipt receipt (some mandate) = .ok ⟨true, []⟩ ↔
      ∃ commerce limit, CommerceRules receipt commerce mandate limit := by
  have hchecked : ∀ commerce limit, receipt.commerce = some commerce →
      mandate.commerce = some limit →
      (validateCommerceReceipt receipt (some mandate) = .ok ⟨true, []⟩ ↔
        CommerceRules receipt commerce mandate limit) := by
    intro commerce limit hcommerce hlimit
    rw [validateCommerceReceipt, hcommerce]
    simp only [hlimit, Except.ok.injEq, result_eq_valid, checkCommerceLimit_eq_nil, pushIf_eq_nil,
      checkCommerceTerms_eq_nil, bne_eq_false_iff_eq, and_assoc]
    constructor
    · rintro ⟨hcore, hprofile, hterms, hid, hlimits⟩
      exact ⟨hcommerce, hlimit, receiptRules_iff.mp ⟨hcore, hprofile⟩, hterms, hid, hlimits⟩
    · intro h
      obtain ⟨hcore, hprofile⟩ := receiptRules_iff.mpr h.core
      exact ⟨hcore, hprofile, h.terms, h.mandateId, h.limits⟩
  constructor
  · intro h
    cases hcommerce : receipt.commerce with
    | none =>
      rw [validateCommerceReceipt, hcommerce] at h
      simp at h
    | some commerce =>
      cases hlimit : mandate.commerce with
      | none =>
        rw [validateCommerceReceipt, hcommerce] at h
        simp [hlimit] at h
      | some limit => exact ⟨commerce, limit, (hchecked _ _ hcommerce hlimit).mp h⟩
  · rintro ⟨commerce, limit, h⟩
    exact (hchecked commerce limit h.carried h.granted).mpr h

/-! ### RWA receipts -/

/-- The rules of an RWA receipt on its own terms. -/
structure RwaTermsRules (rwa : RwaReceiptTerms) : Prop where
  transaction : rwa.chainTransactionHash ≠ ""
  approvals : 0 ≤ rwa.approvalCount
  quantity : Positive rwa.quantity
  supply : rwa.resultingSupply.any isDecimal = true

/-- The rules of an RWA receipt against the terms of the mandate. -/
structure RwaLimitRules (rwa : RwaReceiptTerms) (limit : RwaMandateTerms) : Prop where
  asset : rwa.assetId = limit.assetId
  stateClaim : rwa.stateClaimId = limit.stateClaimId
  target : rwa.network = limit.network ∧ rwa.tokenContract = limit.tokenContract
  operation : rwa.operation = limit.operation
  unit : rwa.unit = limit.unit
  quantity : WithinLimit rwa.quantity limit.maxQuantity
  approvals : limit.minimumApprovals ≤ rwa.approvalCount

theorem checkRwaTerms_eq_nil {rwa : RwaReceiptTerms} {issues : List String} :
    checkRwaTerms rwa issues = [] ↔ issues = [] ∧ RwaTermsRules rwa := by
  simp only [checkRwaTerms, pushIf_eq_nil, beq_eq_false_iff_ne, decide_eq_false_iff_not, not_lt,
    Bool.not_eq_false', and_assoc, positive_iff]
  refine and_congr_right fun _ => ⟨?_, ?_⟩
  · rintro ⟨h1, h2, h3, h4⟩
    exact ⟨h1, h2, h3, h4⟩
  · rintro ⟨h1, h2, h3, h4⟩
    exact ⟨h1, h2, h3, h4⟩

theorem checkRwaLimit_eq_nil {rwa : RwaReceiptTerms} {limit : RwaMandateTerms}
    {issues : List String} :
    checkRwaLimit rwa limit issues = [] ↔ issues = [] ∧ RwaLimitRules rwa limit := by
  simp only [checkRwaLimit, pushIf_eq_nil, bne_eq_false_iff_eq, decide_eq_false_iff_not, not_lt,
    Bool.or_eq_false_iff, and_assoc, withinLimit_iff]
  refine and_congr_right fun _ => ⟨?_, ?_⟩
  · rintro ⟨h1, h2, h3, h4, h5, h6, h7, h8⟩
    exact ⟨h1, h2, ⟨h3, h4⟩, h5, h6, h7, h8⟩
  · rintro ⟨h1, h2, ⟨h3, h4⟩, h5, h6, h7, h8⟩
    exact ⟨h1, h2, h3, h4, h5, h6, h7, h8⟩

/-- The rules of an RWA receipt under a mandate. -/
structure RwaRules (receipt : RwaReceipt) (rwa : RwaReceiptTerms) (mandate : AssetMandate)
    (limit : RwaMandateTerms) : Prop where
  carried : receipt.rwa = some rwa
  granted : mandate.rwa = some limit
  core : ReceiptRules receipt.toActionReceipt RWA_PROFILE
  terms : RwaTermsRules rwa
  mandateId : receipt.mandateId = mandate.id
  limits : RwaLimitRules rwa limit

theorem validateRwaReceipt_valid_iff {receipt : RwaReceipt} {mandate : AssetMandate} :
    validateRwaReceipt receipt (some mandate) = .ok ⟨true, []⟩ ↔
      ∃ rwa limit, RwaRules receipt rwa mandate limit := by
  have hchecked : ∀ rwa limit, receipt.rwa = some rwa → mandate.rwa = some limit →
      (validateRwaReceipt receipt (some mandate) = .ok ⟨true, []⟩ ↔
        RwaRules receipt rwa mandate limit) := by
    intro rwa limit hrwa hlimit
    rw [validateRwaReceipt, hrwa]
    simp only [hlimit, Except.ok.injEq, result_eq_valid, checkRwaLimit_eq_nil, pushIf_eq_nil,
      checkRwaTerms_eq_nil, bne_eq_false_iff_eq, and_assoc]
    constructor
    · rintro ⟨hcore, hprofile, hterms, hid, hlimits⟩
      exact ⟨hrwa, hlimit, receiptRules_iff.mp ⟨hcore, hprofile⟩, hterms, hid, hlimits⟩
    · intro h
      obtain ⟨hcore, hprofile⟩ := receiptRules_iff.mpr h.core
      exact ⟨hcore, hprofile, h.terms, h.mandateId, h.limits⟩
  constructor
  · intro h
    cases hrwa : receipt.rwa with
    | none =>
      rw [validateRwaReceipt, hrwa] at h
      simp at h
    | some rwa =>
      cases hlimit : mandate.rwa with
      | none =>
        rw [validateRwaReceipt, hrwa] at h
        simp [hlimit] at h
      | some limit => exact ⟨rwa, limit, (hchecked _ _ hrwa hlimit).mp h⟩
  · rintro ⟨rwa, limit, h⟩
    exact (hchecked rwa limit h.carried h.granted).mpr h

/-! ### Mint mandates -/

/-- The rules of a mandate at a time. -/
structure MandateRules (engine : Engine) (mandate : AgentMandate) (now : ℤ) : Prop where
  id : startsWith mandate.id "oati:mandate:" = true
  subject : startsWith mandate.subject "oati:agent:" = true
  actions : mandate.actions ≠ []
  notBefore : NotLater engine mandate.notBefore now
  expiresAt : Later engine mandate.expiresAt now
  status : mandate.status = .active
  profile : mandate.profile = some RWA_PROFILE

/-- The rules of a mint mandate on its own terms. -/
structure MintTermsRules (rwa : RwaMandateTerms) : Prop where
  operation : rwa.operation = .mint
  oneTime : rwa.oneTime = true
  quantity : Positive rwa.maxQuantity
  approvals : 1 ≤ rwa.minimumApprovals

/-- The rules of a mint mandate against a State Claim. -/
structure ClaimRules (engine : Engine) (rwa : RwaMandateTerms) (claim : AssetStateClaim) (now : ℤ) :
    Prop where
  claimType : claim.claimType = .reserveBalance
  asset : rwa.assetId = claim.assetId
  stateClaim : rwa.stateClaimId = claim.id
  unit : rwa.unit = claim.unit
  validUntil : Later engine claim.validUntil now
  observedAt : NotLater engine claim.observedAt now
  order : ∀ t, dateParse engine claim.observedAt = some t → Later engine claim.validUntil t
  quantity : WithinLimit rwa.maxQuantity claim.value

theorem mandateRules_iff {mandate : AgentMandate} {now : ℤ} :
    validateMandateCore engine mandate now = [] ∧ mandate.profile = some RWA_PROFILE ↔
      MandateRules engine mandate now := by
  simp only [validateMandateCore, pushIf_eq_nil, true_and, Bool.not_eq_false', and_assoc,
    bne_eq_false_iff_eq, after_eq_false, notAfter_eq_false, List.isEmpty_eq_false_iff]
  constructor
  · rintro ⟨h1, h2, h3, h4, h5, h6, h7⟩
    exact ⟨h1, h2, h3, h4, h5, h6, h7⟩
  · rintro ⟨h1, h2, h3, h4, h5, h6, h7⟩
    exact ⟨h1, h2, h3, h4, h5, h6, h7⟩

theorem checkMintTerms_eq_nil {rwa : RwaMandateTerms} {issues : List String} :
    checkMintTerms rwa issues = [] ↔ issues = [] ∧ MintTermsRules rwa := by
  simp only [checkMintTerms, pushIf_eq_nil, bne_eq_false_iff_eq, decide_eq_false_iff_not, not_lt,
    Bool.not_eq_false', and_assoc, positive_iff]
  refine and_congr_right fun _ => ⟨?_, ?_⟩
  · rintro ⟨h1, h2, h3, h4⟩
    exact ⟨h1, h2, h3, h4⟩
  · rintro ⟨h1, h2, h3, h4⟩
    exact ⟨h1, h2, h3, h4⟩

theorem checkStateClaim_eq_nil {rwa : RwaMandateTerms} {claim : AssetStateClaim} {now : ℤ}
    {issues : List String} :
    checkStateClaim engine rwa claim now issues = [] ↔
      issues = [] ∧ ClaimRules engine rwa claim now := by
  have horder : (dateParse engine claim.observedAt).any (notAfter engine claim.validUntil) = false ↔
      ∀ t, dateParse engine claim.observedAt = some t → Later engine claim.validUntil t := by
    cases dateParse engine claim.observedAt with
    | none => simp
    | some t => simp [notAfter_eq_false]
  simp only [checkStateClaim, pushIf_eq_nil, bne_eq_false_iff_eq, and_assoc, after_eq_false,
    notAfter_eq_false, horder, withinLimit_iff]
  refine and_congr_right fun _ => ⟨?_, ?_⟩
  · rintro ⟨h1, h2, h3, h4, h5, h6, h7, h8⟩
    exact ⟨h1, h2, h3, h4, h5, h6, h7, h8⟩
  · rintro ⟨h1, h2, h3, h4, h5, h6, h7, h8⟩
    exact ⟨h1, h2, h3, h4, h5, h6, h7, h8⟩

/-- The rules of a mint mandate with a State Claim. -/
structure MintRules (engine : Engine) (mandate : AssetMandate) (rwa : RwaMandateTerms)
    (claim : AssetStateClaim) (now : ℤ) : Prop where
  granted : mandate.rwa = some rwa
  core : MandateRules engine mandate.toAgentMandate now
  terms : MintTermsRules rwa
  stateClaim : ClaimRules engine rwa claim now

theorem validateMintMandate_valid_iff {mandate : AssetMandate} {claim : AssetStateClaim} {now : ℤ} :
    validateMintMandate engine mandate (some claim) now = ⟨true, []⟩ ↔
      ∃ rwa, MintRules engine mandate rwa claim now := by
  unfold validateMintMandate
  cases hrwa : mandate.rwa with
  | none =>
    refine iff_of_false (by simp) ?_
    rintro ⟨rwa, h⟩
    exact absurd (hrwa.symm.trans h.granted) (Option.some_ne_none rwa).symm
  | some rwa =>
    simp only [result_eq_valid, checkStateClaim_eq_nil, checkMintTerms_eq_nil, pushIf_eq_nil,
      bne_eq_false_iff_eq, and_assoc]
    constructor
    · rintro ⟨hcore, hprofile, hterms, hclaim⟩
      exact ⟨rwa, hrwa, mandateRules_iff.mp ⟨hcore, hprofile⟩, hterms, hclaim⟩
    · rintro ⟨rwa', h⟩
      obtain rfl := Option.some.inj (hrwa.symm.trans h.granted)
      obtain ⟨hcore, hprofile⟩ := mandateRules_iff.mpr h.core
      exact ⟨hcore, hprofile, h.terms, h.stateClaim⟩

/-! ### Bounds -/

/-- What a valid mint mandate should say: the quantity is covered by the claimed reserve, and both
documents are in force. -/
structure MintBounds (engine : Engine) (mandate : AssetMandate) (claim : AssetStateClaim) (now : ℤ) :
    Prop where
  quantity : ∃ rwa m v, mandate.rwa = some rwa ∧ Denotes rwa.maxQuantity m ∧
    Denotes claim.value v ∧ 0 < m ∧ m ≤ v
  mandate : ∃ s e, dateParse engine mandate.notBefore = some s ∧
    dateParse engine mandate.expiresAt = some e ∧ s ≤ now ∧ now < e
  stateClaim : ∃ o u, dateParse engine claim.observedAt = some o ∧
    dateParse engine claim.validUntil = some u ∧ o ≤ now ∧ now < u

/-- The operands that no rule of a mint mandate asks for can be read. -/
structure MintReadable (engine : Engine) (mandate : AssetMandate) (claim : AssetStateClaim) :
    Prop where
  notBefore : ∃ t, dateParse engine mandate.notBefore = some t
  expiresAt : ∃ t, dateParse engine mandate.expiresAt = some t
  observedAt : ∃ t, dateParse engine claim.observedAt = some t
  validUntil : ∃ t, dateParse engine claim.validUntil = some t
  value : isDecimal claim.value = true

/-- What a valid Commerce receipt should say: the price and the total are within the mandate's. -/
def CommerceBounds (receipt : CommerceReceipt) (mandate : PurchaseMandate) : Prop :=
  ∃ commerce limit, receipt.commerce = some commerce ∧ mandate.commerce = some limit ∧
    TextAtMost commerce.unitPrice limit.maxUnitPrice ∧
    TextAtMost commerce.totalAmount limit.maxTotal

/-- The limits of a purchase mandate are decimals. -/
def CommerceReadable (mandate : PurchaseMandate) : Prop :=
  ∀ limit, mandate.commerce = some limit →
    isDecimal limit.maxUnitPrice = true ∧ isDecimal limit.maxTotal = true

/-- What a valid RWA receipt should say: the quantity is within the mandate's. -/
def RwaBounds (receipt : RwaReceipt) (mandate : AssetMandate) : Prop :=
  ∃ rwa limit, receipt.rwa = some rwa ∧ mandate.rwa = some limit ∧
    TextAtMost rwa.quantity limit.maxQuantity

/-- The limit of an asset mandate is a decimal. -/
def RwaReadable (mandate : AssetMandate) : Prop :=
  ∀ limit, mandate.rwa = some limit → isDecimal limit.maxQuantity = true

theorem mintBounds_iff {mandate : AssetMandate} {rwa : RwaMandateTerms} {claim : AssetStateClaim}
    {now : ℤ} (h : MintRules engine mandate rwa claim now) :
    MintBounds engine mandate claim now ↔ MintReadable engine mandate claim := by
  constructor
  · intro hbounds
    obtain ⟨_, _, v, -, -, hv, -, -⟩ := hbounds.quantity
    obtain ⟨s, e, hs, he, -, -⟩ := hbounds.mandate
    obtain ⟨o, u, ho, hu, -, -⟩ := hbounds.stateClaim
    exact ⟨⟨s, hs⟩, ⟨e, he⟩, ⟨o, ho⟩, ⟨u, hu⟩, hv.isDecimal⟩
  · intro hreadable
    obtain ⟨s, hs⟩ := hreadable.notBefore
    obtain ⟨e, he⟩ := hreadable.expiresAt
    obtain ⟨o, ho⟩ := hreadable.observedAt
    obtain ⟨u, hu⟩ := hreadable.validUntil
    obtain ⟨v, hv, -⟩ := exists_denotes hreadable.value
    obtain ⟨m, hm, hpos⟩ := h.terms.quantity
    exact ⟨⟨rwa, m, v, h.granted, hm, hv, hpos, h.stateClaim.quantity m v hm hv⟩,
      ⟨s, e, hs, he, h.core.notBefore s hs, h.core.expiresAt e he⟩,
      ⟨o, u, ho, hu, h.stateClaim.observedAt o ho, h.stateClaim.validUntil u hu⟩⟩

theorem commerceBounds_iff {receipt : CommerceReceipt} {commerce : CommerceReceiptTerms}
    {mandate : PurchaseMandate} {limit : CommerceTerms}
    (h : CommerceRules receipt commerce mandate limit) :
    CommerceBounds receipt mandate ↔ CommerceReadable mandate := by
  constructor
  · rintro ⟨_, limit', -, hgranted, ⟨_, _, -, hunit, -⟩, ⟨_, _, -, htotal, -⟩⟩ other hother
    obtain rfl := Option.some.inj (hgranted.symm.trans hother)
    exact ⟨hunit.isDecimal, htotal.isDecimal⟩
  · intro hreadable
    obtain ⟨hunit, htotal⟩ := hreadable limit h.granted
    exact ⟨commerce, limit, h.carried, h.granted,
      h.limits.unitPrice.textAtMost h.terms.unitPrice hunit,
      h.limits.total.textAtMost h.terms.totalAmount htotal⟩

theorem rwaBounds_iff {receipt : RwaReceipt} {rwa : RwaReceiptTerms} {mandate : AssetMandate}
    {limit : RwaMandateTerms} (h : RwaRules receipt rwa mandate limit) :
    RwaBounds receipt mandate ↔ RwaReadable mandate := by
  constructor
  · rintro ⟨_, limit', -, hgranted, ⟨_, _, -, hquantity, -⟩⟩ other hother
    obtain rfl := Option.some.inj (hgranted.symm.trans hother)
    exact hquantity.isDecimal
  · intro hreadable
    obtain ⟨q, hq, -⟩ := h.terms.quantity
    exact ⟨rwa, limit, h.carried, h.granted,
      h.limits.quantity.textAtMost hq.isDecimal (hreadable limit h.granted)⟩

/-- A valid document is within its bounds exactly if every operand that the rules compare can be
read, or a rule whose operands can be read is broken. -/
theorem failClosed_iff (mandate : AssetMandate) (claim : AssetStateClaim) (now : ℤ)
    (purchase : PurchaseMandate) (commerceReceipt : CommerceReceipt) (rwaReceipt : RwaReceipt) :
    ((validateMintMandate engine mandate (some claim) now = ⟨true, []⟩ →
        MintBounds engine mandate claim now) ↔
      MintReadable engine mandate claim ∨ ¬ ∃ rwa, MintRules engine mandate rwa claim now) ∧
    ((validateCommerceReceipt commerceReceipt (some purchase) = .ok ⟨true, []⟩ →
        CommerceBounds commerceReceipt purchase) ↔
      CommerceReadable purchase ∨
        ¬ ∃ commerce limit, CommerceRules commerceReceipt commerce purchase limit) ∧
    ((validateRwaReceipt rwaReceipt (some mandate) = .ok ⟨true, []⟩ →
        RwaBounds rwaReceipt mandate) ↔
      RwaReadable mandate ∨ ¬ ∃ rwa limit, RwaRules rwaReceipt rwa mandate limit) := by
  rw [validateMintMandate_valid_iff, validateCommerceReceipt_valid_iff,
    validateRwaReceipt_valid_iff]
  refine ⟨?_, ?_, ?_⟩
  · rw [imp_iff_not_or, or_comm]
    refine or_congr_left' fun hnot => ?_
    obtain ⟨rwa, h⟩ := not_not.mp hnot
    exact mintBounds_iff h
  · rw [imp_iff_not_or, or_comm]
    refine or_congr_left' fun hnot => ?_
    obtain ⟨commerce, limit, h⟩ := not_not.mp hnot
    exact commerceBounds_iff h
  · rw [imp_iff_not_or, or_comm]
    refine or_congr_left' fun hnot => ?_
    obtain ⟨rwa, limit, h⟩ := not_not.mp hnot
    exact rwaBounds_iff h

/-! ### A mint without an end -/

/-- A mandate to mint up to a hundred shares once. -/
def mintMandate : AssetMandate :=
  { brokerMandate with
    profile := some RWA_PROFILE
    extensions := some [("rwa", .obj (sampleTarget "mint"
      ++ [("max_quantity", .str "100"), ("one_time", .bool true), ("minimum_approvals", .num 1)]))]
    rwa := some
      { assetId := "building-7", stateClaimId := "claim-7", network := "testnet"
        tokenContract := "0x07", operation := .mint, unit := "share", maxQuantity := "100"
        oneTime := true, minimumApprovals := 1 }
    typed := .inr ⟨_, _, rfl, rfl, rfl⟩ }

/-- A reserve of five hundred shares. -/
def reserveClaim : AssetStateClaim :=
  { id := "claim-7", assetId := "building-7", claimType := .reserveBalance, value := "500"
    unit := "share", observedAt := "2026-07-01T00:00:00Z", validUntil := "2026-08-01T00:00:00Z" }

/-- A mandate whose end is not a date is valid, but not in force. -/
theorem failOpen_never :
    validateMintMandate plainEngine { mintMandate with expiresAt := "never" } (some reserveClaim)
        1785153600000 = ⟨true, []⟩ ∧
      ¬ MintBounds plainEngine { mintMandate with expiresAt := "never" } reserveClaim
        1785153600000 := by
  refine ⟨by decide +kernel, fun h => ?_⟩
  obtain ⟨s, e, -, he, -⟩ := h.mandate
  have hnone : dateParse plainEngine "never" = none := by decide +kernel
  exact absurd (hnone.symm.trans he) (Option.some_ne_none e).symm

end Oati.TypeScript.Profiles

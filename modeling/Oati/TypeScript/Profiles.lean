import Oati.Library.DigitOrder
import Oati.TypeScript.Snapshots
import Oati.TypeScript.Supply

/-!
# The profile validators

`index.ts` checks receipts and mint mandates after the fact, with decimal functions of its own:
`compareDecimal` never reads a number but compares lengths and strings, and operands outside the
grammar become `NaN` or the text `invalid` instead of an exception. A comparison with `NaN`, or
with an invalid date, is false.

* `validateCommerceReceipt`, `validateMintMandate`, `validateRwaReceipt`: the validators, with the
  issues in their order.
* `PurchaseMandate`, `AssetMandate`: a mandate with its terms, which are those of its own
  `extensions` record.
* `decimals_agree`: on the grammar, the decimal functions are those of the evaluator.
-/

namespace Oati.TypeScript.Profiles

open Numeral

variable {engine : Engine}

/-! ### Decimals -/

/-- `[whole = "0", fraction = ""] = value.split(".")`. -/
def wholeAndFraction (value : String) : String × String :=
  match value.toList.splitOn '.' with
  | [] => ("0", "")
  | [whole] => (String.ofList whole, "")
  | whole :: fraction :: _ => (String.ofList whole, String.ofList fraction)

/-- `value.length`. -/
def length (value : String) : ℕ := (utf16 value).length

/-- `left > right`. -/
def textGt (left right : String) : Bool := decide (utf16 right < utf16 left)

/-- `value.padEnd(width, "0")`. -/
def padEnd (value : String) (width : ℕ) : String :=
  String.ofList (value.toList ++ List.replicate (width - length value) '0')

/-- `compareDecimal`; `none` is `NaN`. -/
def compareDecimal (left right : String) : Option ℤ :=
  if !isDecimal left || !isDecimal right then none
  else
    let (leftWhole, leftFraction) := wholeAndFraction left
    let (rightWhole, rightFraction) := wholeAndFraction right
    if length leftWhole ≠ length rightWhole then
      if length leftWhole > length rightWhole then some 1 else some (-1)
    else if leftWhole ≠ rightWhole then
      if textGt leftWhole rightWhole then some 1 else some (-1)
    else
      let width := max (length leftFraction) (length rightFraction)
      let a := padEnd leftFraction width
      let b := padEnd rightFraction width
      if a = b then some 0 else if textGt a b then some 1 else some (-1)

/-- `Number.isSafeInteger(n)`. -/
def isSafeInteger (n : ℚ) : Bool := n.den == 1 && n.num.natAbs ≤ Double.maxSafeInteger

theorem isSafeInteger_natCast {n : ℕ} :
    isSafeInteger n = true ↔ n ≤ Double.maxSafeInteger := by
  rw [isSafeInteger, Rat.den_natCast, Rat.num_natCast, Int.natAbs_natCast, beq_self_eq_true,
    Bool.true_and, decide_eq_true_iff]

/-- `multiplyDecimal`. -/
def multiplyDecimal (value : String) (multiplier : ℚ) : String :=
  if !isDecimal value || !isSafeInteger multiplier || multiplier < 0 then "invalid"
  else
    let (whole, fraction) := wholeAndFraction value
    let coefficient := Nat.ofDigitChars 10 (whole ++ fraction).toList 0 * multiplier.num
    if length fraction = 0 then String.ofList (bigintChars coefficient)
    else
      let digits := (bigintChars coefficient).leftpad (length fraction + 1) '0'
      String.ofList (digits.take (digits.length - length fraction) ++ '.'
        :: digits.drop (digits.length - length fraction))

/-! ### Documents -/

section Views

variable (record : Record) (key : String)

/-- A member that is a string. -/
def textAt : Option String := (record.lookup key).bind Json.string?

/-- A member that is missing or a string. -/
def optionalTextAt : Option (Option String) :=
  match record.lookup key with
  | none => some none
  | some v => v.string?.map some

/-- A member that is a number. -/
def numberAt : Option ℚ :=
  match record.lookup key with
  | some (.num q) => some q
  | _ => none

/-- A member that is a boolean. -/
def booleanAt : Option Bool :=
  match record.lookup key with
  | some (.bool b) => some b
  | _ => none

/-- A member that is one of the operations. -/
def operationAt : Option RwaOperation :=
  (textAt record key).bind fun s =>
    [RwaOperation.mint, .burn, .transfer, .redeem, .publishState].find? (·.text == s)

end Views

/-- The value is missing, or an object that has the members with their types. -/
def ReadsAs {α : Type} (read : Record → Option α) (v : Option Value) (terms : Option α) : Prop :=
  v = none ∧ terms = none ∨
    ∃ record t, v = some (.obj record) ∧ read record = some t ∧ terms = some t

/-- `CommerceTerms`, the members the validators read. -/
structure CommerceTerms where
  merchantOrganisationId : String
  serviceId : String
  offerId : String
  currency : String
  maxUnitPrice : String
  maxTotal : String
  maxQuantity : ℚ
  termsDigest : Option String

/-- The terms in a record. -/
def CommerceTerms.read (record : Record) : Option CommerceTerms := do
  let merchantOrganisationId ← textAt record "merchant_organisation_id"
  let serviceId ← textAt record "service_id"
  let offerId ← textAt record "offer_id"
  let currency ← textAt record "currency"
  let maxUnitPrice ← textAt record "max_unit_price"
  let maxTotal ← textAt record "max_total"
  let maxQuantity ← numberAt record "max_quantity"
  let termsDigest ← optionalTextAt record "terms_digest"
  return { merchantOrganisationId, serviceId, offerId, currency, maxUnitPrice, maxTotal,
           maxQuantity, termsDigest }

/-- `RwaMandateTerms`, the members the validators read. -/
structure RwaMandateTerms where
  assetId : String
  stateClaimId : String
  network : String
  tokenContract : String
  operation : RwaOperation
  unit : String
  maxQuantity : String
  oneTime : Bool
  minimumApprovals : ℚ

/-- The terms in a record. -/
def RwaMandateTerms.read (record : Record) : Option RwaMandateTerms := do
  let assetId ← textAt record "asset_id"
  let stateClaimId ← textAt record "state_claim_id"
  let network ← textAt record "network"
  let tokenContract ← textAt record "token_contract"
  let operation ← operationAt record "operation"
  let unit ← textAt record "unit"
  let maxQuantity ← textAt record "max_quantity"
  let oneTime ← booleanAt record "one_time"
  let minimumApprovals ← numberAt record "minimum_approvals"
  return { assetId, stateClaimId, network, tokenContract, operation, unit, maxQuantity, oneTime,
           minimumApprovals }

/-- `PurchaseMandate`. -/
structure PurchaseMandate extends AgentMandate where
  commerce : Option CommerceTerms
  typed : ReadsAs CommerceTerms.read (extensions.bind (·.lookup "commerce")) commerce

/-- `AssetMandate`. -/
structure AssetMandate extends AgentMandate where
  rwa : Option RwaMandateTerms
  typed : ReadsAs RwaMandateTerms.read (extensions.bind (·.lookup "rwa")) rwa

/-- `ActionReceipt`, the members the validators read. -/
structure ActionReceipt where
  id : String
  transactionId : String
  mandateId : String
  profile : Option String
  proof : Option Record

/-- `CommerceReceiptTerms`, the members the validators read. -/
structure CommerceReceiptTerms where
  merchantOrganisationId : String
  serviceId : String
  offerId : String
  currency : String
  quantity : ℚ
  unitPrice : String
  totalAmount : String
  termsDigest : Option String

/-- `CommerceReceipt`. -/
structure CommerceReceipt extends ActionReceipt where
  commerce : Option CommerceReceiptTerms

/-- `RwaReceiptTerms`. -/
structure RwaReceiptTerms where
  assetId : String
  stateClaimId : String
  operation : RwaOperation
  network : String
  tokenContract : String
  quantity : String
  unit : String
  chainTransactionHash : String
  approvalCount : ℚ
  resultingSupply : Option String

/-- `RwaReceipt`. -/
structure RwaReceipt extends ActionReceipt where
  rwa : Option RwaReceiptTerms

inductive ClaimType where
  | reserveBalance
  | nav
  | eligibility
  | covenant
  | custody
  | collateral
  deriving DecidableEq, Repr

/-- `AssetStateClaim`, the members the validators read. -/
structure AssetStateClaim where
  id : String
  assetId : String
  claimType : ClaimType
  value : String
  unit : String
  observedAt : String
  validUntil : String

/-! ### Validation -/

structure ValidationResult where
  valid : Bool
  issues : List String
  deriving DecidableEq, Repr

/-- `result`. -/
def result (issues : List String) : ValidationResult := ⟨issues.isEmpty, issues⟩

/-- `if (condition) issues.push(issue)`. -/
def pushIf (issues : List String) (condition : Bool) (issue : String) : List String :=
  if condition then issues ++ [issue] else issues

@[simp] theorem pushIf_eq_nil {issues : List String} {condition : Bool} {issue : String} :
    pushIf issues condition issue = [] ↔ issues = [] ∧ condition = false := by
  cases condition <;> simp [pushIf]

/-- The text of a status. -/
def statusName : MandateStatus → String
  | .active => "active"
  | .suspended => "suspended"
  | .revoked => "revoked"
  | .expired => "expired"
  | .consumed => "consumed"

/-- `validateReceiptCore`. -/
def validateReceiptCore (receipt : ActionReceipt) : List String :=
  let issues := []
  let issues := pushIf issues (!startsWith receipt.id "oati:receipt:") "invalid Receipt id"
  let issues := pushIf issues (!startsWith receipt.transactionId "oati:tx:")
    "invalid transaction id"
  let issues := pushIf issues (!startsWith receipt.mandateId "oati:mandate:")
    "invalid Mandate reference"
  pushIf issues receipt.proof.isNone "missing Receipt proof"

/-- `new Date(left) > right`. An invalid date compares with nothing. -/
def after (engine : Engine) (left : String) (right : ℤ) : Bool :=
  (dateParse engine left).any fun t => t > right

/-- `new Date(left) <= right`. -/
def notAfter (engine : Engine) (left : String) (right : ℤ) : Bool :=
  (dateParse engine left).any fun t => t ≤ right

/-- `validateMandateCore`. -/
def validateMandateCore (engine : Engine) (mandate : AgentMandate) (now : ℤ) : List String :=
  let issues := []
  let issues := pushIf issues (!startsWith mandate.id "oati:mandate:") "invalid Mandate id"
  let issues := pushIf issues (!startsWith mandate.subject "oati:agent:") "invalid Mandate subject"
  let issues := pushIf issues mandate.actions.isEmpty "Mandate needs at least one action"
  let issues := pushIf issues (after engine mandate.notBefore now) "Mandate is not active yet"
  let issues := pushIf issues (notAfter engine mandate.expiresAt now) "Mandate is expired"
  pushIf issues (mandate.status != .active) ("Mandate status is " ++ statusName mandate.status)

/-- The checks of a Commerce receipt on its own terms. -/
def checkCommerceTerms (commerce : CommerceReceiptTerms) (issues : List String) : List String :=
  let issues := pushIf issues (!isCurrency commerce.currency)
    "currency must be a three-letter uppercase code"
  let issues := pushIf issues (commerce.quantity < 1) "quantity must be at least 1"
  let issues := pushIf issues (!isDecimal commerce.unitPrice)
    "unit_price must be a non-negative decimal string"
  let issues := pushIf issues (!isDecimal commerce.totalAmount)
    "total_amount must be a non-negative decimal string"
  pushIf issues (isDecimal commerce.unitPrice && isDecimal commerce.totalAmount
      && compareDecimal commerce.totalAmount (multiplyDecimal commerce.unitPrice commerce.quantity)
        != some 0)
    "total amount must equal unit price multiplied by quantity"

/-- The checks of a Commerce receipt against the terms of the mandate. -/
def checkCommerceLimit (commerce : CommerceReceiptTerms) (limit : CommerceTerms)
    (issues : List String) : List String :=
  let issues := pushIf issues (commerce.merchantOrganisationId != limit.merchantOrganisationId)
    "merchant is not authorised by Mandate"
  let issues := pushIf issues (commerce.serviceId != limit.serviceId)
    "service is not authorised by Mandate"
  let issues := pushIf issues (commerce.offerId != limit.offerId)
    "offer is not authorised by Mandate"
  let issues := pushIf issues (commerce.currency != limit.currency)
    "receipt currency differs from Mandate"
  let issues := pushIf issues
    (limit.termsDigest.any (· != "") && commerce.termsDigest != limit.termsDigest)
    "receipt terms digest differs from Mandate"
  let issues := pushIf issues (commerce.quantity > limit.maxQuantity) "quantity exceeds Mandate"
  let issues := pushIf issues ((compareDecimal commerce.unitPrice limit.maxUnitPrice).any (0 < ·))
    "unit price exceeds Mandate"
  pushIf issues ((compareDecimal commerce.totalAmount limit.maxTotal).any (0 < ·))
    "total amount exceeds Mandate"

/-- `validateCommerceReceipt`. -/
def validateCommerceReceipt (receipt : CommerceReceipt) (mandate : Option PurchaseMandate) :
    Except JsError ValidationResult :=
  let issues := validateReceiptCore receipt.toActionReceipt
  let issues := pushIf issues (receipt.profile != some COMMERCE_PROFILE)
    "unexpected Commerce profile URI"
  match receipt.commerce with
  | none => .ok (result (issues ++ ["missing extensions.commerce"]))
  | some commerce =>
    let issues := checkCommerceTerms commerce issues
    match mandate with
    | none => .ok (result issues)
    | some mandate =>
      let issues := pushIf issues (receipt.mandateId != mandate.id)
        "receipt mandate_id does not match Mandate"
      match mandate.commerce with
      | none => .error (.typeError
          "Cannot read properties of undefined (reading 'merchant_organisation_id')")
      | some limit => .ok (result (checkCommerceLimit commerce limit issues))

/-- The checks of a mint mandate on its own terms. -/
def checkMintTerms (rwa : RwaMandateTerms) (issues : List String) : List String :=
  let issues := pushIf issues (rwa.operation != .mint)
    "controlled-mint Mandate operation must be mint"
  let issues := pushIf issues (!rwa.oneTime) "controlled-mint Mandate must be one-time"
  let issues := pushIf issues
    (!isDecimal rwa.maxQuantity || (compareDecimal rwa.maxQuantity "0").any (· ≤ 0))
    "max_quantity must be greater than zero"
  pushIf issues (rwa.minimumApprovals < 1) "minimum_approvals must be at least 1"

/-- The checks of a mint mandate against a State Claim. -/
def checkStateClaim (engine : Engine) (rwa : RwaMandateTerms) (claim : AssetStateClaim) (now : ℤ)
    (issues : List String) : List String :=
  let issues := pushIf issues (claim.claimType != .reserveBalance)
    "controlled mint requires a reserve_balance State Claim"
  let issues := pushIf issues (rwa.assetId != claim.assetId)
    "State Claim asset differs from Mandate"
  let issues := pushIf issues (rwa.stateClaimId != claim.id) "State Claim id differs from Mandate"
  let issues := pushIf issues (rwa.unit != claim.unit) "State Claim unit differs from Mandate"
  let issues := pushIf issues (notAfter engine claim.validUntil now) "State Claim is expired"
  let issues := pushIf issues (after engine claim.observedAt now)
    "State Claim observation is in the future"
  let issues := pushIf issues
    ((dateParse engine claim.observedAt).any (notAfter engine claim.validUntil))
    "State Claim valid_until must be after observed_at"
  pushIf issues ((compareDecimal rwa.maxQuantity claim.value).any (0 < ·))
    "mint authority exceeds claimed reserve"

/-- `validateMintMandate`. -/
def validateMintMandate (engine : Engine) (mandate : AssetMandate) (claim : Option AssetStateClaim)
    (now : ℤ) : ValidationResult :=
  let issues := validateMandateCore engine mandate.toAgentMandate now
  let issues := pushIf issues (mandate.profile != some RWA_PROFILE) "unexpected RWA profile URI"
  match mandate.rwa with
  | none => result (issues ++ ["missing extensions.rwa"])
  | some rwa =>
    let issues := checkMintTerms rwa issues
    match claim with
    | none => result issues
    | some claim => result (checkStateClaim engine rwa claim now issues)

/-- The checks of an RWA receipt on its own terms. -/
def checkRwaTerms (rwa : RwaReceiptTerms) (issues : List String) : List String :=
  let issues := pushIf issues (rwa.chainTransactionHash == "") "missing chain transaction hash"
  let issues := pushIf issues (rwa.approvalCount < 0) "approval_count cannot be negative"
  let issues := pushIf issues
    (!isDecimal rwa.quantity || (compareDecimal rwa.quantity "0").any (· ≤ 0))
    "receipt quantity must be greater than zero"
  pushIf issues (!rwa.resultingSupply.any isDecimal)
    "receipt resulting_supply must be a non-negative decimal string"

/-- The checks of an RWA receipt against the terms of the mandate. -/
def checkRwaLimit (rwa : RwaReceiptTerms) (limit : RwaMandateTerms) (issues : List String) :
    List String :=
  let issues := pushIf issues (rwa.assetId != limit.assetId) "receipt asset differs from Mandate"
  let issues := pushIf issues (rwa.stateClaimId != limit.stateClaimId)
    "receipt State Claim differs from Mandate"
  let issues := pushIf issues
    (rwa.network != limit.network || rwa.tokenContract != limit.tokenContract)
    "receipt token target differs from Mandate"
  let issues := pushIf issues (rwa.operation != limit.operation)
    "receipt operation differs from Mandate"
  let issues := pushIf issues (rwa.unit != limit.unit) "receipt unit differs from Mandate"
  let issues := pushIf issues ((compareDecimal rwa.quantity limit.maxQuantity).any (0 < ·))
    "receipt quantity exceeds Mandate"
  pushIf issues (rwa.approvalCount < limit.minimumApprovals)
    "receipt has insufficient approvals"

/-- `validateRwaReceipt`. -/
def validateRwaReceipt (receipt : RwaReceipt) (mandate : Option AssetMandate) :
    Except JsError ValidationResult :=
  let issues := validateReceiptCore receipt.toActionReceipt
  let issues := pushIf issues (receipt.profile != some RWA_PROFILE) "unexpected RWA profile URI"
  match receipt.rwa with
  | none => .ok (result (issues ++ ["missing extensions.rwa"]))
  | some rwa =>
    let issues := checkRwaTerms rwa issues
    match mandate with
    | none => .ok (result issues)
    | some mandate =>
      let issues := pushIf issues (receipt.mandateId != mandate.id)
        "receipt mandate_id does not match Mandate"
      match mandate.rwa with
      | none => .error (.typeError "Cannot read properties of undefined (reading 'asset_id')")
      | some limit => .ok (result (checkRwaLimit rwa limit issues))

/-! ### Agreement with the evaluator -/

/-- The code units of digits. -/
theorem utf16_ofList {cs : List Char} (h : ∀ c ∈ cs, c.isDigit) :
    utf16 (String.ofList cs) = cs.map Char.toNat := by
  rw [utf16, String.toList_ofList]
  induction cs with
  | nil => rfl
  | cons c cs ih =>
    have hc := toNat_of_isDigit (h c List.mem_cons_self)
    rw [List.flatMap_cons, if_pos (by omega), ih fun d hd => h d (List.mem_cons_of_mem c hd)]
    rfl

theorem length_ofList {cs : List Char} (h : ∀ c ∈ cs, c.isDigit) :
    length (String.ofList cs) = cs.length := by
  rw [length, utf16_ofList h, List.length_map]

/-- Strings of digits are compared as their codes. -/
theorem textGt_ofList {as bs : List Char} (ha : ∀ c ∈ as, c.isDigit) (hb : ∀ c ∈ bs, c.isDigit) :
    textGt (String.ofList as) (String.ofList bs) = decide (bs.map Char.toNat < as.map Char.toNat) := by
  rw [textGt, utf16_ofList ha, utf16_ofList hb]

/-- Both implementations read the same digits. -/
structure Parts (value : String) (whole fraction : List Char) : Prop where
  isWhole : IsWhole whole
  digits : ∀ c ∈ fraction, c.isDigit
  split : wholeAndFraction value = (String.ofList whole, String.ofList fraction)
  parsed : parseDecimal value
    = .ok ⟨Nat.ofDigitChars 10 (whole ++ fraction) 0, fraction.length⟩

theorem exists_parts {value : String} (h : isDecimal value = true) :
    ∃ whole fraction, Parts value whole fraction := by
  obtain ⟨parts, hsplit⟩ : ∃ parts, value.toList.splitOn '.' = parts := ⟨_, rfl⟩
  have hparse := h
  rw [isDecimal, hsplit] at hparse
  rcases parts with _ | ⟨whole, _ | ⟨fraction, _ | ⟨_, _⟩⟩⟩
  · cases hparse
  · refine ⟨whole, [], hparse, fun c hc => (by cases hc), ?_, ?_⟩
    · rw [wholeAndFraction, hsplit]
    · rw [parseDecimal, if_pos h, hsplit, List.append_nil]
      rfl
  · obtain ⟨hwhole, hfraction⟩ := Bool.and_eq_true_iff.mp hparse
    simp only [IsFraction, Bool.and_eq_true, List.all_eq_true] at hfraction
    refine ⟨whole, fraction, hwhole, hfraction.2, ?_, ?_⟩
    · rw [wholeAndFraction, hsplit]
    · rw [parseDecimal, if_pos h, hsplit]
  · cases hparse

namespace Parts

variable {value left right : String} {whole fraction : List Char}

theorem denotes (h : Parts value whole fraction) :
    Denotes value (Nat.ofDigitChars 10 whole 0 + fractionValue fraction) :=
  ⟨_, h.parsed, value_append_digits whole fraction⟩

theorem length_fraction (h : Parts value whole fraction) :
    length (String.ofList fraction) = fraction.length :=
  length_ofList h.digits

end Parts

/-- Zeros fill a fraction up to a width. -/
theorem padEnd_ofList {fraction : List Char} (h : ∀ c ∈ fraction, c.isDigit) (width : ℕ) :
    padEnd (String.ofList fraction) width
      = String.ofList (fraction ++ List.replicate (width - fraction.length) '0') := by
  rw [padEnd, String.toList_ofList, length_ofList h]

/-- Comparing two fractions at the larger of their lengths is comparing their values. -/
theorem compareFractions_eq {as bs : List Char} (ha : ∀ c ∈ as, c.isDigit)
    (hb : ∀ c ∈ bs, c.isDigit) (m : ℚ) :
    let width := max as.length bs.length
    let a := String.ofList (as ++ List.replicate (width - as.length) '0')
    let b := String.ofList (bs ++ List.replicate (width - bs.length) '0')
    (if a = b then some 0 else if textGt a b then some 1 else some (-1) : Option ℤ)
      = some (if m + fractionValue as = m + fractionValue bs then 0
        else if m + fractionValue bs < m + fractionValue as then 1 else -1) := by
  intro width a b
  have hzeros : ∀ n, ∀ c ∈ List.replicate n '0', c.isDigit := by
    intro n c hc
    rw [List.eq_of_mem_replicate hc]
    rfl
  have hda : ∀ c ∈ as ++ List.replicate (width - as.length) '0', c.isDigit := by
    intro c hc
    exact (List.mem_append.mp hc).elim (ha c) (hzeros _ c)
  have hdb : ∀ c ∈ bs ++ List.replicate (width - bs.length) '0', c.isDigit := by
    intro c hc
    exact (List.mem_append.mp hc).elim (hb c) (hzeros _ c)
  have hlen : (as ++ List.replicate (width - as.length) '0').length
      = (bs ++ List.replicate (width - bs.length) '0').length := by
    have hleft : as.length ≤ width := le_max_left _ _
    have hright : bs.length ≤ width := le_max_right _ _
    simp only [List.length_append, List.length_replicate]
    omega
  have heq : a = b ↔ m + fractionValue as = m + fractionValue bs := by
    rw [String.ofList_inj, ← fractionValue_inj hlen hda hdb, fractionValue_append_zeros,
      fractionValue_append_zeros, add_right_inj]
  have hlt : textGt a b = true ↔ m + fractionValue bs < m + fractionValue as := by
    rw [textGt_ofList hda hdb, decide_eq_true_eq, ← fractionValue_lt_iff hlen.symm hdb hda,
      fractionValue_append_zeros, fractionValue_append_zeros, add_lt_add_iff_left]
  simp only [heq, hlt]
  split_ifs <;> rfl

/-- On the grammar, the comparison without numbers is that of the values. -/
theorem compareDecimal_of_isDecimal {left right : String} (hl : isDecimal left = true)
    (hr : isDecimal right = true) {p q : ℚ} (hp : Denotes left p) (hq : Denotes right q) :
    compareDecimal left right = some (if p = q then 0 else if q < p then 1 else -1) := by
  obtain ⟨whole, fraction, hleft⟩ := exists_parts hl
  obtain ⟨whole', fraction', hright⟩ := exists_parts hr
  obtain rfl := hp.unique hleft.denotes
  obtain rfl := hq.unique hright.denotes
  rw [compareDecimal, hl, hr, hleft.split, hright.split]
  simp only [Bool.not_true, Bool.or_self, Bool.false_eq_true, if_false,
    length_ofList (isDigit_of_isWhole hleft.isWhole),
    length_ofList (isDigit_of_isWhole hright.isWhole), hleft.length_fraction,
    hright.length_fraction, padEnd_ofList hleft.digits, padEnd_ofList hright.digits]
  -- the larger whole part decides, whatever the fractions are
  have hless : Nat.ofDigitChars 10 whole 0 < Nat.ofDigitChars 10 whole' 0 →
      some (-1) = some (if (Nat.ofDigitChars 10 whole 0 + fractionValue fraction : ℚ)
          = Nat.ofDigitChars 10 whole' 0 + fractionValue fraction' then (0 : ℤ)
        else if (Nat.ofDigitChars 10 whole' 0 + fractionValue fraction' : ℚ)
          < Nat.ofDigitChars 10 whole 0 + fractionValue fraction then 1 else -1) := by
    intro hlt
    have hlt := lt_of_whole_lt hlt hleft.digits fraction'
    rw [if_neg hlt.ne, if_neg hlt.asymm]
  have hgreater : Nat.ofDigitChars 10 whole' 0 < Nat.ofDigitChars 10 whole 0 →
      some 1 = some (if (Nat.ofDigitChars 10 whole 0 + fractionValue fraction : ℚ)
          = Nat.ofDigitChars 10 whole' 0 + fractionValue fraction' then (0 : ℤ)
        else if (Nat.ofDigitChars 10 whole' 0 + fractionValue fraction' : ℚ)
          < Nat.ofDigitChars 10 whole 0 + fractionValue fraction then 1 else -1) := by
    intro hlt
    have hlt := lt_of_whole_lt hlt hright.digits fraction
    rw [if_neg hlt.ne', if_pos hlt]
  by_cases hlen : whole.length = whole'.length
  · rw [if_neg (not_not.mpr hlen)]
    have hd := isDigit_of_isWhole hleft.isWhole
    have hd' := isDigit_of_isWhole hright.isWhole
    by_cases hsame : whole = whole'
    · subst hsame
      rw [if_neg (not_not.mpr rfl)]
      exact compareFractions_eq hleft.digits hright.digits _
    · have hne : Nat.ofDigitChars 10 whole 0 ≠ Nat.ofDigitChars 10 whole' 0 :=
        fun h => hsame ((ofDigitChars_inj hlen hd hd').mp h)
      rw [if_pos (fun h => hsame (String.ofList_inj.mp h)), textGt_ofList hd hd']
      by_cases hlt : whole'.map Char.toNat < whole.map Char.toNat
      · rw [if_pos (decide_eq_true hlt)]
        exact hgreater ((ofDigitChars_lt_iff hlen.symm hd' hd).mpr hlt)
      · rw [if_neg (by simpa using hlt)]
        have hle : ¬ Nat.ofDigitChars 10 whole' 0 < Nat.ofDigitChars 10 whole 0 :=
          fun h => hlt ((ofDigitChars_lt_iff hlen.symm hd' hd).mp h)
        exact hless (by omega)
  · rw [if_pos hlen]
    by_cases hgt : whole.length > whole'.length
    · rw [if_pos hgt]
      exact hgreater (ofDigitChars_lt_of_length_lt hright.isWhole hleft.isWhole hgt)
    · rw [if_neg hgt]
      exact hless (ofDigitChars_lt_of_length_lt hleft.isWhole hright.isWhole (by omega))

theorem compareDecimal_of_ok {left right : String} {c : ℤ}
    (h : TypeScript.compareDecimal left right = .ok c) : compareDecimal left right = some c := by
  obtain ⟨p, q, hp, hq, rfl⟩ := compareDecimal_eq_ok.mp h
  exact compareDecimal_of_isDecimal hp.isDecimal hq.isDecimal hp hq

/-- On the grammar and the safe naturals, the products are the same text. -/
theorem multiplyDecimal_of_ok {value product : String} {n : ℕ} (hn : n ≤ Double.maxSafeInteger)
    (h : TypeScript.multiplyDecimal value n = .ok product) :
    multiplyDecimal value n = product := by
  obtain ⟨q, hq, -⟩ := multiplyDecimal_natCast h
  have hsafe := isSafeInteger_natCast.mpr hn
  have hnonneg : ¬ ((n : ℚ) < 0) := not_lt.mpr (Nat.cast_nonneg n)
  obtain ⟨whole, fraction, hparts⟩ := exists_parts hq.isDecimal
  simp only [TypeScript.multiplyDecimal, hparts.parsed, bind, Except.bind, toBigInt,
    Rat.den_natCast, if_true, Rat.num_natCast, pure, Except.pure, Except.ok.injEq] at h
  simp only [multiplyDecimal, hq.isDecimal, hsafe, hnonneg, hparts.split, hparts.length_fraction,
    Bool.not_true, Bool.or_self, decide_false, Bool.false_eq_true, if_false, Rat.num_natCast,
    String.toList_append, String.toList_ofList]
  rw [← h, formatDecimal]

/-- The decimal functions of the receipt validators are those of the evaluator, on the grammar
and the safe naturals. -/
theorem decimals_agree {a b : String} (ha : isDecimal a = true) (hb : isDecimal b = true) {n : ℕ}
    (hn : n ≤ Double.maxSafeInteger) :
    (∃ c, TypeScript.compareDecimal a b = .ok c ∧ compareDecimal a b = some c) ∧
    ∃ product, TypeScript.multiplyDecimal a n = .ok product ∧ multiplyDecimal a n = product := by
  obtain ⟨p, hp, -⟩ := exists_denotes ha
  obtain ⟨q, hq, -⟩ := exists_denotes hb
  have hcompare := compareDecimal_eq_ok.mpr ⟨p, q, hp, hq, rfl⟩
  obtain ⟨product, hproduct⟩ := exists_multiplyDecimal ha n
  exact ⟨⟨_, hcompare, compareDecimal_of_ok hcompare⟩, product, hproduct,
    multiplyDecimal_of_ok hn hproduct⟩

/-- A price with a longer fraction against one with a longer whole part. -/
theorem decimals_agree_price :
    (∃ c, TypeScript.compareDecimal "9.050" "10.5" = .ok c ∧
      compareDecimal "9.050" "10.5" = some c) ∧
    ∃ product, TypeScript.multiplyDecimal "9.050" (3 : ℕ) = .ok product ∧
      multiplyDecimal "9.050" (3 : ℕ) = product :=
  decimals_agree (by decide) (by decide) (by decide)

end Oati.TypeScript.Profiles

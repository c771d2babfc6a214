import Oati.TypeScript.Decimal

/-!
# The authority evaluator of the TypeScript SDK

`evaluator.ts`, function by function. A request holds the mandate, the envelope and the prior
usage as their schemas type them; `limits`, `data_use` and `extensions` are free-form records,
and the RWA context is a raw value, since a gateway passes it on from the envelope unchecked.

The mutable `Set` of reason codes is threaded through the checks in insertion order. A check
that may throw (a malformed timestamp or decimal) is in `Except JsError`; `orThrow` and
`andThrow` are the short-circuiting operators for such conditions.
-/

namespace Oati.TypeScript

/-! ### Documents -/

inductive MandateStatus where
  | active
  | suspended
  | revoked
  | expired
  | consumed
  deriving DecidableEq, Repr

structure Delegation where
  allowed : Bool
  maxDepth : ℤ
  deriving DecidableEq, Repr

/-- `AgentMandate`, the members the evaluator reads. -/
structure AgentMandate where
  id : String
  subject : String
  parentMandate : Option String := none
  purpose : String
  actions : List String
  resources : Option (List String) := none
  counterparties : Option (List String) := none
  destinations : Option (List String) := none
  limits : Option Record := none
  dataUse : Option Record := none
  delegation : Option Delegation := none
  notBefore : String
  expiresAt : String
  status : MandateStatus
  profile : Option String := none
  extensions : Option Record := none

/-- `TransactionEnvelope`, the members the evaluator and the middleware read. -/
structure TransactionEnvelope where
  id : String
  agentId : String
  organisationId : String
  mandateId : String
  action : String
  resource : String
  purpose : Option String := none
  destination : Option String := none
  counterparty : Option String := none
  commercialProfile : Option String := none
  requestDigest : Option String := none
  profile : Option String := none
  extensions : Option Record := none

structure UsageSnapshot where
  calls : Option ℕ := none
  amount : Option String := none
  currency : Option String := none
  quantity : Option String := none
  consumed : Option Bool := none
  idempotencyKeys : Option (List String) := none
  mintedSupply : Option String := none
  deriving DecidableEq, Repr

/-- `Required<UsageSnapshot>`. -/
structure Usage where
  calls : ℕ
  amount : String
  currency : String
  quantity : String
  consumed : Bool
  idempotencyKeys : List String
  mintedSupply : String
  deriving DecidableEq, Repr

/-- A normalized usage is itself a snapshot. -/
def Usage.toSnapshot (usage : Usage) : UsageSnapshot :=
  { calls := some usage.calls, amount := some usage.amount, currency := some usage.currency,
    quantity := some usage.quantity, consumed := some usage.consumed,
    idempotencyKeys := some usage.idempotencyKeys, mintedSupply := some usage.mintedSupply }

structure Consumption where
  calls : Option ℕ := none
  amount : Option String := none
  currency : Option String := none
  quantity : Option String := none
  idempotencyKey : Option String := none
  consume : Option Bool := none
  deriving DecidableEq, Repr

/-- `Required<Consumption>`. The quantity may come from a raw RWA context. -/
structure EffectiveConsumption where
  calls : ℕ
  amount : String
  currency : String
  quantity : Value
  idempotencyKey : String
  consume : Bool

structure CommerceEvaluationContext where
  merchantOrganisationId : String
  serviceId : String
  offerId : String
  currency : String
  quantity : ℚ
  unitPrice : String
  totalAmount : String
  idempotencyKey : String
  termsDigest : Option String := none

structure EvaluationRequest where
  evaluationTime : String
  mandate : AgentMandate
  parentMandate : Option AgentMandate := none
  delegationDepth : Option ℤ := none
  envelope : TransactionEnvelope
  usage : UsageSnapshot := {}
  consumption : Option Consumption := none
  commerce : Option CommerceEvaluationContext := none
  rwa : Option Value := none

inductive Decision where
  | allow
  | deny
  deriving DecidableEq, Repr

structure EvaluationResult where
  decision : Decision
  mandateId : String
  transactionId : String
  reasonCodes : List String
  nextUsage : UsageSnapshot
  deriving DecidableEq, Repr

def COMMERCE_PROFILE : String := "https://specs.intelliger.ai/oati/profiles/commerce/v0.1"
def RWA_PROFILE : String := "https://specs.intelliger.ai/oati/profiles/rwa/v0.1"

/-! ### Reason codes and conditions that may throw -/

/-- The `Set` of reason codes, in insertion order. -/
abbrev Reasons := List String

namespace Reasons

/-- `reasons.add(code)`. -/
def add (reasons : Reasons) (code : String) : Reasons :=
  if code ∈ reasons then reasons else reasons ++ [code]

/-- `if (condition) reasons.add(code)`. -/
def addIf (reasons : Reasons) (condition : Bool) (code : String) : Reasons :=
  if condition then reasons.add code else reasons

/-- `if (condition && ![...reasons].some(test)) reasons.add(code)`. -/
def addUnlessSome (reasons : Reasons) (test : String → Bool) (condition : Bool) (code : String) :
    Reasons :=
  reasons.addIf (condition && !reasons.any test) code

theorem mem_add {reasons : Reasons} {code : String} : code ∈ reasons.add code := by
  unfold add; split <;> simp_all

@[simp] theorem add_ne_nil (reasons : Reasons) (code : String) : reasons.add code ≠ [] :=
  List.ne_nil_of_mem mem_add

/-- No code is there after a check exactly if none was before and the condition fails. -/
@[simp] theorem addIf_eq_nil {reasons : Reasons} {condition : Bool} {code : String} :
    reasons.addIf condition code = [] ↔ reasons = [] ∧ condition = false := by
  cases condition <;> simp [addIf]

@[simp] theorem addUnlessSome_eq_nil {reasons : Reasons} {test : String → Bool}
    {condition : Bool} {code : String} :
    reasons.addUnlessSome test condition code = [] ↔ reasons = [] ∧ condition = false := by
  rw [addUnlessSome, addIf_eq_nil]
  constructor
  · rintro ⟨rfl, h⟩
    exact ⟨rfl, by simpa using h⟩
  · rintro ⟨rfl, rfl⟩
    exact ⟨rfl, rfl⟩

end Reasons

/-- `a || b`. -/
def orThrow (a b : Except JsError Bool) : Except JsError Bool := do
  if ← a then return true else b

/-- `a && b`. -/
def andThrow (a b : Except JsError Bool) : Except JsError Bool := do
  if ← a then b else return false

@[simp] theorem orThrow_eq_false {a b : Except JsError Bool} :
    orThrow a b = .ok false ↔ a = .ok false ∧ b = .ok false := by
  rcases a with _ | _ | _ <;> simp [orThrow, bind, Except.bind, pure, Except.pure]

@[simp] theorem andThrow_eq_false {a b : Except JsError Bool} :
    andThrow a b = .ok false ↔ a = .ok false ∨ a = .ok true ∧ b = .ok false := by
  rcases a with _ | _ | _ <;> simp [andThrow, bind, Except.bind, pure, Except.pure]

/-! ### The helpers at the end of the file -/

/-- `timestamp`. -/
def timestamp (engine : Engine) (value : String) : Except JsError ℤ :=
  match dateParse engine value with
  | some parsed => .ok parsed
  | none => .error (.typeError ("Invalid RFC 3339 timestamp: " ++ value))

/-- `checkSetConstraint`. -/
def checkSetConstraint (allowed : Option (List String)) (actual : Option String) (code : String)
    (reasons : Reasons) : Reasons :=
  match allowed with
  | none => reasons
  | some items =>
    reasons.addIf (match actual with | none => true | some a => a == "" || !items.contains a) code

/-- `subset`. -/
def subset (child parent : List String) : Bool := child.all fun item => parent.contains item

/-- `constrainedSubset`. -/
def constrainedSubset (child parent : Option (List String)) : Bool :=
  match parent with
  | none => true
  | some p => child.any fun c => subset c p

/-- `sameMappedFields`; `sameFields` is the case of equal names. -/
def sameMappedFields (left right : String → Option Value) (fields : List (String × String)) :
    Bool :=
  fields.all fun (l, r) => strictEq (left l) (right r)

/-- `sameFields`. -/
def sameFields (child parent : String → Option Value) (fields : List String) : Bool :=
  fields.all fun field => strictEq (child field) (parent field)

/-- `numberAtMost`. -/
def numberAtMost (child parent : Option Value) : Bool :=
  match child, parent with
  | some (.num c), some (.num p) => decide (c ≤ p)
  | _, _ => false

/-- `numberAtLeast`. -/
def numberAtLeast (child parent : Option Value) : Bool :=
  match child, parent with
  | some (.num c), some (.num p) => decide (p ≤ c)
  | _, _ => false

/-- `decimalAtMost`. -/
def decimalAtMost (child parent : Option Value) : Except JsError Bool :=
  match child, parent with
  | some (.str c), some (.str p) => do return decide ((← compareDecimal c p) ≤ 0)
  | _, _ => .ok false

/-- `child[key]`, which may find an inherited property. Of those only `__proto__` is not a
function: it is `Object.prototype`, whose own `__proto__` is `null`. A function is neither
equal to a JSON value nor of its type, so it is left out like `undefined`. -/
def property (child : Record) (key : String) : Option Value :=
  match child.lookup key with
  | some v => some v
  | none => if key = "__proto__" then some (.obj [("__proto__", .null)]) else none

/-- The entry of a decimal bound. Comparing two strings that passed `isDecimal` does not
throw. -/
def narrowerDecimal (childValue : Option Value) (parentValue : String) : Bool :=
  match childValue with
  | some (.str c) =>
    isDecimal c
      && match compareDecimal c parentValue with
        | .ok n => decide (n ≤ 0)
        | .error _ => false
  | _ => false

mutual

/-- `narrowerObject` on two objects: every entry of the parent bounds the child's. -/
def narrowerMembers (child : Record) : List (String × Value) → Bool
  | [] => true
  | (key, parentValue) :: rest =>
    narrowerValue (property child key) parentValue && narrowerMembers child rest
termination_by structural entries => entries

/-- One entry of `narrowerObject`. -/
def narrowerValue (childValue : Option Value) : Value → Bool
  | .num p => match childValue with
    | some (.num c) => decide (c ≤ p)
    | _ => false
  | .str p =>
    if isDecimal p then narrowerDecimal childValue p else strictEq childValue (some (.str p))
  | .arr items => match childValue with
    | some (.arr cs) => cs.all fun item => includes items item
    | _ => false
  | .obj members => match childValue with
    | some (.obj cs) => narrowerMembers cs members
    | _ => false
  | .bool b => strictEq childValue (some (.bool b))
  | .null => strictEq childValue (some .null)
termination_by structural parentValue => parentValue

end

/-- `narrowerObject`. -/
def narrowerObject (child parent : Option Record) : Bool :=
  match parent with
  | none => true
  | some p => child.any fun c => narrowerMembers c p

/-! ### Delegation -/

/-- The Commerce condition of `checkProfileSubset`, on the `extensions.commerce` objects. -/
def commerceWidened (child parent : Option Record) : Except JsError Bool :=
  match parent, child with
  | none, _ => .ok false
  | some _, none => .ok true
  | some p, some c =>
    orThrow (.ok (!sameFields (c.lookup ·) (p.lookup ·)
      ["merchant_organisation_id", "service_id", "offer_id", "currency", "billing_model",
        "terms_digest"]))
    <| orThrow (Bool.not <$> decimalAtMost (c.lookup "max_unit_price") (p.lookup "max_unit_price"))
    <| orThrow (Bool.not <$> decimalAtMost (c.lookup "max_total") (p.lookup "max_total"))
    <| .ok (!numberAtMost (c.lookup "max_quantity") (p.lookup "max_quantity"))

/-- The RWA condition of `checkProfileSubset`, on the `extensions.rwa` objects. -/
def rwaWidened (child parent : Option Record) : Except JsError Bool :=
  match parent, child with
  | none, _ => .ok false
  | some _, none => .ok true
  | some p, some c =>
    orThrow (.ok (!sameFields (c.lookup ·) (p.lookup ·)
      ["asset_id", "state_claim_id", "network", "token_contract", "operation", "unit"]))
    <| orThrow (Bool.not <$> decimalAtMost (c.lookup "max_quantity") (p.lookup "max_quantity"))
    <| .ok (!numberAtLeast (c.lookup "minimum_approvals") (p.lookup "minimum_approvals")
        || !subset (stringArray (p.lookup "required_roles"))
          (stringArray (c.lookup "required_roles"))
        || strictEq (p.lookup "one_time") (some (.bool true))
          && !strictEq (c.lookup "one_time") (some (.bool true)))

/-- `checkProfileSubset`. -/
def checkProfileSubset (child parent : AgentMandate) (reasons : Reasons) :
    Except JsError Reasons := do
  if child.profile ≠ parent.profile then
    return reasons.addIf (child.profile.any (· != "") || parent.profile.any (· != ""))
      "CHILD_PROFILE_AMPLIFICATION"
  let commerce ← commerceWidened (objectAt child.extensions "commerce")
    (objectAt parent.extensions "commerce")
  let reasons := reasons.addIf commerce "CHILD_COMMERCE_AMPLIFICATION"
  let rwa ← rwaWidened (objectAt child.extensions "rwa") (objectAt parent.extensions "rwa")
  return reasons.addIf rwa "CHILD_RWA_AMPLIFICATION"

/-- The delegation a child passes on exceeds what remains of its parent's. The non-null
assertion on the parent's has no effect at run time. -/
def delegationWidened (child parent : Option Delegation) (depth : ℤ) : Except JsError Bool :=
  match child with
  | none => .ok false
  | some c =>
    if c.allowed then
      match parent with
      | some p => .ok (decide (c.maxDepth > max 0 (Double.roundInt (p.maxDepth - depth))))
      | none => .error (.typeError "Cannot read properties of undefined (reading 'max_depth')")
    else .ok false

/-- `checkChildMandate`. -/
def checkChildMandate (engine : Engine) (child parent : AgentMandate) (depth now : ℤ)
    (reasons : Reasons) : Except JsError Reasons := do
  let reasons := reasons.addIf (child.parentMandate != some parent.id) "PARENT_MANDATE_MISMATCH"
  let inactive ← orThrow (.ok (parent.status != .active))
    <| orThrow (do return decide ((← timestamp engine parent.notBefore) > now))
    <| do return decide ((← timestamp engine parent.expiresAt) ≤ now)
  let reasons := reasons.addIf inactive "PARENT_MANDATE_NOT_ACTIVE"
  let disallowed := match parent.delegation with
    | none => true
    | some d => !d.allowed || decide (depth > d.maxDepth)
  let reasons := reasons.addIf disallowed "DELEGATION_NOT_ALLOWED"
  let reasons := reasons.addIf (!subset child.actions parent.actions) "CHILD_ACTION_AMPLIFICATION"
  let reasons := reasons.addIf (!constrainedSubset child.resources parent.resources)
    "CHILD_RESOURCE_AMPLIFICATION"
  let reasons := reasons.addIf (!constrainedSubset child.counterparties parent.counterparties)
    "CHILD_COUNTERPARTY_AMPLIFICATION"
  let reasons := reasons.addIf (!constrainedSubset child.destinations parent.destinations)
    "CHILD_DESTINATION_AMPLIFICATION"
  let reasons := reasons.addIf (child.purpose != parent.purpose) "CHILD_PURPOSE_AMPLIFICATION"
  let longer ← orThrow
    (do return decide ((← timestamp engine child.notBefore) < (← timestamp engine parent.notBefore)))
    <| do return decide ((← timestamp engine child.expiresAt) > (← timestamp engine parent.expiresAt))
  let reasons := reasons.addIf longer "CHILD_TIME_AMPLIFICATION"
  let reasons := reasons.addIf (!narrowerObject child.limits parent.limits)
    "CHILD_LIMIT_AMPLIFICATION"
  let reasons := reasons.addIf (!narrowerObject child.dataUse parent.dataUse)
    "CHILD_DATA_USE_AMPLIFICATION"
  let deeper ← delegationWidened child.delegation parent.delegation depth
  let reasons := reasons.addIf deeper "CHILD_DELEGATION_AMPLIFICATION"
  checkProfileSubset child parent reasons

/-! ### Consumption -/

/-- `normalizedUsage`. -/
def normalizedUsage (value : UsageSnapshot) : Usage :=
  { calls := value.calls.getD 0, amount := value.amount.getD "0",
    currency := value.currency.getD "", quantity := value.quantity.getD "0",
    consumed := value.consumed.getD false,
    idempotencyKeys := sortStrings (value.idempotencyKeys.getD []),
    mintedSupply := value.mintedSupply.getD "0" }

/-- `effectiveConsumption`. -/
def effectiveConsumption (engine : Engine) (request : EvaluationRequest) :
    EffectiveConsumption :=
  let supplied := request.consumption.getD {}
  { calls := supplied.calls.getD 1
    amount := match request.commerce with
      | some c => c.totalAmount
      | none => supplied.amount.getD "0"
    currency := match request.commerce with
      | some c => c.currency
      | none => supplied.currency.getD ""
    quantity := match request.commerce with
      | some c => .str (numberText engine c.quantity)
      | none => (nullish (get request.rwa "quantity") (supplied.quantity.map .str)).getD (.str "0")
    idempotencyKey := match request.commerce with
      | some c => c.idempotencyKey
      | none => supplied.idempotencyKey.getD ""
    consume := truthy ((objectAt request.mandate.extensions "rwa").bind (·.lookup "one_time"))
      || truthy (request.mandate.limits.bind (·.lookup "one_time"))
      || supplied.consume == some true }

/-- The members `checkConsumptionContext` compares. -/
inductive ConsumptionField where
  | amount
  | currency
  | quantity
  | idempotencyKey
  | consume
  deriving DecidableEq, Repr

/-- `supplied[field]`. -/
def Consumption.field (supplied : Consumption) : ConsumptionField → Option Value
  | .amount => supplied.amount.map .str
  | .currency => supplied.currency.map .str
  | .quantity => supplied.quantity.map .str
  | .idempotencyKey => supplied.idempotencyKey.map .str
  | .consume => supplied.consume.map .bool

/-- `effective[field]`. -/
def EffectiveConsumption.field (effective : EffectiveConsumption) : ConsumptionField → Value
  | .amount => .str effective.amount
  | .currency => .str effective.currency
  | .quantity => effective.quantity
  | .idempotencyKey => .str effective.idempotencyKey
  | .consume => .bool effective.consume

/-- The members of a consumption that the context determines. -/
def contextFields (request : EvaluationRequest) : List ConsumptionField :=
  if request.commerce.isSome then [.amount, .currency, .quantity, .idempotencyKey]
  else if truthy request.rwa then [.quantity] else []

/-- `checkConsumptionContext`. -/
def checkConsumptionContext (request : EvaluationRequest) (effective : EffectiveConsumption)
    (reasons : Reasons) : Reasons :=
  match request.consumption with
  | none => reasons
  | some supplied =>
    let constrained := contextFields request
      ++ if effective.consume && supplied.consume == some false then [.consume] else []
    reasons.addIf
      (constrained.any fun field =>
        (supplied.field field).any fun v => !strictEq (some v) (some (effective.field field)))
      "CONSUMPTION_CONTEXT_MISMATCH"

/-- `String(limits.max_quantity)`, of a string or a number. -/
def quantityLimit (engine : Engine) (limits : Record) : Option String :=
  match limits.lookup "max_quantity" with
  | some (.str s) => some s
  | some (.num n) => some (numberText engine n)
  | _ => none

/-- The call limit is exceeded. -/
def callLimitExceeded (limits : Record) (usage : Usage) (delta : EffectiveConsumption) : Bool :=
  match limits.lookup "max_calls" with
  | some (.num n) => decide ((Double.roundNat (usage.calls + delta.calls) : ℚ) > n)
  | _ => false

/-- The quantity limit of a mandate without profile is exceeded. -/
def quantityLimitExceeded (engine : Engine) (mandate : AgentMandate) (limits : Record)
    (usage : Usage) (delta : EffectiveConsumption) : Except JsError Bool :=
  match mandate.profile, quantityLimit engine limits with
  | none, some limit => do
    let quantity ← decimalText (some delta.quantity)
    return decide ((← compareDecimal (← addDecimal usage.quantity quantity) limit) > 0)
  | _, _ => .ok false

/-- The amounts are not in the currency of the budget. -/
def budgetCurrencyMismatch (limits : Record) (usage : Usage) (delta : EffectiveConsumption) :
    Bool :=
  match limits.lookup "currency" with
  | some (.str currency) => currency != ""
    && (delta.currency != currency || usage.amount != "0" && usage.currency != currency)
  | _ => false

/-- The budget block of `checkConsumption`. -/
def checkBudget (limits : Record) (usage : Usage) (delta : EffectiveConsumption)
    (reasons : Reasons) : Except JsError Reasons :=
  match limits.lookup "max_total", decide (delta.amount ≠ "0") with
  | some (.str maxTotal), true => do
    let reasons := reasons.addIf (budgetCurrencyMismatch limits usage delta)
      "BUDGET_CURRENCY_MISMATCH"
    let exceeded ← compareDecimal (← addDecimal usage.amount delta.amount) maxTotal
    return reasons.addIf (decide (exceeded > 0)) "BUDGET_EXCEEDED"
  | _, _ => .ok reasons

/-- `checkConsumption`. -/
def checkConsumption (engine : Engine) (mandate : AgentMandate) (usage : Usage)
    (delta : EffectiveConsumption) (reasons : Reasons) : Except JsError Reasons := do
  let reasons := reasons.addIf usage.consumed "MANDATE_ALREADY_CONSUMED"
  let reasons := reasons.addIf
    (delta.idempotencyKey != "" && usage.idempotencyKeys.contains delta.idempotencyKey)
    "IDEMPOTENCY_REPLAY"
  let limits := mandate.limits.getD []
  let reasons := reasons.addIf (callLimitExceeded limits usage delta) "CALL_LIMIT_EXCEEDED"
  let quantityExceeded ← quantityLimitExceeded engine mandate limits usage delta
  let reasons := reasons.addIf quantityExceeded "QUANTITY_LIMIT_EXCEEDED"
  checkBudget limits usage delta reasons

/-- The context as the record `sameMappedFields` reads. -/
def CommerceEvaluationContext.lookup (context : CommerceEvaluationContext) (field : String) :
    Option Value :=
  match field with
  | "merchant_organisation_id" => some (.str context.merchantOrganisationId)
  | "service_id" => some (.str context.serviceId)
  | "offer_id" => some (.str context.offerId)
  | "currency" => some (.str context.currency)
  | "quantity" => some (.num context.quantity)
  | "unit_price" => some (.str context.unitPrice)
  | "total_amount" => some (.str context.totalAmount)
  | "idempotency_key" => some (.str context.idempotencyKey)
  | "terms_digest" => context.termsDigest.map .str
  | _ => none

/-- The signed quote of the envelope differs from the context. -/
def commerceEnvelopeMismatch (envelope : TransactionEnvelope)
    (context : CommerceEvaluationContext) : Bool :=
  match objectAt envelope.extensions "commerce" with
  | none => false
  | some signed =>
    envelope.resource != context.serviceId
      || envelope.counterparty != some context.merchantOrganisationId
      || !sameMappedFields (signed.lookup ·) context.lookup
        [("offer_id", "offer_id"), ("currency", "currency"), ("quantity", "quantity"),
          ("quoted_unit_price", "unit_price"), ("quoted_total", "total_amount"),
          ("idempotency_key", "idempotency_key"), ("terms_digest", "terms_digest")]

/-- `checkCommerce`. -/
def checkCommerce (engine : Engine) (mandate : AgentMandate) (envelope : TransactionEnvelope)
    (context : Option CommerceEvaluationContext) (usage : Usage) (reasons : Reasons) :
    Except JsError Reasons :=
  match context, objectAt mandate.extensions "commerce" with
  | some context, some limits => do
    let limit := fun field => optionText engine (limits.lookup field)
    let reasons := reasons.addIf
      (!strictEq (some (.str context.merchantOrganisationId))
        (limits.lookup "merchant_organisation_id"))
      "COMMERCE_MERCHANT_NOT_ALLOWED"
    let reasons := reasons.addIf
      (!strictEq (some (.str context.serviceId)) (limits.lookup "service_id"))
      "COMMERCE_SERVICE_NOT_ALLOWED"
    let reasons := reasons.addIf
      (!strictEq (some (.str context.offerId)) (limits.lookup "offer_id"))
      "COMMERCE_OFFER_NOT_ALLOWED"
    let reasons := reasons.addIf
      (!strictEq (some (.str context.currency)) (limits.lookup "currency")
        || usage.amount != "0" && usage.currency != context.currency)
      "COMMERCE_CURRENCY_MISMATCH"
    let unitPrice ← compareDecimal context.unitPrice (limit "max_unit_price")
    let reasons := reasons.addIf (decide (unitPrice > 0)) "COMMERCE_UNIT_PRICE_EXCEEDED"
    let total ← compareDecimal context.totalAmount
      (← multiplyDecimal context.unitPrice context.quantity)
    let reasons := reasons.addIf (decide (total ≠ 0)) "COMMERCE_TOTAL_INVALID"
    let budget ← compareDecimal (← addDecimal usage.amount context.totalAmount) (limit "max_total")
    let reasons := reasons.addIf (decide (budget > 0)) "COMMERCE_BUDGET_EXCEEDED"
    let quantity ← compareDecimal (numberText engine context.quantity) (limit "max_quantity")
    let reasons := reasons.addIf (decide (quantity > 0)) "COMMERCE_QUANTITY_EXCEEDED"
    let reasons := reasons.addIf
      (truthy (limits.lookup "terms_digest")
        && !strictEq (context.termsDigest.map .str) (limits.lookup "terms_digest"))
      "COMMERCE_TERMS_MISMATCH"
    let reasons := reasons.addIf (usage.idempotencyKeys.contains context.idempotencyKey)
      "IDEMPOTENCY_REPLAY"
    -- a mismatch with the envelope is only reported when no other commerce rule failed
    return reasons.addUnlessSome (startsWith · "COMMERCE_")
      (commerceEnvelopeMismatch envelope context) "COMMERCE_ENVELOPE_CONTEXT_MISMATCH"
  | _, _ => .ok (reasons.add "COMMERCE_CONTEXT_REQUIRED")

/-- `value.includes(item)` on a raw value: an array or a string has the method. -/
def includesMethod (value : Option Value) (item : String) : Except JsError Bool :=
  match value with
  | some (.arr items) => .ok (includes items (.str item))
  | some (.str s) => .ok (decide (item.toList <:+: s.toList))
  | _ => .error (.typeError "includes is not a function")

/-- The loop over the required roles. -/
def checkRequiredRoles (approvalRoles : Option Value) : List String → Reasons →
    Except JsError Reasons
  | [], reasons => .ok reasons
  | role :: rest, reasons => do
    let present ← includesMethod approvalRoles role
    checkRequiredRoles approvalRoles rest (reasons.addIf (!present) "RWA_REQUIRED_ROLE_MISSING")

/-- The signed RWA data of the envelope differs from the context. -/
def rwaEnvelopeMismatch (envelope : TransactionEnvelope) (context : Option Value) : Bool :=
  match objectAt envelope.extensions "rwa" with
  | none => false
  | some signed =>
    !strictEq (some (.str envelope.resource)) (get context "asset_id")
      || !sameFields (signed.lookup ·) (get context)
        ["asset_id", "state_claim_id", "network", "token_contract", "operation", "unit", "quantity"]

/-- `checkRwa`. -/
def checkRwa (engine : Engine) (mandate : AgentMandate) (envelope : TransactionEnvelope)
    (context : Option Value) (usage : Usage) (hasMintedSupply : Bool) (now : ℤ)
    (reasons : Reasons) : Except JsError Reasons :=
  match truthy context, objectAt mandate.extensions "rwa" with
  | true, some limits => do
    let reasons := reasons.addIf (rwaEnvelopeMismatch envelope context)
      "RWA_ENVELOPE_CONTEXT_MISMATCH"
    let reasons := reasons.addIf
      (!sameFields (get context) (limits.lookup ·)
        ["asset_id", "state_claim_id", "network", "token_contract", "operation", "unit"])
      "RWA_TARGET_MISMATCH"
    let validUntil ← timestamp engine (optionText engine (get context "claim_valid_until"))
    let reasons := reasons.addIf (decide (validUntil ≤ now)) "RWA_STATE_CLAIM_EXPIRED"
    let quantity ← decimalText (get context "quantity")
    let total ← compareDecimal (← addDecimal usage.quantity quantity)
      (optionText engine (limits.lookup "max_quantity"))
    let reasons := reasons.addIf (decide (total > 0)) "RWA_QUANTITY_EXCEEDED"
    let currentSupply ← decimalText (get context "current_supply")
    let resultingSupply ← addDecimal currentSupply quantity
    let reserve ← compareDecimal resultingSupply (← decimalText (get context "reserve"))
    let reasons := reasons.addIf (decide (reserve > 0)) "RWA_RESERVE_EXCEEDED"
    let maximumExceeded ← andThrow (.ok (truthy (get context "maximum_supply"))) do
      return decide ((← compareDecimal resultingSupply
        (← decimalText (get context "maximum_supply"))) > 0)
    let reasons := reasons.addIf maximumExceeded "RWA_MAXIMUM_SUPPLY_EXCEEDED"
    let supplyMismatch ← andThrow (.ok hasMintedSupply) do
      return decide ((← compareDecimal usage.mintedSupply currentSupply) ≠ 0)
    let reasons := reasons.addIf supplyMismatch "RWA_SUPPLY_STATE_MISMATCH"
    let reasons := reasons.addIf
      (numberLt (toNumber engine (get context "approval_count"))
        (toNumber engine (limits.lookup "minimum_approvals")))
      "RWA_APPROVAL_THRESHOLD_NOT_MET"
    let reasons ← checkRequiredRoles (get context "approval_roles")
      (stringArray (limits.lookup "required_roles")) reasons
    return reasons.addIf
      (strictEq (limits.lookup "one_time") (some (.bool true)) && usage.consumed)
      "MANDATE_ALREADY_CONSUMED"
  | _, _ => .ok (reasons.add "RWA_CONTEXT_REQUIRED")

/-- The minted supply after a request: what its RWA context adds up to. -/
def nextMintedSupply (usage : Usage) (request : EvaluationRequest) : Except JsError String :=
  if truthy request.rwa then do
    addDecimal (← decimalText (get request.rwa "current_supply"))
      (← decimalText (get request.rwa "quantity"))
  else .ok usage.mintedSupply

/-- `applyConsumption`. -/
def applyConsumption (usage : Usage) (delta : EffectiveConsumption)
    (request : EvaluationRequest) : Except JsError Usage := do
  let amount ← addDecimal usage.amount delta.amount
  let quantity ← addDecimal usage.quantity (← decimalText (some delta.quantity))
  let mintedSupply ← nextMintedSupply usage request
  return { calls := Double.roundNat (usage.calls + delta.calls)
           amount := amount
           currency := if delta.currency = "" then usage.currency else delta.currency
           quantity := quantity
           consumed := usage.consumed || delta.consume
           idempotencyKeys :=
             if delta.idempotencyKey = "" then usage.idempotencyKeys
             else sortStrings (usage.idempotencyKeys ++ [delta.idempotencyKey])
           mintedSupply := mintedSupply }

/-! ### The evaluation -/

/-- The checks of `evaluateAuthority` that read neither usage nor consumption. -/
def checkMandate (engine : Engine) (request : EvaluationRequest) (now : ℤ) :
    Except JsError Reasons := do
  let mandate := request.mandate
  let envelope := request.envelope
  let reasons : Reasons := []
  let reasons := reasons.addIf (mandate.status != .active) "MANDATE_NOT_ACTIVE"
  let notBefore ← timestamp engine mandate.notBefore
  let reasons := reasons.addIf (decide (notBefore > now)) "MANDATE_NOT_YET_ACTIVE"
  let expiresAt ← timestamp engine mandate.expiresAt
  let reasons := reasons.addIf (decide (expiresAt ≤ now)) "MANDATE_EXPIRED"
  let reasons := reasons.addIf (envelope.mandateId != mandate.id) "MANDATE_REFERENCE_MISMATCH"
  let reasons := reasons.addIf (envelope.agentId != mandate.subject) "SUBJECT_MISMATCH"
  let reasons := reasons.addIf (!mandate.actions.contains envelope.action) "ACTION_NOT_ALLOWED"
  let reasons := checkSetConstraint mandate.resources (some envelope.resource)
    "RESOURCE_NOT_ALLOWED" reasons
  let reasons := reasons.addIf (envelope.purpose != some mandate.purpose) "PURPOSE_MISMATCH"
  let reasons := checkSetConstraint mandate.counterparties envelope.counterparty
    "COUNTERPARTY_NOT_ALLOWED" reasons
  let reasons := checkSetConstraint mandate.destinations envelope.destination
    "DESTINATION_NOT_ALLOWED" reasons
  let reasons := reasons.addIf
    (envelope.profile.isSome && envelope.profile != mandate.profile) "PROFILE_MISMATCH"
  match request.parentMandate with
  | some parent =>
    checkChildMandate engine mandate parent (request.delegationDepth.getD 1) now reasons
  | none =>
    return reasons.addIf (mandate.parentMandate.any (· != "")) "PARENT_MANDATE_REQUIRED"

/-- Whether `evaluateAuthority` runs `checkCommerce`. -/
def needsCommerce (request : EvaluationRequest) : Bool :=
  request.commerce.isSome || request.mandate.profile == some COMMERCE_PROFILE

/-- Whether `evaluateAuthority` runs `checkRwa`. -/
def needsRwa (request : EvaluationRequest) : Bool :=
  truthy request.rwa || request.mandate.profile == some RWA_PROFILE

/-- `checkCommerce`, when it applies. -/
def checkCommerceTerms (engine : Engine) (request : EvaluationRequest) (reasons : Reasons) :
    Except JsError Reasons :=
  if needsCommerce request then
    checkCommerce engine request.mandate request.envelope request.commerce
      (normalizedUsage request.usage) reasons
  else .ok reasons

/-- `checkRwa`, when it applies. -/
def checkRwaTerms (engine : Engine) (request : EvaluationRequest) (now : ℤ) (reasons : Reasons) :
    Except JsError Reasons :=
  if needsRwa request then
    checkRwa engine request.mandate request.envelope request.rwa (normalizedUsage request.usage)
      request.usage.mintedSupply.isSome now reasons
  else .ok reasons

/-- All checks of `evaluateAuthority`, in their order. -/
def checkAuthority (engine : Engine) (request : EvaluationRequest) : Except JsError Reasons := do
  let now ← timestamp engine request.evaluationTime
  let reasons ← checkMandate engine request now
  let usage := normalizedUsage request.usage
  let delta := effectiveConsumption engine request
  let reasons := checkConsumptionContext request delta reasons
  let reasons ← checkConsumption engine request.mandate usage delta reasons
  let reasons ← checkCommerceTerms engine request reasons
  checkRwaTerms engine request now reasons

/-- The usage a result returns: updated by an allowed request, as it was read by another. -/
def nextUsage (engine : Engine) (request : EvaluationRequest) (decision : Decision) :
    Except JsError Usage :=
  match decision with
  | .allow =>
    applyConsumption (normalizedUsage request.usage) (effectiveConsumption engine request) request
  | .deny => .ok (normalizedUsage request.usage)

/-- `evaluateAuthority`. -/
def evaluateAuthority (engine : Engine) (request : EvaluationRequest) :
    Except JsError EvaluationResult := do
  let reasons ← checkAuthority engine request
  let reasonCodes := sortStrings reasons
  let decision := if reasonCodes = [] then .allow else .deny
  let usage ← nextUsage engine request decision
  return { decision := decision
           mandateId := request.mandate.id
           transactionId := request.envelope.id
           reasonCodes := reasonCodes
           nextUsage := usage.toSnapshot }

/-! ### A sample order -/

/-- Commerce terms up to a total and a quantity. -/
def quoteTerms (maxTotal : String) (maxQuantity : ℚ) : Record :=
  [("merchant_organisation_id", .str "oati:organisation:shop"), ("service_id", .str "quotes"),
    ("offer_id", .str "basic"), ("currency", .str "EUR"), ("max_unit_price", .str "2.50"),
    ("max_total", .str maxTotal), ("max_quantity", .num maxQuantity)]

/-- A broker may delegate purchases over two hops. -/
def brokerMandate : AgentMandate :=
  { id := "oati:mandate:broker", subject := "oati:agent:broker", purpose := "procurement"
    actions := ["purchase", "quote"], limits := some [("max_calls", .num 10)]
    delegation := some ⟨true, 2⟩, notBefore := "2026-01-01T00:00:00Z"
    expiresAt := "2027-01-01T00:00:00Z", status := .active
    extensions := some [("commerce", .obj (quoteTerms "100" 8))] }

/-- Four items at two and a half each. -/
def orderContext : CommerceEvaluationContext :=
  { merchantOrganisationId := "oati:organisation:shop", serviceId := "quotes", offerId := "basic"
    currency := "EUR", quantity := 4, unitPrice := "2.50", totalAmount := "10"
    idempotencyKey := "order-1" }

/-- The broker's order, signed over the quote. -/
def brokerOrder : EvaluationRequest :=
  { evaluationTime := "2026-06-01T12:00:00Z", mandate := brokerMandate
    envelope :=
      { id := "oati:transaction:1", agentId := "oati:agent:broker"
        organisationId := "oati:organisation:desk", mandateId := "oati:mandate:broker"
        action := "purchase", resource := "quotes", purpose := some "procurement"
        counterparty := some "oati:organisation:shop"
        extensions := some [("commerce", .obj [("offer_id", .str "basic"),
          ("currency", .str "EUR"), ("quantity", .num 4), ("quoted_unit_price", .str "2.50"),
          ("quoted_total", .str "10"), ("idempotency_key", .str "order-1")])] }
    commerce := some orderContext }

/-- The answer to the order. -/
def orderResult : EvaluationResult :=
  { decision := .allow, mandateId := "oati:mandate:broker", transactionId := "oati:transaction:1"
    reasonCodes := []
    nextUsage :=
      { calls := some 1, amount := some "10", currency := some "EUR", quantity := some "4"
        consumed := some false, idempotencyKeys := some ["order-1"], mintedSupply := some "0" } }

example : evaluateAuthority plainEngine brokerOrder = .ok orderResult := by decide

end Oati.TypeScript

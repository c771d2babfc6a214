import Oati.Go.Narrowing

/-!
# The authority evaluators of the Go SDK and of the CLI

`evaluator.go` of the SDK and of the command, function by function. The two programs are the same
up to the conversions of their helpers, so each function is written once, under the CLI's name,
for a `Program`; the operations on which they differ come first.

Requests are raw JSON objects and every member is read through a type assertion. The set of
reason codes is threaded through the checks; a check that does decimal arithmetic may panic.
-/

namespace Oati.Go

open JsonText (Literal)
open TypeScript (Reasons Decision startsWith bigintChars)

def commerceProfile : String := "https://specs.intelliger.ai/oati/profiles/commerce/v0.1"
def rwaProfile : String := "https://specs.intelliger.ai/oati/profiles/rwa/v0.1"

/-! ### Conditions that may panic -/

/-- `a || b`. -/
def orElse (a b : Except Fault Bool) : Except Fault Bool := do
  if ← a then return true else b

/-- `a && b`. -/
def andAlso (a b : Except Fault Bool) : Except Fault Bool := do
  if ← a then b else return false

@[simp] theorem orElse_eq_false {a b : Except Fault Bool} :
    orElse a b = .ok false ↔ a = .ok false ∧ b = .ok false := by
  rcases a with _ | _ | _ <;> simp [orElse, bind, Except.bind, pure, Except.pure]

@[simp] theorem andAlso_eq_false {a b : Except Fault Bool} :
    andAlso a b = .ok false ↔ a = .ok false ∨ a = .ok true ∧ b = .ok false := by
  rcases a with _ | _ | _ <;> simp [andAlso, bind, Except.bind, pure, Except.pure]

/-! ### Where the programs differ -/

namespace Program

variable (runtime : Runtime) (program : Program)

/-- `integer(v)`, `intValue(v, fallback)`. -/
def integer (v : Option Value) (fallback : ℤ) : ℤ :=
  match program with
  | .sdk => Go.integer v
  | .cli => intValue v fallback

/-- `integerDefault(v, d)`, `intValue(v, d)`. -/
def integerDefault (v : Option Value) (d : ℤ) : ℤ :=
  match program, v with
  | .sdk, none => d
  | .sdk, some .null => d
  | .sdk, v => Go.integer v
  | .cli, v => intValue v d

/-- A condition on a time. On a text that is no time the SDK goes on with the zero time, and the
CLI takes the condition as true. -/
def onTime (s : String) (condition : ℤ → Bool) : Bool :=
  match program, parseTime runtime s with
  | .sdk, t => condition (t.getD zeroTime)
  | .cli, some t => condition t
  | .cli, none => true

/-- `decimalAtMost` of the CLI. -/
def decimalAtMost (child parent : Option Value) : Except Fault Bool :=
  let a := numberString child
  let b := numberString parent
  if isDecimalString runtime a && isDecimalString runtime b then Bool.not <$> exceeds a b
  else .ok false

/-- A decimal of the child's terms exceeds the parent's. -/
def decimalWidened (child parent : Option Value) : Except Fault Bool :=
  match program with
  | .sdk => exceeds (str child) (str parent)
  | .cli => Bool.not <$> decimalAtMost runtime child parent

/-- The text of `limits.max_quantity`. -/
def limitText (v : Option Value) : String :=
  match program with
  | .sdk => sprintOption v
  | .cli => numberString v

/-- `strconv.Itoa`. -/
def itoa (n : ℤ) : String := String.ofList (bigintChars n)

/-- The quantity of a Commerce context exceeds its limit. -/
def quantityExceeded (quantity limit : Option Value) : Except Fault Bool :=
  match program with
  | .sdk => .ok (decide (Go.integer quantity > Go.integer limit))
  | .cli => exceeds (itoa (intValue quantity 0)) (numberString limit)

/-- The quantity that a Commerce context consumes. -/
def commerceQuantity (quantity : Option Value) : String :=
  match program with
  | .sdk => itoa (Go.integer quantity)
  | .cli => numberString quantity

/-- `consume` of the effective consumption: the SDK makes it a boolean, the CLI only overwrites
it. -/
def consumeValue (supplied : Value) (oneTime : Bool) : Value :=
  match program with
  | .sdk => .bool (boolean (some supplied) || oneTime)
  | .cli => if oneTime then .bool true else supplied

/-- The error of a request without mandate or envelope. -/
def missingMessage : String :=
  match program with
  | .sdk => "mandate and envelope required"
  | .cli => "evaluation request requires mandate and envelope objects"

/-- The error of an evaluation time that is none. -/
def timeMessage (s : String) : String :=
  match program with
  | .sdk => runtime.timeMessage s
  | .cli => "evaluation_time must be RFC 3339: " ++ runtime.timeMessage s

end Program

/-! ### Comparisons -/

/-- The terms of a profile in the `extensions` of a document. -/
def terms (document : Object) (profile : String) : Option Object :=
  object (index (object (document.lookup "extensions")) profile)

/-- `sameMapped`, `sameMappedFields`: the members print alike. -/
def sameMappedFields (a b : Object) (fields : List (String × String)) : Bool :=
  fields.all fun field => sprintOption (a.lookup field.1) == sprintOption (b.lookup field.2)

/-- `same`, `sameFields`. -/
def sameFields (a b : Object) (fields : List String) : Bool :=
  fields.all fun field => sprintOption (a.lookup field) == sprintOption (b.lookup field)

/-- `constraint`, `checkSetConstraint`. -/
def checkSetConstraint (o : Object) (field actual code : String) (reasons : Reasons) : Reasons :=
  reasons.addIf ((o.lookup field).isSome && !(stringsFrom (o.lookup field)).contains actual) code

/-- One of the sets of a parent that bounds a child's: `checkChildSet`. -/
def checkChildSet (child parent : Object) (field code : String) (reasons : Reasons) : Reasons :=
  reasons.addIf ((parent.lookup field).isSome &&
    ((child.lookup field).isNone
      || !subset (stringsFrom (child.lookup field)) (stringsFrom (parent.lookup field)))) code

/-! ### Delegation -/

section Checks

variable (runtime : Runtime) (program : Program)

/-- The Commerce condition of `checkProfileSubset`. -/
def commerceWidened (child parent : Option Object) : Except Fault Bool :=
  match parent, child with
  | none, _ => .ok false
  | some _, none => .ok true
  | some p, some c =>
    orElse (.ok (!sameFields c p
      ["merchant_organisation_id", "service_id", "offer_id", "currency", "billing_model",
        "terms_digest"]))
    <| orElse (program.decimalWidened runtime (c.lookup "max_unit_price") (p.lookup "max_unit_price"))
    <| orElse (program.decimalWidened runtime (c.lookup "max_total") (p.lookup "max_total"))
    <| .ok (decide (program.integer (c.lookup "max_quantity") (-1)
        > program.integer (p.lookup "max_quantity") (-1)))

/-- The RWA condition of `checkProfileSubset`. -/
def rwaWidened (child parent : Option Object) : Except Fault Bool :=
  match parent, child with
  | none, _ => .ok false
  | some _, none => .ok true
  | some p, some c =>
    orElse (.ok (!sameFields c p
      ["asset_id", "state_claim_id", "network", "token_contract", "operation", "unit"]))
    <| orElse (program.decimalWidened runtime (c.lookup "max_quantity") (p.lookup "max_quantity"))
    <| .ok (decide (program.integer (c.lookup "minimum_approvals") (-1)
          < program.integer (p.lookup "minimum_approvals") (-1))
        || !subset (stringsFrom (p.lookup "required_roles")) (stringsFrom (c.lookup "required_roles"))
        || boolean (p.lookup "one_time") && !boolean (c.lookup "one_time"))

/-- `checkProfileSubset`, the end of `child` in the SDK. -/
def checkProfileSubset (child parent : Object) (reasons : Reasons) : Except Fault Reasons :=
  if str (child.lookup "profile") ≠ str (parent.lookup "profile") then
    .ok (reasons.addIf
      (str (child.lookup "profile") != "" || str (parent.lookup "profile") != "")
      "CHILD_PROFILE_AMPLIFICATION")
  else do
    let commerce ← commerceWidened runtime program (terms child "commerce")
      (terms parent "commerce")
    let reasons := reasons.addIf commerce "CHILD_COMMERCE_AMPLIFICATION"
    let rwa ← rwaWidened runtime program (terms child "rwa") (terms parent "rwa")
    return reasons.addIf rwa "CHILD_RWA_AMPLIFICATION"

/-- The maximal depth of a delegation, also of a missing one. -/
def maxDepth (delegation : Option Object) : ℤ := program.integer (index delegation "max_depth") 0

/-- The parent does not delegate, or not this deep. -/
def delegationDisallowed (delegation : Option Object) (depth : ℤ) : Bool :=
  delegation.isNone || !boolean (index delegation "allowed")
    || decide (depth > maxDepth program delegation)

/-- The child passes on more than what remains of its parent's delegation. -/
def delegationWidened (child parent : Option Object) (depth : ℤ) : Bool :=
  boolean (index child "allowed")
    && decide (maxDepth program child > max 0 (wrap (maxDepth program parent - depth)))

/-- `checkChildMandate`, `child` in the SDK. -/
def checkChildMandate (child parent : Object) (depth now : ℤ) (reasons : Reasons) :
    Except Fault Reasons := do
  let text := fun (mandate : Object) key => str (mandate.lookup key)
  let reasons := reasons.addIf (text child "parent_mandate" != text parent "id")
    "PARENT_MANDATE_MISMATCH"
  let reasons := reasons.addIf
    (text parent "status" != "active"
      || program.onTime runtime (text parent "not_before") (fun start => decide (start > now))
      || program.onTime runtime (text parent "expires_at") (fun stop => !decide (stop > now)))
    "PARENT_MANDATE_NOT_ACTIVE"
  let delegation := object (parent.lookup "delegation")
  let reasons := reasons.addIf (delegationDisallowed program delegation depth)
    "DELEGATION_NOT_ALLOWED"
  let reasons := reasons.addIf
    (!subset (stringsFrom (child.lookup "actions")) (stringsFrom (parent.lookup "actions")))
    "CHILD_ACTION_AMPLIFICATION"
  let reasons := checkChildSet child parent "resources" "CHILD_RESOURCE_AMPLIFICATION" reasons
  let reasons := checkChildSet child parent "counterparties" "CHILD_COUNTERPARTY_AMPLIFICATION"
    reasons
  let reasons := checkChildSet child parent "destinations" "CHILD_DESTINATION_AMPLIFICATION" reasons
  let reasons := reasons.addIf (text child "purpose" != text parent "purpose")
    "CHILD_PURPOSE_AMPLIFICATION"
  let reasons := reasons.addIf
    (program.onTime runtime (text child "not_before") (fun childStart =>
        program.onTime runtime (text parent "not_before") fun parentStart =>
          decide (childStart < parentStart))
      || program.onTime runtime (text child "expires_at") (fun childEnd =>
        program.onTime runtime (text parent "expires_at") fun parentEnd =>
          decide (childEnd > parentEnd)))
    "CHILD_TIME_AMPLIFICATION"
  let limits ← narrowWith (program.comparison runtime) (object (child.lookup "limits"))
    (object (parent.lookup "limits"))
  let reasons := reasons.addIf (!limits) "CHILD_LIMIT_AMPLIFICATION"
  let dataUse ← narrowWith (program.comparison runtime) (object (child.lookup "data_use"))
    (object (parent.lookup "data_use"))
  let reasons := reasons.addIf (!dataUse) "CHILD_DATA_USE_AMPLIFICATION"
  let reasons := reasons.addIf
    (delegationWidened program (object (child.lookup "delegation")) delegation depth)
    "CHILD_DELEGATION_AMPLIFICATION"
  checkProfileSubset runtime program child parent reasons

/-! ### Consumption -/

/-- The map that `normalizeUsage` returns. -/
structure Usage where
  calls : ℤ
  amount : String
  currency : String
  quantity : String
  consumed : Bool
  idempotencyKeys : List String
  mintedSupply : String
  deriving DecidableEq, Repr

/-- `fallback`, `defaultString`. -/
def fallback (v d : String) : String := if v = "" then d else v

/-- `normalizeUsage`. -/
def normalizeUsage (usage : Option Object) : Usage :=
  { calls := program.integer (index usage "calls") 0
    amount := fallback (str (index usage "amount")) "0"
    currency := str (index usage "currency")
    quantity := fallback (str (index usage "quantity")) "0"
    consumed := boolean (index usage "consumed")
    idempotencyKeys := sortStrings (stringsFrom (index usage "idempotency_keys"))
    mintedSupply := fallback (str (index usage "minted_supply")) "0" }

/-- The map that `effectiveConsumption` returns, with the members that are read. -/
structure Delta where
  calls : Value
  amount : Value
  currency : Value
  quantity : Value
  idempotencyKey : Value
  consume : Value

/-- A mandate that may be used once. -/
def oneTime (mandate : Object) : Bool :=
  boolean (index (terms mandate "rwa") "one_time")
    || boolean (index (object (mandate.lookup "limits")) "one_time")

/-- `effectiveConsumption`, `consumption` in the SDK: the defaults, overwritten by the supplied
members, overwritten by the context. -/
def effectiveConsumption (request mandate : Object) : Delta :=
  let commerce := object (request.lookup "commerce")
  let rwa := object (request.lookup "rwa")
  let supplied := fun key (default : Value) =>
    (index (object (request.lookup "consumption")) key).getD default
  let determined := fun (key : String) (default : Value) =>
    if commerce.isSome then .str (str (index commerce key)) else default
  { calls := supplied "calls" (.num ⟨"1", by decide⟩)
    amount := determined "total_amount" (supplied "amount" (.str "0"))
    currency := determined "currency" (supplied "currency" (.str ""))
    quantity :=
      if commerce.isSome then .str (program.commerceQuantity (index commerce "quantity"))
      else if rwa.isSome then .str (str (index rwa "quantity"))
      else supplied "quantity" (.str "0")
    idempotencyKey := determined "idempotency_key" (supplied "idempotency_key" (.str ""))
    consume := program.consumeValue (supplied "consume" (.bool false)) (oneTime mandate) }

/-- The members of a consumption that the context determines. -/
def contextFields (request : Object) (effective : Delta) : List (String × Value) :=
  if (object (request.lookup "commerce")).isSome then
    [("amount", effective.amount), ("currency", effective.currency),
      ("quantity", effective.quantity), ("idempotency_key", effective.idempotencyKey)]
  else if (object (request.lookup "rwa")).isSome then [("quantity", effective.quantity)]
  else []

/-- `checkConsumptionContext`. -/
def checkConsumptionContext (request : Object) (effective : Delta) (reasons : Reasons) : Reasons :=
  match object (request.lookup "consumption") with
  | none => reasons
  | some supplied =>
    let withdrawn := boolean (some effective.consume)
      && (supplied.lookup "consume").any fun v => !boolean (some v)
    let fields := contextFields request effective
      ++ if withdrawn then [("consume", effective.consume)] else []
    reasons.addIf
      (fields.any fun field =>
        (supplied.lookup field.1).any fun v => sprint v != sprint field.2)
      "CONSUMPTION_CONTEXT_MISMATCH"

/-- The call limit is exceeded. -/
def callLimitExceeded (limits : Object) (usage : Usage) (delta : Delta) : Bool :=
  (limits.lookup "max_calls").isSome
    && decide (wrap (usage.calls + program.integer (some delta.calls) 0)
      > program.integer (limits.lookup "max_calls") 0)

/-- The quantity limit of a mandate without profile is exceeded. -/
def quantityLimitExceeded (mandate limits : Object) (usage : Usage) (delta : Delta) :
    Except Fault Bool :=
  if str (mandate.lookup "profile") = "" ∧ (limits.lookup "max_quantity").isSome then do
    exceeds (← decimalAdd usage.quantity (str (some delta.quantity)))
      (program.limitText (limits.lookup "max_quantity"))
  else .ok false

/-- The amounts are not in the currency of the budget. -/
def budgetCurrencyMismatch (limits : Object) (usage : Usage) (delta : Delta) : Bool :=
  let currency := str (limits.lookup "currency")
  currency != "" && (str (some delta.currency) != currency
    || usage.amount != "0" && usage.currency != currency)

/-- The budget block of `checkConsumption`. -/
def checkBudget (limits : Object) (usage : Usage) (delta : Delta) (reasons : Reasons) :
    Except Fault Reasons :=
  let maxTotal := str (limits.lookup "max_total")
  let amount := str (some delta.amount)
  if maxTotal ≠ "" ∧ amount ≠ "0" then do
    let reasons := reasons.addIf (budgetCurrencyMismatch limits usage delta)
      "BUDGET_CURRENCY_MISMATCH"
    let exceeded ← exceeds (← decimalAdd usage.amount amount) maxTotal
    return reasons.addIf exceeded "BUDGET_EXCEEDED"
  else .ok reasons

/-- `checkConsumption`, `checkLimits` in the SDK. -/
def checkConsumption (mandate : Object) (usage : Usage) (delta : Delta) (reasons : Reasons) :
    Except Fault Reasons :=
  let reasons := reasons.addIf usage.consumed "MANDATE_ALREADY_CONSUMED"
  let key := str (some delta.idempotencyKey)
  let reasons := reasons.addIf (key != "" && usage.idempotencyKeys.contains key)
    "IDEMPOTENCY_REPLAY"
  match object (mandate.lookup "limits") with
  | none => .ok reasons
  | some limits => do
    let reasons := reasons.addIf (callLimitExceeded program limits usage delta) "CALL_LIMIT_EXCEEDED"
    let quantity ← quantityLimitExceeded program mandate limits usage delta
    let reasons := reasons.addIf quantity "QUANTITY_LIMIT_EXCEEDED"
    checkBudget limits usage delta reasons

/-! ### Profiles -/

/-- The signed quote of the envelope differs from the context. -/
def commerceEnvelopeMismatch (envelope context : Object) : Bool :=
  match terms envelope "commerce" with
  | none => false
  | some signed =>
    str (envelope.lookup "resource") != str (context.lookup "service_id")
      || str (envelope.lookup "counterparty") != str (context.lookup "merchant_organisation_id")
      || !sameMappedFields signed context
        [("offer_id", "offer_id"), ("currency", "currency"), ("quantity", "quantity"),
          ("quoted_unit_price", "unit_price"), ("quoted_total", "total_amount"),
          ("idempotency_key", "idempotency_key"), ("terms_digest", "terms_digest")]

/-- `checkCommerce`. -/
def checkCommerce (mandate envelope : Object) (context : Option Object) (usage : Usage)
    (reasons : Reasons) : Except Fault Reasons :=
  match context, terms mandate "commerce" with
  | some context, some limits => do
    let actual := fun key => str (context.lookup key)
    let limit := fun key => str (limits.lookup key)
    let differs := fun key => actual key != limit key
    let reasons := reasons.addIf (differs "merchant_organisation_id") "COMMERCE_MERCHANT_NOT_ALLOWED"
    let reasons := reasons.addIf (differs "service_id") "COMMERCE_SERVICE_NOT_ALLOWED"
    let reasons := reasons.addIf (differs "offer_id") "COMMERCE_OFFER_NOT_ALLOWED"
    let reasons := reasons.addIf
      (differs "currency" || usage.amount != "0" && usage.currency != actual "currency")
      "COMMERCE_CURRENCY_MISMATCH"
    let unitPrice ← exceeds (actual "unit_price") (limit "max_unit_price")
    let reasons := reasons.addIf unitPrice "COMMERCE_UNIT_PRICE_EXCEEDED"
    let total ← decimalCompare (actual "total_amount")
      (← decimalMultiply (actual "unit_price") (program.integer (context.lookup "quantity") 0))
    let reasons := reasons.addIf (decide (total ≠ 0)) "COMMERCE_TOTAL_INVALID"
    let budget ← exceeds (← decimalAdd usage.amount (actual "total_amount")) (limit "max_total")
    let reasons := reasons.addIf budget "COMMERCE_BUDGET_EXCEEDED"
    let quantity ← program.quantityExceeded (context.lookup "quantity") (limits.lookup "max_quantity")
    let reasons := reasons.addIf quantity "COMMERCE_QUANTITY_EXCEEDED"
    let reasons := reasons.addIf (limit "terms_digest" != "" && differs "terms_digest")
      "COMMERCE_TERMS_MISMATCH"
    let reasons := reasons.addIf (usage.idempotencyKeys.contains (actual "idempotency_key"))
      "IDEMPOTENCY_REPLAY"
    return reasons.addUnlessSome (startsWith · "COMMERCE_")
      (commerceEnvelopeMismatch envelope context) "COMMERCE_ENVELOPE_CONTEXT_MISMATCH"
  | _, _ => .ok (reasons.add "COMMERCE_CONTEXT_REQUIRED")

/-- The signed RWA data of the envelope differs from the context. -/
def rwaEnvelopeMismatch (envelope context : Object) : Bool :=
  match terms envelope "rwa" with
  | none => false
  | some signed =>
    str (envelope.lookup "resource") != str (context.lookup "asset_id")
      || !sameFields signed context
        ["asset_id", "state_claim_id", "network", "token_contract", "operation", "unit", "quantity"]

/-- The loop over the required roles. -/
def checkRequiredRoles (approvalRoles : List String) (required : List String) (reasons : Reasons) :
    Reasons :=
  required.foldl
    (fun reasons role => reasons.addIf (!approvalRoles.contains role) "RWA_REQUIRED_ROLE_MISSING")
    reasons

/-- `checkRWA`. -/
def checkRWA (mandate envelope : Object) (context : Option Object) (usage : Usage)
    (hasMintedSupply : Bool) (now : ℤ) (reasons : Reasons) : Except Fault Reasons :=
  match context, terms mandate "rwa" with
  | some context, some limits => do
    let actual := fun key => str (context.lookup key)
    let reasons := reasons.addIf (rwaEnvelopeMismatch envelope context)
      "RWA_ENVELOPE_CONTEXT_MISMATCH"
    let reasons := reasons.addIf
      (!sameFields context limits
        ["asset_id", "state_claim_id", "network", "token_contract", "operation", "unit"])
      "RWA_TARGET_MISMATCH"
    let reasons := reasons.addIf
      (program.onTime runtime (actual "claim_valid_until") fun stop => !decide (stop > now))
      "RWA_STATE_CLAIM_EXPIRED"
    let quantity ← exceeds (← decimalAdd usage.quantity (actual "quantity"))
      (str (limits.lookup "max_quantity"))
    let reasons := reasons.addIf quantity "RWA_QUANTITY_EXCEEDED"
    let supply ← decimalAdd (actual "current_supply") (actual "quantity")
    let reserve ← exceeds supply (actual "reserve")
    let reasons := reasons.addIf reserve "RWA_RESERVE_EXCEEDED"
    let maximum ← andAlso (.ok (actual "maximum_supply" != ""))
      (exceeds supply (actual "maximum_supply"))
    let reasons := reasons.addIf maximum "RWA_MAXIMUM_SUPPLY_EXCEEDED"
    let mismatch ← andAlso (.ok hasMintedSupply) do
      return decide ((← decimalCompare usage.mintedSupply (actual "current_supply")) ≠ 0)
    let reasons := reasons.addIf mismatch "RWA_SUPPLY_STATE_MISMATCH"
    let reasons := reasons.addIf
      (decide (program.integer (context.lookup "approval_count") 0
        < program.integer (limits.lookup "minimum_approvals") 0))
      "RWA_APPROVAL_THRESHOLD_NOT_MET"
    let reasons := checkRequiredRoles (stringsFrom (context.lookup "approval_roles"))
      (stringsFrom (limits.lookup "required_roles")) reasons
    return reasons.addIf (boolean (limits.lookup "one_time") && usage.consumed)
      "MANDATE_ALREADY_CONSUMED"
  | _, _ => .ok (reasons.add "RWA_CONTEXT_REQUIRED")

/-- The minted supply after a request. -/
def nextMintedSupply (usage : Usage) (rwa : Option Object) : Except Fault String :=
  match rwa with
  | some rwa => decimalAdd (str (rwa.lookup "current_supply")) (str (rwa.lookup "quantity"))
  | none => .ok usage.mintedSupply

/-- `applyConsumption`, `apply` in the SDK. -/
def applyConsumption (usage : Usage) (delta : Delta) (rwa : Option Object) :
    Except Fault Usage := do
  let amount ← decimalAdd usage.amount (str (some delta.amount))
  let quantity ← decimalAdd usage.quantity (str (some delta.quantity))
  let mintedSupply ← nextMintedSupply usage rwa
  let key := str (some delta.idempotencyKey)
  return { calls := wrap (usage.calls + program.integer (some delta.calls) 0)
           amount := amount
           currency := fallback (str (some delta.currency)) usage.currency
           quantity := quantity
           consumed := usage.consumed || boolean (some delta.consume)
           idempotencyKeys := sortStrings (usage.idempotencyKeys ++ if key = "" then [] else [key])
           mintedSupply := mintedSupply }

/-! ### The evaluation -/

/-- The checks that read neither usage nor consumption. -/
def checkMandate (request mandate envelope : Object) (now : ℤ) : Except Fault Reasons :=
  let text := fun (document : Object) key => str (document.lookup key)
  let reasons : Reasons := []
  let reasons := reasons.addIf (text mandate "status" != "active") "MANDATE_NOT_ACTIVE"
  let reasons := reasons.addIf
    (program.onTime runtime (text mandate "not_before") fun start => decide (start > now))
    "MANDATE_NOT_YET_ACTIVE"
  let reasons := reasons.addIf
    (program.onTime runtime (text mandate "expires_at") fun stop => !decide (stop > now))
    "MANDATE_EXPIRED"
  let reasons := reasons.addIf (text envelope "mandate_id" != text mandate "id")
    "MANDATE_REFERENCE_MISMATCH"
  let reasons := reasons.addIf (text envelope "agent_id" != text mandate "subject")
    "SUBJECT_MISMATCH"
  let reasons := reasons.addIf
    (!(stringsFrom (mandate.lookup "actions")).contains (text envelope "action"))
    "ACTION_NOT_ALLOWED"
  let reasons := checkSetConstraint mandate "resources" (text envelope "resource")
    "RESOURCE_NOT_ALLOWED" reasons
  let reasons := reasons.addIf (text envelope "purpose" != text mandate "purpose")
    "PURPOSE_MISMATCH"
  let reasons := checkSetConstraint mandate "counterparties" (text envelope "counterparty")
    "COUNTERPARTY_NOT_ALLOWED" reasons
  let reasons := checkSetConstraint mandate "destinations" (text envelope "destination")
    "DESTINATION_NOT_ALLOWED" reasons
  let reasons := reasons.addIf
    ((envelope.lookup "profile").isSome && text envelope "profile" != text mandate "profile")
    "PROFILE_MISMATCH"
  match object (request.lookup "parent_mandate") with
  | some parent =>
    checkChildMandate runtime program mandate parent
      (program.integerDefault (request.lookup "delegation_depth") 1) now reasons
  | none => .ok (reasons.addIf (text mandate "parent_mandate" != "") "PARENT_MANDATE_REQUIRED")

/-- `checkCommerce`, when it applies. -/
def checkCommerceTerms (request mandate envelope : Object) (usage : Usage) (reasons : Reasons) :
    Except Fault Reasons :=
  let commerce := object (request.lookup "commerce")
  if commerce.isSome || str (mandate.lookup "profile") == commerceProfile then
    checkCommerce program mandate envelope commerce usage reasons
  else .ok reasons

/-- `checkRWA`, when it applies. -/
def checkRWATerms (request mandate envelope : Object) (usage : Usage) (now : ℤ)
    (reasons : Reasons) : Except Fault Reasons :=
  let rwa := object (request.lookup "rwa")
  if rwa.isSome || str (mandate.lookup "profile") == rwaProfile then
    checkRWA runtime program mandate envelope rwa usage
      (index (object (request.lookup "usage")) "minted_supply").isSome now reasons
  else .ok reasons

/-- All checks, in their order. -/
def checkAuthority (request mandate envelope : Object) (now : ℤ) : Except Fault Reasons := do
  let reasons ← checkMandate runtime program request mandate envelope now
  let usage := normalizeUsage program (object (request.lookup "usage"))
  let delta := effectiveConsumption program request mandate
  let reasons := checkConsumptionContext request delta reasons
  let reasons ← checkConsumption program mandate usage delta reasons
  let reasons ← checkCommerceTerms program request mandate envelope usage reasons
  checkRWATerms runtime program request mandate envelope usage now reasons

/-- The map that an evaluation returns. -/
structure Result where
  decision : Decision
  mandateId : String
  transactionId : String
  reasonCodes : List String
  nextUsage : Usage
  deriving DecidableEq, Repr

/-- The usage of a result: updated by an allowed request, as it was read by another. -/
def nextUsage (request mandate : Object) (decision : Decision) : Except Fault Usage :=
  let usage := normalizeUsage program (object (request.lookup "usage"))
  match decision with
  | .allow =>
    applyConsumption program usage (effectiveConsumption program request mandate)
      (object (request.lookup "rwa"))
  | .deny => .ok usage

/-- The decision on a mandate and an envelope at a time. -/
def conclude (request mandate envelope : Object) (now : ℤ) : Except Fault Result := do
  let reasons ← checkAuthority runtime program request mandate envelope now
  let codes := sortStrings reasons
  let decision := if codes = [] then Decision.allow else .deny
  let next ← nextUsage program request mandate decision
  return { decision := decision, mandateId := str (mandate.lookup "id"),
           transactionId := str (envelope.lookup "id"), reasonCodes := codes, nextUsage := next }

/-- The function that both programs are: it panics, or returns a result or an error. -/
def evaluate (request : Object) : Except Fault (Except String Result) :=
  match object (request.lookup "mandate"), object (request.lookup "envelope") with
  | some mandate, some envelope =>
    let time := str (request.lookup "evaluation_time")
    match parseTime runtime time with
    | some now => .ok <$> conclude runtime program request mandate envelope now
    | none => .ok (.error (program.timeMessage runtime time))
  | _, _ => .ok (.error program.missingMessage)

/-- `EvaluateAuthority` of the SDK. -/
def EvaluateAuthority (request : Object) : Except Fault (Except String Result) :=
  evaluate runtime .sdk request

/-- `evaluateAuthority` of the CLI. -/
def evaluateAuthority (request : Object) : Except Fault (Except String Result) :=
  evaluate runtime .cli request

end Checks

end Oati.Go

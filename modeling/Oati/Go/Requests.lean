import Oati.Go.Evaluator

/-!
# One request, read by the Go SDK and by the TypeScript SDK

The Go evaluator reads a request as a raw object, the TypeScript one through the types of its
schemas. `IsRequest` relates the two, document by document; the free-form records are read with
`toRecord`.

`InDomain` is what is said of a request beyond that: its strings and numbers are ordinary, its
times are whole seconds, the limits and the terms of a profile have the types of their schemas,
the signed members have the types of the context, and the bounds of a child those of its parent.
-/

namespace Oati.Go

open JsonText (Literal)
open TypeScript (Engine AgentMandate TransactionEnvelope UsageSnapshot Consumption
  CommerceEvaluationContext EvaluationRequest MandateStatus Delegation isDecimal literalNumber)

/-! ### Ordinary documents -/

/-- A plain integer literal of at most 52 bits. -/
def SmallInteger (n : Literal) : Prop :=
  ∃ k, setString n.text.toList = some k ∧ k.natAbs ≤ 2 ^ 52

instance : DecidablePred SmallInteger := fun n =>
  decidable_of_iff ((setString n.text.toList).any fun k => k.natAbs ≤ 2 ^ 52)
    (by simp only [SmallInteger, Option.any_eq_true, decide_eq_true_eq])

/-- A text that is neither empty nor what a missing value prints, in the basic plane. -/
structure OrdinaryText (s : String) : Prop where
  nonempty : s ≠ ""
  notNil : s ≠ "<nil>"
  basicPlane : ∀ c ∈ s.toList, c.toNat < 0x10000

instance : DecidablePred OrdinaryText := fun s =>
  decidable_of_iff
    ((s != "" && (s != "<nil>" && s.toList.all fun c => decide (c.toNat < 0x10000))) = true)
    (by
      simp only [Bool.and_eq_true, bne_iff_ne, List.all_eq_true, decide_eq_true_eq]
      exact ⟨fun ⟨hne, hnil, hplane⟩ => ⟨hne, hnil, hplane⟩,
        fun h => ⟨h.nonempty, h.notNil, h.basicPlane⟩⟩)

/-- All numbers are small integers and all texts are ordinary. -/
structure Ordinary (v : Value) : Prop where
  numbers : ∀ n ∈ v.numbers, SmallInteger n
  strings : ∀ s ∈ v.strings, OrdinaryText s

/-- The members of an ordinary object are ordinary. -/
theorem Ordinary.lookup {o : Object} (h : Ordinary (.obj o)) {key : String} {v : Value}
    (hv : o.lookup key = some v) : Ordinary v := by
  have hmem := List.mem_of_lookup_eq_some hv
  refine ⟨fun n hn => h.numbers n ?_, fun s hs => h.strings s ?_⟩
  · exact Json.mem_memberNumbers.mpr ⟨_, hmem, hn⟩
  · exact Json.mem_memberStrings.mpr ⟨_, hmem, hs⟩

theorem Ordinary.item {items : List Value} (h : Ordinary (.arr items)) {v : Value}
    (hv : v ∈ items) : Ordinary v := by
  refine ⟨fun n hn => h.numbers n ?_, fun s hs => h.strings s ?_⟩
  · exact Json.mem_itemNumbers.mpr ⟨_, hv, hn⟩
  · exact Json.mem_itemStrings.mpr ⟨_, hv, hs⟩

theorem Ordinary.text {s : String} (h : Ordinary (.str s)) : OrdinaryText s :=
  h.strings s (by simp [Json.strings])

theorem Ordinary.smallInteger {n : Literal} (h : Ordinary (.num n)) : SmallInteger n :=
  h.numbers n (by simp [Json.numbers])

/-- `JSON.parse` reads a small integer as it is. -/
def ReadsIntegers (engine : Engine) : Prop :=
  ∀ n : Literal, ∀ k : ℤ, setString n.text.toList = some k → k.natAbs ≤ 2 ^ 52 →
    literalNumber engine n.text = k

/-- The time is a whole second, written without a fraction or with milliseconds of zero. -/
def WholeSecond (s : String) : Prop :=
  ∃ fields, Rfc3339.parse s = some fields ∧
    (fields.fraction = [] ∨ fields.fraction = ['0', '0', '0'])

instance : DecidablePred WholeSecond := fun s =>
  decidable_of_iff
    ((Rfc3339.parse s).any fun fields => fields.fraction = [] ∨ fields.fraction = ['0', '0', '0'])
    (by simp [WholeSecond, Option.any_eq_true])

/-! ### The documents of a request -/

/-- The value is the numeral of an integer. -/
def IsInteger (v : Value) (k : ℤ) : Prop :=
  ∃ n : Literal, v = .num n ∧ setString n.text.toList = some k

/-- The value is an object with a property. -/
def IsObject {α : Type} (P : Object → α → Prop) (v : Value) (t : α) : Prop :=
  ∃ o, v = .obj o ∧ P o t

/-- A list of strings. -/
def texts (items : List String) : Value := .arr (items.map .str)

/-- The values of `status`. -/
def statusText : MandateStatus → String
  | .active => "active"
  | .suspended => "suspended"
  | .revoked => "revoked"
  | .expired => "expired"
  | .consumed => "consumed"

structure IsDelegation (o : Object) (t : Delegation) : Prop where
  allowed : o.lookup "allowed" = some (.bool t.allowed)
  maxDepth : ∃ v, o.lookup "max_depth" = some v ∧ IsInteger v t.maxDepth

section Documents

variable (engine : Engine)

/-- A free-form record. -/
def IsRecord (v : Option Value) (t : Option TypeScript.Record) : Prop :=
  ∃ o : Option Object, v = o.map .obj ∧ t = o.map (toRecord engine)

structure IsMandate (o : Object) (t : AgentMandate) : Prop where
  id : o.lookup "id" = some (.str t.id)
  subject : o.lookup "subject" = some (.str t.subject)
  parentMandate : o.lookup "parent_mandate" = t.parentMandate.map .str
  purpose : o.lookup "purpose" = some (.str t.purpose)
  actions : o.lookup "actions" = some (texts t.actions)
  resources : o.lookup "resources" = t.resources.map texts
  counterparties : o.lookup "counterparties" = t.counterparties.map texts
  destinations : o.lookup "destinations" = t.destinations.map texts
  limits : IsRecord engine (o.lookup "limits") t.limits
  dataUse : IsRecord engine (o.lookup "data_use") t.dataUse
  delegation : Option.Rel (IsObject IsDelegation) (o.lookup "delegation") t.delegation
  notBefore : o.lookup "not_before" = some (.str t.notBefore)
  expiresAt : o.lookup "expires_at" = some (.str t.expiresAt)
  status : o.lookup "status" = some (.str (statusText t.status))
  profile : o.lookup "profile" = t.profile.map .str
  extensions : IsRecord engine (o.lookup "extensions") t.extensions

structure IsEnvelope (o : Object) (t : TransactionEnvelope) : Prop where
  id : o.lookup "id" = some (.str t.id)
  agentId : o.lookup "agent_id" = some (.str t.agentId)
  mandateId : o.lookup "mandate_id" = some (.str t.mandateId)
  action : o.lookup "action" = some (.str t.action)
  resource : o.lookup "resource" = some (.str t.resource)
  purpose : o.lookup "purpose" = t.purpose.map .str
  destination : o.lookup "destination" = t.destination.map .str
  counterparty : o.lookup "counterparty" = t.counterparty.map .str
  profile : o.lookup "profile" = t.profile.map .str
  extensions : IsRecord engine (o.lookup "extensions") t.extensions

structure IsUsage (o : Object) (t : UsageSnapshot) : Prop where
  calls : Option.Rel (fun v n => IsInteger v (n : ℕ)) (o.lookup "calls") t.calls
  amount : o.lookup "amount" = t.amount.map .str
  currency : o.lookup "currency" = t.currency.map .str
  quantity : o.lookup "quantity" = t.quantity.map .str
  consumed : o.lookup "consumed" = t.consumed.map .bool
  idempotencyKeys : o.lookup "idempotency_keys" = t.idempotencyKeys.map texts
  mintedSupply : o.lookup "minted_supply" = t.mintedSupply.map .str

structure IsConsumption (o : Object) (t : Consumption) : Prop where
  calls : Option.Rel (fun v n => IsInteger v (n : ℕ)) (o.lookup "calls") t.calls
  amount : o.lookup "amount" = t.amount.map .str
  currency : o.lookup "currency" = t.currency.map .str
  quantity : o.lookup "quantity" = t.quantity.map .str
  idempotencyKey : o.lookup "idempotency_key" = t.idempotencyKey.map .str
  consume : o.lookup "consume" = t.consume.map .bool

/-- The quantity is a positive integer. -/
structure IsCommerceContext (o : Object) (t : CommerceEvaluationContext) : Prop where
  merchant : o.lookup "merchant_organisation_id" = some (.str t.merchantOrganisationId)
  service : o.lookup "service_id" = some (.str t.serviceId)
  offer : o.lookup "offer_id" = some (.str t.offerId)
  currency : o.lookup "currency" = some (.str t.currency)
  quantity : ∃ v, ∃ k : ℕ, o.lookup "quantity" = some v ∧ IsInteger v k ∧ 1 ≤ k ∧ t.quantity = k
  unitPrice : o.lookup "unit_price" = some (.str t.unitPrice)
  totalAmount : o.lookup "total_amount" = some (.str t.totalAmount)
  idempotencyKey : o.lookup "idempotency_key" = some (.str t.idempotencyKey)
  termsDigest : o.lookup "terms_digest" = t.termsDigest.map .str

/-- The RWA context is passed on as it is. -/
def IsRwaContext (v : Value) (t : TypeScript.Value) : Prop :=
  ∃ o, v = .obj o ∧ t = .obj (toRecord engine o)

structure IsRequest (o : Object) (t : EvaluationRequest) : Prop where
  evaluationTime : o.lookup "evaluation_time" = some (.str t.evaluationTime)
  mandate : ∃ v, o.lookup "mandate" = some v ∧ IsObject (IsMandate engine) v t.mandate
  parentMandate : Option.Rel (IsObject (IsMandate engine)) (o.lookup "parent_mandate")
    t.parentMandate
  delegationDepth : Option.Rel IsInteger (o.lookup "delegation_depth") t.delegationDepth
  envelope : ∃ v, o.lookup "envelope" = some v ∧ IsObject (IsEnvelope engine) v t.envelope
  usage : ∃ v, o.lookup "usage" = some v ∧ IsObject IsUsage v t.usage
  consumption : Option.Rel (IsObject IsConsumption) (o.lookup "consumption") t.consumption
  commerce : Option.Rel (IsObject IsCommerceContext) (o.lookup "commerce") t.commerce
  rwa : Option.Rel (IsRwaContext engine) (o.lookup "rwa") t.rwa

end Documents

/-! ### The domain -/

/-- The member is a text, or missing. -/
def IsText (v : Option Value) : Prop := ∀ w, v = some w → ∃ s, w = .str s

/-- The member is a decimal. -/
def IsDecimalText (v : Option Value) : Prop := ∃ s, v = some (.str s) ∧ isDecimal s = true

/-- The terms of the Commerce profile, as its schema types them. -/
structure CommerceTerms (terms : Object) : Prop where
  isText : ∀ key ∈ ["merchant_organisation_id", "service_id", "offer_id", "currency",
    "billing_model", "terms_digest"], IsText (terms.lookup key)
  maxUnitPrice : IsDecimalText (terms.lookup "max_unit_price")
  maxTotal : IsDecimalText (terms.lookup "max_total")
  maxQuantity : ∃ v, ∃ k : ℕ, terms.lookup "max_quantity" = some v ∧ IsInteger v k

/-- The terms of the RWA profile, as its schema types them. -/
structure RwaTerms (terms : Object) : Prop where
  isText : ∀ key ∈ ["asset_id", "state_claim_id", "network", "token_contract", "operation", "unit"],
    IsText (terms.lookup key)
  maxQuantity : IsDecimalText (terms.lookup "max_quantity")
  minimumApprovals : ∃ v k, terms.lookup "minimum_approvals" = some v ∧ IsInteger v k
  oneTime : ∃ b, terms.lookup "one_time" = some (.bool b)

/-- The times and the profile terms of a mandate. -/
structure TypedMandate (m : Object) : Prop where
  notBefore : WholeSecond (str (m.lookup "not_before"))
  expiresAt : WholeSecond (str (m.lookup "expires_at"))
  commerce : ∀ t, terms m "commerce" = some t → CommerceTerms t
  rwa : ∀ t, terms m "rwa" = some t → RwaTerms t

/-- The limits that the evaluators read. -/
structure TypedLimits (limits : Object) : Prop where
  maxCalls : ∀ v, limits.lookup "max_calls" = some v → ∃ k, IsInteger v k
  maxTotal : ∀ v, limits.lookup "max_total" = some v → ∃ s, v = .str s ∧ isDecimal s = true
  maxQuantity : ∀ v, limits.lookup "max_quantity" = some v →
    (∃ s, v = .str s ∧ isDecimal s = true) ∨ ∃ k : ℕ, IsInteger v k
  oneTime : ∀ v, limits.lookup "one_time" = some v → ∃ b, v = .bool b

/-- An RWA context, as the schema of a request types it. -/
structure TypedRwaContext (c : Object) : Prop where
  isText : ∀ key ∈ ["asset_id", "state_claim_id", "network", "token_contract", "operation", "unit",
    "quantity", "reserve", "current_supply"], ∃ s, c.lookup key = some (.str s)
  maximumSupply : IsText (c.lookup "maximum_supply")
  approvalCount : ∃ v k, c.lookup "approval_count" = some v ∧ IsInteger v k
  approvalRoles : ∃ roles, c.lookup "approval_roles" = some (texts roles)
  claimValidUntil : ∃ s, c.lookup "claim_valid_until" = some (.str s) ∧ WholeSecond s

/-- The two values have the same JSON type. -/
def SameType : Value → Value → Prop
  | .null, .null => True
  | .bool _, .bool _ => True
  | .num _, .num _ => True
  | .str _, .str _ => True
  | .arr _, .arr _ => True
  | .obj _, .obj _ => True
  | _, _ => False

/-- Signed members are there exactly if the members of the context are, with the same types. -/
def SignedLike (signed context : Object) (fields : List (String × String)) : Prop :=
  ∀ field ∈ fields, Option.Rel SameType (signed.lookup field.1) (context.lookup field.2)

/-- The signed members of a Commerce envelope and the members of the context. -/
def signedCommerceFields : List (String × String) :=
  [("offer_id", "offer_id"), ("currency", "currency"), ("quantity", "quantity"),
    ("quoted_unit_price", "unit_price"), ("quoted_total", "total_amount"),
    ("idempotency_key", "idempotency_key"), ("terms_digest", "terms_digest")]

/-- The signed members of an RWA envelope. -/
def signedRwaFields : List String :=
  ["asset_id", "state_claim_id", "network", "token_contract", "operation", "unit", "quantity"]

/-- Both texts are decimals, or both have a character that no decimal has. -/
def SameText (s t : String) : Prop :=
  isDecimal s = true ∧ isDecimal t = true ∨
    (∃ c ∈ s.toList, c ≠ '.' ∧ c.isDigit = false) ∧ ∃ c ∈ t.toList, c ≠ '.' ∧ c.isDigit = false

mutual

/-- The child's entry has the type of the parent's, at every depth; lists are lists of strings. -/
def Alike (x : Value) : Value → Prop
  | .null => x = .null
  | .bool _ => ∃ b, x = .bool b
  | .num _ => ∃ n, x = .num n
  | .str t => ∃ s, x = .str s ∧ SameText s t
  | .arr items => (∃ xs, x = texts xs) ∧ ∃ ts : List String, items = ts.map .str
  | .obj members => ∃ c, x = .obj c ∧ AlikeMembers c members
termination_by structural v => v

/-- The entries that both have are of the same types. -/
def AlikeMembers (c : Object) : List (String × Value) → Prop
  | [] => True
  | (k, v) :: rest => (∀ x, c.lookup k = some x → Alike x v) ∧ AlikeMembers c rest
termination_by structural entries => entries

end

structure InDomain (o : Object) : Prop where
  ordinary : Ordinary (.obj o)
  evaluationTime : WholeSecond (str (o.lookup "evaluation_time"))
  mandate : ∀ m, object (o.lookup "mandate") = some m → TypedMandate m
  limits : ∀ m limits, object (o.lookup "mandate") = some m →
    object (m.lookup "limits") = some limits → TypedLimits limits
  parent : ∀ p, object (o.lookup "parent_mandate") = some p → TypedMandate p
  bounds : ∀ m p, object (o.lookup "mandate") = some m →
    object (o.lookup "parent_mandate") = some p → ∀ key ∈ ["limits", "data_use"], ∀ c b,
      object (m.lookup key) = some c → object (p.lookup key) = some b → AlikeMembers c b
  rwa : ∀ c, object (o.lookup "rwa") = some c → TypedRwaContext c
  signedCommerce : ∀ e c signed, object (o.lookup "envelope") = some e →
    object (o.lookup "commerce") = some c → terms e "commerce" = some signed →
      SignedLike signed c signedCommerceFields
  signedRwa : ∀ e c signed, object (o.lookup "envelope") = some e →
    object (o.lookup "rwa") = some c → terms e "rwa" = some signed →
      SignedLike signed c (signedRwaFields.map fun field => (field, field))

end Oati.Go

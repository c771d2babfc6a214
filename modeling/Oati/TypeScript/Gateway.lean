import Oati.Library.ProgState
import Oati.TypeScript.Middleware

/-!
# The authorization gateway

`server.mjs` of the Envoy authorizer, as far as a request under `/authorize/` goes: the middleware,
with the policies, the resolvers and the evaluation context that the gateway supplies. A request is
handled by a program whose calls are the lookups of public records, the calls of the upstream
resolver, of Web Crypto, of the replay cache and of the clock, and what the middleware still calls.

The middleware's policies come with resolvers that wrap the upstream one. The calls of a
verification go to the resolver of the last policy of its kind, so the middleware is implemented
with a state (`interpretWith`).

`Gateway` holds what is outside of the gateway: the engine, the schemas, what typed code reads of
the commerce terms of an envelope, and the constructor of a request.
-/

namespace Oati.TypeScript

/-! ### Data -/

/-- A public record, by the members the gateway reads. -/
structure LookupRecord where
  status : String
  issuer : String
  issuedAt : Option String := none
  proofStatus : String
  publicAttributes : Record

/-- The kinds of records the gateway looks up. -/
inductive LookupKind where
  | mandate
  | passport
  | key
  deriving DecidableEq, Repr

def LookupKind.name : LookupKind → String
  | .mandate => "mandate"
  | .passport => "passport"
  | .key => "key"

/-- The part of the configuration that decides about requests. -/
structure GatewayConfig where
  expectedAudience : String
  mandateAudience : String
  passportAudience : String
  receiptIssuer : String
  trustAnchors : List String
  clockSkewMs : ℚ
  maxProofAgeMs : ℚ
  maxTrustDepth : ℤ
  maxHeaderBytes : ℚ
  maxBodyBytes : ℚ

/-- The commerce terms of an envelope, at their types. -/
structure SignedCommerce where
  merchantOrganisationId : String
  serviceId : String
  offerId : String
  currency : String
  quantity : ℚ
  quotedUnitPrice : String
  quotedTotal : String
  idempotencyKey : String
  termsDigest : Option String := none

/-- A header of an incoming message. -/
inductive HeaderField where
  | one (value : String)
  | many (values : List String)

/-- `http.IncomingMessage`; its body is read by a call. -/
structure IncomingMessage where
  method : String
  url : String
  headers : List (String × HeaderField) := []

structure Gateway where
  engine : Engine
  schemas : Schemas
  config : GatewayConfig
  signedCommerce : Value → SignedCommerce
  /-- `new Request(new URL(target, origin), { method, headers, … })`. -/
  newRequest : String → String → Headers → Except JsError HttpRequest

/-- The resolver of a policy. -/
inductive PolicyResolver where
  | upstream
  /-- `lifecycleResolver`. -/
  | lifecycle (documentID : Option Value) (record : LookupRecord)
  /-- `unavailableRuntimeResolver`. -/
  | unavailable (runtimeKeyID : Option Value)

/-- The resolvers of the policies made so far. -/
abbrev Resolvers := OatiDocumentKind → PolicyResolver

/-- The calls of the gateway; `allow` is the call of its handler. -/
inductive GatewayCall where
  | lookup (kind : LookupKind) (id : Option Value)
  | trust (call : TrustCall)
  | requestBody
  | allow (context : OatiMiddlewareContext)
  | middleware (call : MiddlewareCall)

@[reducible] def GatewayAnswer : GatewayCall → Type
  | .lookup _ _ => LookupRecord
  | .trust call => TrustAnswer call
  | .requestBody => List UInt8
  | .allow _ => Unit
  | .middleware call => MiddlewareAnswer call

abbrev GatewayProg (α : Type) := Prog GatewayAnswer JsError α

/-! ### Records and resolvers -/

/-- `value.key`, which throws on `undefined` and `null`. -/
def readMember (value : Option Value) (key : String) : Except JsError (Option Value) :=
  match value with
  | none => .error (.typeError ("Cannot read properties of undefined (reading '" ++ key ++ "')"))
  | some .null =>
    .error (.typeError ("Cannot read properties of null (reading '" ++ key ++ "')"))
  | some v => .ok (v.member key)

/-- `canonicalJson` of a value that may be `undefined`. -/
def canonicalOptional (engine : Engine) (value : Option Value) : Except JsError String :=
  match value with
  | none => .error (invalid "undefined values are not valid JSON")
  | some v => canonicalJson engine v

/-- `JSON.parse(record.public_attributes[key])`. -/
def parseAttribute (engine : Engine) (record : LookupRecord) (key : String) :
    Except JsError Value :=
  jsonParse engine (optionText engine (record.publicAttributes.lookup key)).toList

/-- The status of the revocation that stands for a record that is not active. -/
def syntheticRevocation (record : LookupRecord) (target : String) : RevocationStatus :=
  { target, status := if record.status = "suspended" then "suspended" else "revoked"
    effectiveAt := record.issuedAt }

/-- `lifecycleResolver` and `unavailableRuntimeResolver`. -/
def resolverCalls (resolver : PolicyResolver) (c : TrustCall) : GatewayProg (TrustAnswer c) :=
  match resolver, c with
  | .lifecycle documentID record, .resolveRevocation target =>
    if strictEq (some (.str target)) documentID && record.status != "active" then
      pure (some (syntheticRevocation record target))
    else Prog.perform (A := GatewayAnswer) (.trust (.resolveRevocation target))
  | .unavailable runtimeKeyID, .resolveKey id =>
    if strictEq (some (.str id)) runtimeKeyID then pure none
    else Prog.perform (A := GatewayAnswer) (.trust (.resolveKey id))
  | _, c => Prog.perform (A := GatewayAnswer) (.trust c)

/-- The passport is verified with a replay cache of its own. -/
def passportCalls (resolver : PolicyResolver) : ∀ c, GatewayProg (TrustAnswer c)
  | .checkAndStore key expiresAt now =>
    pure (MemoryReplayCache.checkAndStore [] key expiresAt now).1
  | c => resolverCalls resolver c

/-- `passport.verification_methods?.find((candidate) => candidate.id === id)` on the items. -/
def findCandidate (id : Option Value) : List Value → Except JsError (Option Value)
  | [] => .ok none
  | candidate :: rest => do
    if strictEq (← readMember (some candidate) "id") id then return some candidate
    else findCandidate id rest

/-- `passport.verification_methods?.find((candidate) => candidate.id === id)`. -/
def findMethod (passport : Value) (id : Option Value) : Except JsError (Option Value) :=
  match passport.member "verification_methods" with
  | none | some .null => .ok none
  | some (.arr items) => findCandidate id items
  | some _ => .error (.typeError "passport.verification_methods?.find is not a function")

/-- The runtime key is the one of the passport's method. -/
def runtimeMatches (engine : Engine) (runtime : LookupRecord) (passport : Value)
    (method : Option Value) : Except JsError Bool :=
  if runtime.status = "active" ∧ runtime.proofStatus = "verified" ∧
      strictEq (some (.str runtime.issuer)) (passport.member "issuer") = true ∧
      strictEq (runtime.publicAttributes.lookup "controller") (passport.member "id") = true then do
    let key ← canonicalJson engine (← parseAttribute engine runtime "public_key_jwk")
    return key == (← canonicalOptional engine (get method "public_key_jwk"))
  else .ok false

/-- `commerceEvaluationContext`. -/
def commerceEvaluationContext (value : SignedCommerce) : CommerceEvaluationContext :=
  { merchantOrganisationId := value.merchantOrganisationId, serviceId := value.serviceId
    offerId := value.offerId, currency := value.currency, quantity := value.quantity
    unitPrice := value.quotedUnitPrice, totalAmount := value.quotedTotal
    idempotencyKey := value.idempotencyKey, termsDigest := value.termsDigest }

namespace Gateway

variable (g : Gateway)

/-- `boundPublicDocument`. -/
def boundPublicDocument (kind : LookupKind) (id : Option Value)
    (presented : Option Value := none) : GatewayProg LookupRecord := do
  let record ← Prog.perform (A := GatewayAnswer) (.lookup kind id)
  if record.proofStatus ≠ "verified" ∨
      ((record.publicAttributes.lookup "signed_document").bind Json.string?).isNone then
    Prog.throw (.error (kind.name ++ " public projection is not verified"))
  else do
    let signed ← Prog.ofExcept (parseAttribute g.engine record "signed_document")
    if truthy presented then do
      let canonicalSigned ← Prog.ofExcept (canonicalJson g.engine signed)
      let canonicalPresented ← Prog.ofExcept (canonicalOptional g.engine presented)
      if canonicalSigned ≠ canonicalPresented then
        Prog.throw (.error (kind.name ++ " does not match its public projection"))
      else pure record
    else pure record

/-! ### Policies -/

/-- `base`, with an audience. -/
def basePolicy (expectedAudience : String) : VerificationPolicy :=
  { trustAnchors := g.config.trustAnchors, expectedAudience
    clockSkewMs := some g.config.clockSkewMs, maxProofAgeMs := some g.config.maxProofAgeMs
    maxTrustDepth := some g.config.maxTrustDepth }

/-- `passportPolicy`. -/
def passportPolicy : VerificationPolicy :=
  { g.basePolicy g.config.passportAudience with maxProofAgeMs := some Double.maxSafeInteger }

/-- The policy for a mandate. -/
def mandatePolicy (document : Option Value) : GatewayProg (VerificationPolicy × PolicyResolver) :=
  if truthy document then do
    let id := get document "id"
    let record ← g.boundPublicDocument .mandate id document
    pure (g.basePolicy g.config.mandateAudience, .lifecycle id record)
  else pure (g.basePolicy g.config.mandateAudience, .upstream)

/-- The public record of the method's key is that of the method. -/
def isRuntimeKey (passport : Value) (method : Option Value) : GatewayProg Bool :=
  if truthy method then do
    let runtime ← Prog.perform (A := GatewayAnswer) (.lookup .key (get method "id"))
    Prog.ofExcept (runtimeMatches g.engine runtime passport method)
  else pure false

/-- The key of the envelope is resolved, if the method that the passport lists for it and its
public record match. -/
def runtimeResolver (passport : Value) (verified : Bool) (keyID : Option Value) :
    GatewayProg PolicyResolver := do
  let method ← Prog.ofExcept (findMethod passport keyID)
  let isRuntime ← g.isRuntimeKey passport method
  if verified && strictEq (get method "controller") (passport.member "id") && isRuntime then
    pure .upstream
  else pure (.unavailable keyID)

/-- The policy for the envelope. -/
def envelopePolicy (envelope : Option Value) :
    GatewayProg (VerificationPolicy × PolicyResolver) := do
  let agentID ← Prog.ofExcept (readMember envelope "agent_id")
  let record ← g.boundPublicDocument .passport agentID
  let passport ← Prog.ofExcept (parseAttribute g.engine record "signed_document")
  let passportID ← Prog.ofExcept (readMember (some passport) "id")
  let result ← (verifyDocument g.engine (passport.members?.getD []) g.passportPolicy).interpret
    (passportCalls (.lifecycle passportID record))
  let resolver ← g.runtimeResolver passport result.verified
    (get (get envelope "proof") "verification_method")
  pure (g.basePolicy g.config.expectedAudience, resolver)

/-- `gatewayVerificationPolicy`. -/
def verificationPolicy (kind : OatiDocumentKind) (request : HttpRequest) :
    GatewayProg (VerificationPolicy × PolicyResolver) := do
  let extracted ← Prog.ofExcept
    (extractOatiHeaders g.engine request (some g.config.maxHeaderBytes))
  match kind with
  | .mandate => g.mandatePolicy extracted.mandate
  | .parentMandate => g.mandatePolicy extracted.parentMandate
  | .envelope => g.envelopePolicy extracted.envelope

/-! ### The middleware of the gateway -/

/-- `evaluationExtensions`. -/
def evaluationExtensions (extracted : ExtractedOatiRequest) : OatiEvaluationExtensions :=
  let commerce := extracted.envelope.view.extensions.bind (·.lookup "commerce")
  let rwa := extracted.envelope.view.extensions.bind (·.lookup "rwa")
  { commerce :=
      if truthy commerce then
        commerce.map fun value => commerceEvaluationContext (g.signedCommerce value)
      else none
    rwa := if truthy rwa then rwa else none }

/-- The options of `createOatiMiddleware`. -/
def middlewareOptions : OatiMiddlewareOptions :=
  { receiptIssuer := g.config.receiptIssuer, hasUsageStore := true
    hasEvaluationExtensions := true, hasEmitReceipt := true
    maxHeaderBytes := some g.config.maxHeaderBytes, requireRequestDigest := some true
    maxBodyBytes := some g.config.maxBodyBytes, allowedReceiptOutcome := some .pending }

/-- The response of the handler. -/
def allowResponse (context : OatiMiddlewareContext) : Except JsError HttpResponse := do
  let headers ← Headers.set [] "x-oati-decision" "allow"
  let headers ← headers.set "x-oati-transaction-id" context.transactionId
  let headers ← headers.set "x-oati-correlation-id" context.correlationId
  let headers ← headers.set "x-oati-reason-codes"
    (",".intercalate context.evaluation.reasonCodes)
  newResponse { status := 200, headers }

/-- What a call of the middleware does in the gateway. -/
def answer (request : HttpRequest) (body : List UInt8) (resolvers : Resolvers) :
    ∀ c : MiddlewareCall, GatewayProg (MiddlewareAnswer c × Resolvers)
  | .verificationPolicy kind => do
    let (policy, resolver) ← g.verificationPolicy kind request
    pure (policy, Function.update resolvers kind resolver)
  | .trust kind c => do
    let answered ← resolverCalls (resolvers kind) c
    pure (answered, resolvers)
  | .readBody => pure (body, resolvers)
  | .evaluationExtensions extracted => pure (some (g.evaluationExtensions extracted), resolvers)
  | .next context => do
    Prog.perform (A := GatewayAnswer) (.allow context)
    let response ← Prog.ofExcept (allowResponse context)
    pure (response, resolvers)
  | c => do
    let answered ← Prog.perform (A := GatewayAnswer) (.middleware c)
    pure (answered, resolvers)

/-! ### The application -/

/-- `headers.append(name, value)`. -/
def appendHeader (headers : Headers) (name value : String) : Except JsError Headers :=
  match headers.get name with
  | some existing => do
    return headers.put (headerName name) (existing ++ ", " ++ (← headerValue value))
  | none => headers.set name value

/-- The headers of the request that is verified. -/
def verificationHeaders (headers : Headers) :
    List (String × HeaderField) → Except JsError Headers
  | [] => .ok headers
  | (name, .one value) :: rest => do verificationHeaders (← headers.set name value) rest
  | (name, .many values) :: rest => do
    verificationHeaders (← values.foldlM (appendHeader · name) headers) rest

/-- `request.url.slice("/authorize".length) || "/"`. -/
def authorizedTarget (url : String) : String :=
  let rest := url.toList.drop "/authorize".length
  if rest = [] then "/" else String.ofList rest

/-- The body the middleware reads. -/
def forwardedBody (request : IncomingMessage) (body : List UInt8) : List UInt8 :=
  if request.method = "GET" ∨ request.method = "HEAD" then [] else body

/-- The middleware on the request that is verified. -/
def decide (middleware : HttpRequest → MiddlewareProg HttpResponse) (request : IncomingMessage)
    (body : List UInt8) : GatewayProg HttpResponse := do
  let headers ← Prog.ofExcept (verificationHeaders [] request.headers)
  let verificationRequest ← Prog.ofExcept
    (g.newRequest request.method (authorizedTarget request.url) headers)
  (middleware verificationRequest).interpretWith
    (g.answer verificationRequest (forwardedBody request body)) (fun _ => .upstream)

/-- `ALLOWED_RESPONSE_HEADERS`. -/
def ALLOWED_RESPONSE_HEADERS : List String :=
  ["content-type", "x-oati-decision", "x-oati-transaction-id", "x-oati-correlation-id",
    "x-oati-receipt-id", "x-oati-receipt", "x-oati-reason-codes"]

/-- The name under which `writeDecision` answers a header: `oati-…` is `x-oati-…`. -/
def responseHeaderName (rawName : String) : String :=
  let name := headerName rawName
  if startsWith name "oati-" then "x-" ++ name else name

/-- `writeDecision`. -/
def writeDecision (decision : HttpResponse) : HttpResponse :=
  { status := decision.status
    headers := (decision.headers.map fun m => (responseHeaderName m.1, m.2)).filter
      fun m => ALLOWED_RESPONSE_HEADERS.contains m.1
    body := if decision.status = 200 then none else decision.body }

/-- The answer to a request that could not be decided. -/
def unavailable (status : ℕ) (error : String) : HttpResponse :=
  { status, headers := [("content-type", "application/json")]
    body := some (stringify g.engine (.obj [("error", .str error)])) }

/-- The application on a request under `/authorize/`. -/
def authorize (middleware : HttpRequest → MiddlewareProg HttpResponse)
    (request : IncomingMessage) : GatewayProg HttpResponse := do
  match ← (Prog.perform (A := GatewayAnswer) .requestBody).attempt with
  | .error _ => pure (g.unavailable 503 "authorization_unavailable")
  | .ok body =>
    if g.config.maxBodyBytes < body.length then pure (g.unavailable 413 "request_too_large")
    else
      match ← (g.decide middleware request body).attempt with
      | .ok decision => pure (writeDecision decision)
      | .error _ => pure (g.unavailable 503 "authorization_unavailable")

/-- `createApplication`. The requests under other paths, which do not get to the middleware, are
not answered here. -/
def createApplication :
    Except JsError (IncomingMessage → GatewayProg (Option HttpResponse)) := do
  let middleware ← createOatiMiddleware g.engine g.schemas g.middlewareOptions
  return fun request =>
    if startsWith request.url "/authorize/" then some <$> g.authorize middleware request
    else pure none

end Gateway

end Oati.TypeScript

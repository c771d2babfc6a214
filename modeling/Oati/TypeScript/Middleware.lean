import Oati.TypeScript.Evaluator
import Oati.TypeScript.Http

/-!
# The HTTP middleware

`middleware.ts`, function by function. A request is handled by a program whose calls are those
of the application's callbacks, of the verifications' dependencies, of Web Crypto and of the
clock; each may be answered in any way, and may throw. The stages of the handling are definitions
of their own, in the order of the source, each ending in a response or in the next stage.

`Schemas` stands for the compiled JSON schemas: which objects conform, and what typed code reads
of them.
-/

namespace Oati.TypeScript

/-! ### Data -/

def OatiErrorCode.name : OatiErrorCode → String
  | .validationFailed => "VALIDATION_FAILED"
  | .invalidCanonicalValue => "INVALID_CANONICAL_VALUE"
  | .cryptoUnavailable => "CRYPTO_UNAVAILABLE"
  | .lookupBadRequest => "LOOKUP_BAD_REQUEST"
  | .lookupNotFound => "LOOKUP_NOT_FOUND"
  | .lookupRateLimited => "LOOKUP_RATE_LIMITED"
  | .lookupUnavailable => "LOOKUP_UNAVAILABLE"
  | .lookupInvalidResponse => "LOOKUP_INVALID_RESPONSE"
  | .lookupTimeout => "LOOKUP_TIMEOUT"
  | .lookupCancelled => "LOOKUP_CANCELLED"
  | .middlewareBadRequest => "MIDDLEWARE_BAD_REQUEST"
  | .middlewareUnauthenticated => "MIDDLEWARE_UNAUTHENTICATED"
  | .middlewareForbidden => "MIDDLEWARE_FORBIDDEN"
  | .middlewareReplay => "MIDDLEWARE_REPLAY"
  | .middlewareUsageConflict => "MIDDLEWARE_USAGE_CONFLICT"
  | .middlewareUnavailable => "MIDDLEWARE_UNAVAILABLE"
  | .adapterInvalidInput => "ADAPTER_INVALID_INPUT"

def VerificationCode.name : VerificationCode → String
  | .proofMissing => "PROOF_MISSING"
  | .proofMalformed => "PROOF_MALFORMED"
  | .algorithmNotAllowed => "ALGORITHM_NOT_ALLOWED"
  | .signatureInvalid => "SIGNATURE_INVALID"
  | .keyNotFound => "KEY_NOT_FOUND"
  | .keyInvalid => "KEY_INVALID"
  | .keyRevoked => "KEY_REVOKED"
  | .issuerNotTrusted => "ISSUER_NOT_TRUSTED"
  | .issuerRevoked => "ISSUER_REVOKED"
  | .documentRevoked => "DOCUMENT_REVOKED"
  | .revocationUnavailable => "REVOCATION_UNAVAILABLE"
  | .proofNotYetValid => "PROOF_NOT_YET_VALID"
  | .proofExpired => "PROOF_EXPIRED"
  | .proofTooOld => "PROOF_TOO_OLD"
  | .documentNotYetValid => "DOCUMENT_NOT_YET_VALID"
  | .documentExpired => "DOCUMENT_EXPIRED"
  | .audienceMismatch => "AUDIENCE_MISMATCH"
  | .replayDetected => "REPLAY_DETECTED"

namespace OATI_HTTP_HEADERS

def envelope : String := "OATI-Envelope"
def mandate : String := "OATI-Mandate"
def parentMandate : String := "OATI-Parent-Mandate"
def transactionId : String := "OATI-Transaction-ID"
def correlationId : String := "OATI-Correlation-ID"
def receipt : String := "OATI-Receipt"
def receiptId : String := "OATI-Receipt-ID"

end OATI_HTTP_HEADERS

inductive OatiDocumentKind where
  | envelope
  | mandate
  | parentMandate
  deriving DecidableEq, Repr

/-- `kind.toUpperCase()`. -/
def OatiDocumentKind.upperName : OatiDocumentKind → String
  | .envelope => "ENVELOPE"
  | .mandate => "MANDATE"
  | .parentMandate => "PARENT_MANDATE"

/-- An object that conforms to a schema, and what typed code reads of it. -/
structure Conforming (α : Type) where
  members : Record
  view : α

/-- The schemas the middleware validates with. Of a receipt typed code reads the identifier. -/
structure Schemas where
  mandate : Record → Option AgentMandate
  envelope : Record → Option TransactionEnvelope
  receipt : Record → Option String

abbrev ActionReceipt := Conforming String

/-- `Omit<ActionReceipt, "oati_version" | "proof">`, by its members. -/
abbrev ReceiptDraft := Record

/-- What `extract` returns, before it is validated. -/
structure ExtractedValues where
  envelope : Option Value := none
  mandate : Option Value := none
  parentMandate : Option Value := none

structure ExtractedOatiRequest where
  envelope : Conforming TransactionEnvelope
  mandate : Conforming AgentMandate
  parentMandate : Option (Conforming AgentMandate) := none

structure OatiEvaluationExtensions where
  delegationDepth : Option ℤ := none
  consumption : Option Consumption := none
  commerce : Option CommerceEvaluationContext := none
  rwa : Option Value := none

/-- An object that a usage store loaded. A store may recognize the object itself. -/
structure LoadedUsage where
  identity : ℕ
  snapshot : UsageSnapshot
  deriving DecidableEq, Repr

inductive ReceiptOutcome where
  | succeeded
  | failed
  | denied
  | pending
  | unknown
  deriving DecidableEq, Repr

def ReceiptOutcome.name : ReceiptOutcome → String
  | .succeeded => "succeeded"
  | .failed => "failed"
  | .denied => "denied"
  | .pending => "pending"
  | .unknown => "unknown"

def Decision.name : Decision → String
  | .allow => "allow"
  | .deny => "deny"

/-- `OatiMiddlewareOptions`: which of the optional callbacks there are, and the values. The
callbacks themselves are calls. -/
structure OatiMiddlewareOptions where
  receiptIssuer : String
  hasUsageStore : Bool := false
  hasEvaluationExtensions : Bool := false
  hasExtract : Bool := false
  hasEmitReceipt : Bool := false
  hasGenerateCorrelationId : Bool := false
  hasGenerateReceiptId : Bool := false
  policyDigest : Option String := none
  maxHeaderBytes : Option ℚ := none
  requireRequestDigest : Option Bool := none
  maxBodyBytes : Option ℚ := none
  allowedReceiptOutcome : Option ReceiptOutcome := none

structure OatiMiddlewareContext where
  request : HttpRequest
  envelope : Conforming TransactionEnvelope
  mandate : Conforming AgentMandate
  parentMandate : Option (Conforming AgentMandate)
  correlationId : String
  transactionId : String
  envelopeVerification : VerificationResult
  mandateVerification : VerificationResult
  parentMandateVerification : Option VerificationResult
  evaluation : EvaluationResult

/-- The calls of the middleware. -/
inductive MiddlewareCall where
  | generateCorrelationId
  | randomUUID
  | getRandomValues
  | extract
  | verificationPolicy (kind : OatiDocumentKind)
  | trust (kind : OatiDocumentKind) (call : TrustCall)
  | readBody
  | digest (bytes : List UInt8)
  | evaluationExtensions (extracted : ExtractedOatiRequest)
  | load (mandateId : String)
  | now
  | compareAndSet (mandateId : String) (previous : LoadedUsage) (next : UsageSnapshot)
  | next (context : OatiMiddlewareContext)
  | generateReceiptId (transactionId : String)
  | signReceipt (draft : ReceiptDraft) (context : OatiMiddlewareContext)
  | emitReceipt (receipt : ActionReceipt) (context : OatiMiddlewareContext)

/-- What a call is answered with. A missing generator of the platform is `none`, and so is the
time of an invalid date. -/
@[reducible] def MiddlewareAnswer : MiddlewareCall → Type
  | .generateCorrelationId => Option String
  | .randomUUID => Option String
  | .getRandomValues => Option (Vector UInt8 16)
  | .extract => ExtractedValues
  | .verificationPolicy _ => VerificationPolicy
  | .trust _ call => TrustAnswer call
  | .readBody => List UInt8
  | .digest _ => List UInt8
  | .evaluationExtensions _ => Option OatiEvaluationExtensions
  | .load _ => LoadedUsage
  | .now => Option ℤ
  | .compareAndSet _ _ _ => Bool
  | .next _ => HttpResponse
  | .generateReceiptId _ => Option String
  | .signReceipt _ _ => Value
  | .emitReceipt _ _ => Unit

abbrev MiddlewareProg (α : Type) := Prog MiddlewareAnswer JsError α

/-! ### Errors and problems -/

/-- `middlewareError`. -/
def middlewareError (code : OatiErrorCode) (message : String) : JsError := .oatiError code message

/-- `isMiddlewareError`. -/
def isMiddlewareError : JsError → Bool
  | .oatiError code _ => startsWith code.name "MIDDLEWARE_"
  | _ => false

/-- `isMiddlewareError(error) ? error : middlewareError(code, message)`. -/
def safeError (error : JsError) (code : OatiErrorCode) (message : String) : JsError :=
  if isMiddlewareError error then error else middlewareError code message

/-- `error instanceof OatiError ? error.code : "MIDDLEWARE_BAD_REQUEST"`. -/
def problemCode : JsError → String
  | .oatiError code _ => code.name
  | _ => "MIDDLEWARE_BAD_REQUEST"

/-- `problem`. -/
def problem (engine : Engine) (error : JsError) (status : ℕ) (title : String)
    (correlationId transactionId : Option String) : Except JsError HttpResponse := do
  let headers : Headers := [("content-type", "application/problem+json")]
  let headers ← headers.setSome OATI_HTTP_HEADERS.correlationId correlationId
  let headers ← headers.setSome OATI_HTTP_HEADERS.transactionId transactionId
  newResponse
    { status, headers
      body := some (stringify engine (.obj
        [("type", .str "https://specs.intelliger.ai/oati/problems/middleware"),
          ("title", .str title), ("status", .num status), ("code", .str (problemCode error))])) }

/-! ### Identifiers -/

/-- The text of a version 4 UUID over random bytes. -/
def uuidText (bytes : Vector UInt8 16) : String :=
  let bytes := bytes.set 6 ((bytes.get 6 &&& 0x0f) ||| 0x40)
  let bytes := bytes.set 8 ((bytes.get 8 &&& 0x3f) ||| 0x80)
  let value := (hex bytes.toList).toList
  let slice (start stop : ℕ) := String.ofList ((value.take stop).drop start)
  slice 0 8 ++ "-" ++ slice 8 12 ++ "-" ++ slice 12 16 ++ "-" ++ slice 16 20 ++ "-" ++ slice 20 32

/-- `safeUuid`. -/
def safeUuid : MiddlewareProg String := do
  match ← Prog.perform (A := MiddlewareAnswer) .randomUUID with
  | some uuid => pure uuid
  | none =>
    match ← Prog.perform (A := MiddlewareAnswer) .getRandomValues with
    | some bytes => pure (uuidText bytes)
    | none => Prog.throw (middlewareError .middlewareUnavailable
        "Web Crypto random generation is required")

/-- `/^[A-Za-z0-9._:-]{1,128}$/`. -/
def isCorrelationId (value : String) : Bool :=
  let cs := value.toList
  !cs.isEmpty && cs.length ≤ 128
    && cs.all fun c => c.isAlphanum || c == '.' || c == '_' || c == ':' || c == '-'

/-- `generator?.() ?? safeUuid()`. -/
def generatedCorrelation (options : OatiMiddlewareOptions) : MiddlewareProg String :=
  if options.hasGenerateCorrelationId then do
    match ← Prog.perform (A := MiddlewareAnswer) .generateCorrelationId with
    | some generated => pure generated
    | none => safeUuid
  else safeUuid

/-- `correlation`. -/
def correlation (options : OatiMiddlewareOptions) (value : Option String) :
    MiddlewareProg String :=
  match value with
  | some value =>
    if isCorrelationId value then pure value
    else Prog.throw (middlewareError .middlewareBadRequest "Invalid correlation ID")
  | none => do
    let generated ← generatedCorrelation options
    if isCorrelationId generated then pure generated
    else Prog.throw (middlewareError .middlewareUnavailable "Generated correlation ID is invalid")

/-! ### Extraction -/

/-- `decodeHeader`. -/
def decodeHeader (engine : Engine) (value : Option String) (name : String) (maxBytes : ℚ) :
    Except JsError Value :=
  match nonEmpty value with
  | none => .error (middlewareError .middlewareBadRequest (name ++ " is required"))
  | some value =>
    if maxBytes < (utf16 value).length then
      .error (middlewareError .middlewareBadRequest (name ++ " exceeds the size limit"))
    else
      match (do jsonParse engine (decodeText (← fromBase64url value.toList))) with
      | .ok document => .ok document
      | .error _ => .error (middlewareError .middlewareBadRequest
          (name ++ " is not valid base64url JSON"))

/-- `extractOatiHeaders`. -/
def extractOatiHeaders (engine : Engine) (request : HttpRequest) (maxHeaderBytes : Option ℚ) :
    Except JsError ExtractedValues := do
  let maxBytes := maxHeaderBytes.getD 65536
  let decode (name : String) := decodeHeader engine (request.headers.get name) name maxBytes
  let envelope ← decode OATI_HTTP_HEADERS.envelope
  let mandate ← decode OATI_HTTP_HEADERS.mandate
  match nonEmpty (request.headers.get OATI_HTTP_HEADERS.parentMandate) with
  | none => return { envelope := some envelope, mandate := some mandate }
  | some _ =>
    let parent ← decode OATI_HTTP_HEADERS.parentMandate
    return { envelope := some envelope, mandate := some mandate, parentMandate := some parent }

/-- The error of a value that does not conform. -/
def schemaError (name : String) : JsError :=
  .oatiError .validationFailed ("Value does not satisfy the " ++ name ++ " schema")

/-- `assertSchema`. -/
def assertSchema {α : Type} (name : String) (schema : Record → Option α) (value : Option Value) :
    Except JsError (Conforming α) :=
  match value.bind Json.members? with
  | some members => match schema members with
    | some view => .ok ⟨members, view⟩
    | none => .error (schemaError name)
  | none => .error (schemaError name)

/-- The validation of what was extracted. -/
def conforming (schemas : Schemas) (values : ExtractedValues) :
    Except JsError ExtractedOatiRequest := do
  let mandate ← assertSchema "mandate" schemas.mandate values.mandate
  let envelope ← assertSchema "envelope" schemas.envelope values.envelope
  if truthy values.parentMandate then
    let parent ← assertSchema "mandate" schemas.mandate values.parentMandate
    return { envelope, mandate, parentMandate := some parent }
  else return { envelope, mandate }

/-- The declared transaction, if there is one, is the envelope's. -/
def checkTransaction (request : HttpRequest) (extracted : ExtractedOatiRequest) :
    Except JsError Unit :=
  match nonEmpty (request.headers.get OATI_HTTP_HEADERS.transactionId) with
  | none => .ok ()
  | some declared =>
    if declared = extracted.envelope.view.id then .ok ()
    else .error (middlewareError .middlewareBadRequest
      "Transaction header does not match the Envelope")

/-- `options.extract ?? ((request) => extractOatiHeaders(request, options.maxHeaderBytes))`. -/
def extractValues (engine : Engine) (options : OatiMiddlewareOptions) (request : HttpRequest) :
    MiddlewareProg ExtractedValues :=
  if options.hasExtract then Prog.perform (A := MiddlewareAnswer) .extract
  else Prog.ofExcept (extractOatiHeaders engine request options.maxHeaderBytes)

/-- The first `try` block, after the correlation. -/
def extractRequest (engine : Engine) (schemas : Schemas) (options : OatiMiddlewareOptions)
    (request : HttpRequest) : MiddlewareProg ExtractedOatiRequest := do
  let values ← extractValues engine options request
  let extracted ← Prog.ofExcept (conforming schemas values)
  Prog.ofExcept (checkTransaction request extracted)
  pure extracted

/-- The first `catch` block. -/
def invalidRequest (engine : Engine) (error : JsError) (correlationId : Option String) :
    Except JsError HttpResponse :=
  let error := safeError error .middlewareBadRequest "OATI headers or objects are invalid"
  if problemCode error = OatiErrorCode.middlewareUnavailable.name then
    problem engine error 503 "OATI middleware unavailable" correlationId none
  else problem engine error 400 "Invalid OATI request" correlationId none

/-! ### Receipts -/

/-- `deniedEvaluation`. -/
def deniedEvaluation (extracted : ExtractedOatiRequest) (reasonCodes : List String) :
    EvaluationResult :=
  { decision := .deny, mandateId := extracted.mandate.view.id
    transactionId := extracted.envelope.view.id
    reasonCodes := sortStrings (reasonCodes.foldl Reasons.add []), nextUsage := {} }

/-- `middlewareContext`. -/
def middlewareContext (request : HttpRequest) (extracted : ExtractedOatiRequest)
    (correlationId : String) (envelopeVerification mandateVerification : VerificationResult)
    (parentMandateVerification : Option VerificationResult) (evaluation : EvaluationResult) :
    OatiMiddlewareContext :=
  { request, envelope := extracted.envelope, mandate := extracted.mandate
    parentMandate := extracted.parentMandate, correlationId
    transactionId := extracted.envelope.view.id, envelopeVerification, mandateVerification
    parentMandateVerification, evaluation }

/-- `failedVerification`. -/
def failedVerification (code : String) : VerificationResult :=
  { verified := false, issues := [⟨.proofMissing, code⟩] }

/-- `...(value ? { [key]: value } : {})`. -/
def optionalMember (key : String) (value : Option String) : Record :=
  match nonEmpty value with
  | some value => [(key, .str value)]
  | none => []

/-- The draft of `issueReceipt`. -/
def receiptDraft (options : OatiMiddlewareOptions) (context : OatiMiddlewareContext)
    (outcome : ReceiptOutcome) (id occurredAt : String) : ReceiptDraft :=
  let envelope := context.envelope.view
  [("id", .str id), ("transaction_id", .str context.transactionId),
    ("agent_id", .str envelope.agentId), ("organisation_id", .str envelope.organisationId),
    ("mandate_id", .str context.mandate.view.id),
    ("decision", .str context.evaluation.decision.name), ("outcome", .str outcome.name),
    ("occurred_at", .str occurredAt), ("issuer", .str options.receiptIssuer),
    ("policy_digest",
      .str (options.policyDigest.getD "sha256:oati-reference-evaluator-v1"))]
  ++ optionalMember "request_digest" envelope.requestDigest
  ++ optionalMember "commercial_profile" envelope.commercialProfile
  ++ [("extensions", .obj
      ([("correlation_id", .str context.correlationId),
        ("reason_codes", .arr (context.evaluation.reasonCodes.map .str))]
      ++ optionalMember "counterparty_organisation_id" envelope.counterparty))]

/-- The signed receipt says what the draft says. -/
def checkReceipt (engine : Engine) (draft : ReceiptDraft) (receipt : ActionReceipt) :
    Except JsError Unit := do
  let unsignedReceipt := receipt.members.filter fun m => m.1 != "proof"
  let signed ← canonicalJson engine (.obj unsignedReceipt)
  let drafted ← canonicalJson engine (.obj (("oati_version", .str "1.0") :: draft))
  if signed = drafted then return ()
  else throw (middlewareError .middlewareUnavailable
    "Signed Receipt does not match the authorized transaction")

/-- `options.generateReceiptId?.(transactionId)`. -/
def generatedReceiptId (options : OatiMiddlewareOptions) (transactionId : String) :
    MiddlewareProg (Option String) :=
  if options.hasGenerateReceiptId then
    Prog.perform (A := MiddlewareAnswer) (.generateReceiptId transactionId)
  else pure none

/-- `options.generateReceiptId?.(transactionId) ?? "oati:receipt:" + safeUuid()`. -/
def receiptId (options : OatiMiddlewareOptions) (transactionId : String) :
    MiddlewareProg String := do
  match ← generatedReceiptId options transactionId with
  | some id => pure id
  | none => do
    let uuid ← safeUuid
    pure ("oati:receipt:" ++ uuid)

/-- `await options.emitReceipt?.(receipt, context)`. -/
def emitReceipt (options : OatiMiddlewareOptions) (receipt : ActionReceipt)
    (context : OatiMiddlewareContext) : MiddlewareProg Unit :=
  if options.hasEmitReceipt then
    Prog.perform (A := MiddlewareAnswer) (.emitReceipt receipt context)
  else pure ()

/-- `issueReceipt`. -/
def issueReceipt (engine : Engine) (schemas : Schemas) (options : OatiMiddlewareOptions)
    (context : OatiMiddlewareContext) (outcome : ReceiptOutcome) (time : Option ℤ) :
    MiddlewareProg ActionReceipt := do
  let id ← receiptId options context.transactionId
  let occurredAt ← Prog.ofExcept (toISOString time)
  let draft := receiptDraft options context outcome id occurredAt
  let signed ← Prog.perform (A := MiddlewareAnswer) (.signReceipt draft context)
  let receipt ← Prog.ofExcept (assertSchema "receipt" schemas.receipt (some signed))
  Prog.ofExcept (checkReceipt engine draft receipt)
  emitReceipt options receipt context
  pure receipt

/-- `encodeOatiHeader`. -/
def encodeOatiHeader (engine : Engine) (value : Value) : Except JsError String := do
  return String.ofList (Base64.encode (encodeText (← canonicalJson engine value)))

/-- The longest encoded receipt that is attached. -/
def maxReceiptHeader : ℕ := 8192

/-- `if (encoded.length <= 8_192) headers.set(OATI_HTTP_HEADERS.receipt, encoded)`. -/
def attachEncoded (headers : Headers) (encoded : String) : Except JsError Headers :=
  if (utf16 encoded).length ≤ maxReceiptHeader then headers.set OATI_HTTP_HEADERS.receipt encoded
  else .ok headers

/-- `attachReceipt`. -/
def attachReceipt (engine : Engine) (response : HttpResponse) (receipt : ActionReceipt)
    (context : OatiMiddlewareContext) : Except JsError HttpResponse := do
  let headers ← response.headers.set OATI_HTTP_HEADERS.transactionId context.transactionId
  let headers ← headers.set OATI_HTTP_HEADERS.correlationId context.correlationId
  let encoded ← encodeOatiHeader engine (.obj receipt.members)
  let headers ← attachEncoded headers encoded
  let headers ← headers.set OATI_HTTP_HEADERS.receiptId receipt.view
  newResponse { response with headers }

/-- The title of a refusal. -/
def refusalTitle (status : ℕ) : String :=
  if status = 401 then "OATI authentication failed"
  else if status = 409 then "OATI usage conflict"
  else if status = 503 then "OATI authority unavailable"
  else "OATI authority denied"

/-- `receiptResponse`. -/
def receiptResponse (engine : Engine) (schemas : Schemas) (options : OatiMiddlewareOptions)
    (context : OatiMiddlewareContext) (outcome : ReceiptOutcome) (status : ℕ) (time : Option ℤ)
    (code : OatiErrorCode := .middlewareForbidden) : MiddlewareProg HttpResponse := do
  let receipt ← issueReceipt engine schemas options context outcome time
  let body := stringify engine (.obj
    [("type", .str "https://specs.intelliger.ai/oati/problems/authorization"),
      ("title", .str (refusalTitle status)), ("status", .num status), ("code", .str code.name),
      ("reason_codes", .arr (context.evaluation.reasonCodes.map .str)),
      ("receipt", .obj receipt.members)])
  let response ← Prog.ofExcept (newResponse
    { status, headers := [("content-type", "application/problem+json")], body := some body })
  Prog.ofExcept (attachReceipt engine response receipt context)

/-- `deniedVerification`. -/
def deniedVerification (engine : Engine) (schemas : Schemas) (options : OatiMiddlewareOptions)
    (request : HttpRequest) (extracted : ExtractedOatiRequest) (correlationId : String)
    (verification : VerificationResult) (kind : OatiDocumentKind) (time : Option ℤ)
    (knownMandate knownParent : Option VerificationResult := none) :
    MiddlewareProg HttpResponse := do
  let replay := verification.issues.any fun issue => issue.code == .replayDetected
  let evaluation := deniedEvaluation extracted
    (verification.issues.map fun issue => kind.upperName ++ "_" ++ issue.code.name)
  let context := middlewareContext request extracted correlationId
    (if kind = .envelope then verification else failedVerification "ENVELOPE_NOT_VERIFIED")
    (if kind = .mandate then verification
      else knownMandate.getD (failedVerification "MANDATE_NOT_VERIFIED"))
    (if kind = .parentMandate then some verification else knownParent) evaluation
  match ← (receiptResponse engine schemas options context .denied 401 time
      (if replay then .middlewareReplay else .middlewareUnauthenticated)).attempt with
  | .ok response => pure response
  | .error _ => Prog.ofExcept (problem engine
      (middlewareError .middlewareUnavailable "Receipt generation failed") 503
      "Receipt generation unavailable" (some correlationId) (some extracted.envelope.view.id))

/-! ### Verification and binding -/

/-- `Number.MAX_SAFE_INTEGER`, for a policy without a maximal age. -/
def reusableDocumentPolicy (policy : VerificationPolicy) : VerificationPolicy :=
  { policy with maxProofAgeMs := some (policy.maxProofAgeMs.getD Double.maxSafeInteger) }

/-- The replay cache of `reusableDocumentPolicy` accepts everything. -/
def reusableCalls (kind : OatiDocumentKind) : ∀ c, MiddlewareProg (TrustAnswer c)
  | .checkAndStore _ _ _ => pure true
  | c => Prog.perform (A := MiddlewareAnswer) (.trust kind c)

/-- The calls of the verification of an envelope are the middleware's. -/
def envelopeCalls (c : TrustCall) : MiddlewareProg (TrustAnswer c) :=
  Prog.perform (A := MiddlewareAnswer) (.trust .envelope c)

/-- The verification of a mandate. -/
def verifyReusable (engine : Engine) (kind : OatiDocumentKind) (document : Record) :
    MiddlewareProg VerificationResult := do
  let policy ← Prog.perform (A := MiddlewareAnswer) (.verificationPolicy kind)
  (verifyDocument engine document (reusableDocumentPolicy policy)).interpret (reusableCalls kind)

/-- The verification of the envelope. -/
def verifyEnvelope (engine : Engine) (document : Record) : MiddlewareProg VerificationResult := do
  let policy ← Prog.perform (A := MiddlewareAnswer) (.verificationPolicy .envelope)
  (verifyDocument engine document policy).interpret envelopeCalls

/-- `sha256`. -/
def sha256 (value : List UInt8) : MiddlewareProg (List UInt8) :=
  Prog.perform (A := MiddlewareAnswer) (.digest value)

/-- The first condition of `httpRequestDigest`. -/
def checkMaxBodyBytes (maxBodyBytes : ℚ) : Except JsError Unit :=
  if maxBodyBytes.den ≠ 1 ∨ maxBodyBytes < 0 then
    .error (.rangeError "maxBodyBytes must be a non-negative integer")
  else .ok ()

/-- The second condition of `httpRequestDigest`. -/
def checkBodyLength (body : List UInt8) (maxBodyBytes : ℚ) : Except JsError Unit :=
  if maxBodyBytes < body.length then
    .error (middlewareError .middlewareBadRequest
      "HTTP request body exceeds the verification limit")
  else .ok ()

/-- What the digest of a request binds. -/
def requestBinding (request : HttpRequest) (bodyHash : List UInt8) : Value :=
  .obj [("method", .str (String.ofList (request.method.toList.map Char.toUpper))),
    ("target", .str request.target), ("body_sha256", .str ("sha256:" ++ hex bodyHash))]

/-- `httpRequestDigest`. -/
def httpRequestDigest (engine : Engine) (request : HttpRequest) (maxBodyBytes : Option ℚ) :
    MiddlewareProg String := do
  let maxBodyBytes := maxBodyBytes.getD 1048576
  Prog.ofExcept (checkMaxBodyBytes maxBodyBytes)
  let body ← Prog.perform (A := MiddlewareAnswer) .readBody
  Prog.ofExcept (checkBodyLength body maxBodyBytes)
  let bodyHash ← sha256 body
  let binding ← Prog.ofExcept (canonicalJson engine (requestBinding request bodyHash))
  let hash ← sha256 (encodeText binding)
  pure ("sha256:" ++ hex hash)

/-- `requiresPersistentUsage`. -/
def requiresPersistentUsage (mandate : AgentMandate) : Bool :=
  mandate.status == .consumed || mandate.limits.isSome || mandate.profile.isSome

/-- `compactExtensions`: what is missing stays missing. -/
def compactExtensions (value : OatiEvaluationExtensions) : OatiEvaluationExtensions :=
  { delegationDepth := value.delegationDepth, consumption := value.consumption
    commerce := value.commerce, rwa := value.rwa }

/-! ### The handling of a request -/

/-- What the stages of the second `try` block share. -/
structure Handling where
  engine : Engine
  schemas : Schemas
  options : OatiMiddlewareOptions
  request : HttpRequest
  extracted : ExtractedOatiRequest
  correlationId : String

namespace Handling

/-- `await receiptResponse(options, context, outcome, status, now(), code)`. -/
def refuse (h : Handling) (context : OatiMiddlewareContext) (outcome : ReceiptOutcome)
    (status : ℕ) (code : OatiErrorCode := .middlewareForbidden) : MiddlewareProg HttpResponse := do
  let time ← Prog.perform (A := MiddlewareAnswer) .now
  receiptResponse h.engine h.schemas h.options context outcome status time code

/-- `await deniedVerification(options, request, …, now(), knownMandate, knownParent)`. -/
def denyVerification (h : Handling) (verification : VerificationResult) (kind : OatiDocumentKind)
    (knownMandate knownParent : Option VerificationResult := none) :
    MiddlewareProg HttpResponse := do
  let time ← Prog.perform (A := MiddlewareAnswer) .now
  deniedVerification h.engine h.schemas h.options h.request h.extracted h.correlationId
    verification kind time knownMandate knownParent

/-- The three verifications of a request. -/
structure Verifications where
  mandate : VerificationResult
  parentMandate : Option VerificationResult
  envelope : VerificationResult

/-- The context of a request that was verified. -/
def context (h : Handling) (v : Verifications) (evaluation : EvaluationResult) :
    OatiMiddlewareContext :=
  middlewareContext h.request h.extracted h.correlationId v.envelope v.mandate v.parentMandate
    evaluation

/-- The outcome a response of the handler is recorded with. -/
def handlerOutcome (h : Handling) (downstream : HttpResponse) : ReceiptOutcome :=
  if downstream.status < 400 then h.options.allowedReceiptOutcome.getD .succeeded
  else if downstream.status = 403 then .denied
  else .failed

/-- The handler is invoked, and its response gets a receipt. -/
def invoke (h : Handling) (context : OatiMiddlewareContext) : MiddlewareProg HttpResponse := do
  match ← (Prog.perform (A := MiddlewareAnswer) (.next context)).attempt with
  | .error _ => h.refuse context .failed 500
  | .ok downstream =>
    let time ← Prog.perform (A := MiddlewareAnswer) .now
    let receipt ← issueReceipt h.engine h.schemas h.options context
      (h.handlerOutcome downstream) time
    Prog.ofExcept (attachReceipt h.engine downstream receipt context)

/-- The usage is committed, if there is a store, and the handler invoked. -/
def commit (h : Handling) (context : OatiMiddlewareContext) (previous : LoadedUsage) :
    MiddlewareProg HttpResponse :=
  if h.options.hasUsageStore then do
    let stored ← Prog.perform (A := MiddlewareAnswer)
      (.compareAndSet h.extracted.mandate.view.id previous context.evaluation.nextUsage)
    if stored then h.invoke context
    else
      let conflict := { context with evaluation := deniedEvaluation h.extracted ["USAGE_CONFLICT"] }
      h.refuse conflict .denied 409 .middlewareUsageConflict
  else h.invoke context

/-- The request to the evaluator. -/
def evaluationRequest (h : Handling) (extensions : OatiEvaluationExtensions)
    (usage : UsageSnapshot) (evaluationTime : String) : EvaluationRequest :=
  { evaluationTime, mandate := h.extracted.mandate.view
    parentMandate := h.extracted.parentMandate.map Conforming.view
    envelope := h.extracted.envelope.view, usage, delegationDepth := extensions.delegationDepth
    consumption := extensions.consumption, commerce := extensions.commerce
    rwa := extensions.rwa }

/-- The evaluation, and what follows it. -/
def evaluate (h : Handling) (v : Verifications) (extensions : OatiEvaluationExtensions)
    (previous : LoadedUsage) : MiddlewareProg HttpResponse := do
  let time ← Prog.perform (A := MiddlewareAnswer) .now
  let evaluationTime ← Prog.ofExcept (toISOString time)
  let evaluation ← Prog.ofExcept (evaluateAuthority h.engine
    (h.evaluationRequest extensions previous.snapshot evaluationTime))
  let context := h.context v evaluation
  if evaluation.decision ≠ .allow then h.refuse context .denied 403
  else h.commit context previous

/-- `await options.evaluationExtensions?.(request, extracted) ?? {}`. -/
def suppliedExtensions (h : Handling) : MiddlewareProg OatiEvaluationExtensions :=
  if h.options.hasEvaluationExtensions then do
    let supplied ← Prog.perform (A := MiddlewareAnswer) (.evaluationExtensions h.extracted)
    pure (supplied.getD {})
  else pure {}

/-- `options.usageStore ? await options.usageStore.load(extracted.mandate.id) : {}`. -/
def previousUsage (h : Handling) : MiddlewareProg LoadedUsage :=
  if h.options.hasUsageStore then
    Prog.perform (A := MiddlewareAnswer) (.load h.extracted.mandate.view.id)
  else pure ⟨0, {}⟩

/-- The extensions and the usage are read, and the request evaluated. -/
def authorize (h : Handling) (v : Verifications) : MiddlewareProg HttpResponse := do
  let supplied ← h.suppliedExtensions
  let previous ← h.previousUsage
  if !h.options.hasUsageStore && requiresPersistentUsage h.extracted.mandate.view then
    h.refuse (h.context v (deniedEvaluation h.extracted ["USAGE_STORE_REQUIRED"])) .denied 503
      .middlewareUnavailable
  else h.evaluate v (compactExtensions supplied) previous

/-- The reason for which a digest is refused. -/
def digestReason (expected : Option String) : String :=
  if (nonEmpty expected).isSome then "HTTP_REQUEST_DIGEST_MISMATCH"
  else "HTTP_REQUEST_DIGEST_REQUIRED"

/-- The envelope is bound to the request, unless the options say otherwise. -/
def bindRequest (h : Handling) (v : Verifications) : MiddlewareProg HttpResponse :=
  if h.options.requireRequestDigest ≠ some false then do
    let expected := h.extracted.envelope.view.requestDigest
    let actual ← httpRequestDigest h.engine h.request h.options.maxBodyBytes
    if nonEmpty expected ≠ some actual then
      h.refuse (h.context v (deniedEvaluation h.extracted [digestReason expected])) .denied 401
        .middlewareUnauthenticated
    else h.authorize v
  else h.authorize v

/-- The envelope is verified. -/
def checkEnvelope (h : Handling) (mandate : VerificationResult)
    (parentMandate : Option VerificationResult) : MiddlewareProg HttpResponse := do
  let envelope ← verifyEnvelope h.engine h.extracted.envelope.members
  if envelope.verified then h.bindRequest ⟨mandate, parentMandate, envelope⟩
  else h.denyVerification envelope .envelope (some mandate) parentMandate

/-- The parent mandate, if there is one, is verified. -/
def checkParent (h : Handling) (mandate : VerificationResult) : MiddlewareProg HttpResponse :=
  match h.extracted.parentMandate with
  | none => h.checkEnvelope mandate none
  | some parent => do
    let parentMandate ← verifyReusable h.engine .parentMandate parent.members
    if parentMandate.verified then h.checkEnvelope mandate (some parentMandate)
    else h.denyVerification parentMandate .parentMandate (some mandate)

/-- The second `try` block. -/
def handle (h : Handling) : MiddlewareProg HttpResponse :=
  if h.correlationId = "" then
    Prog.throw (middlewareError .middlewareUnavailable "Correlation ID generation failed")
  else do
    let mandate ← verifyReusable h.engine .mandate h.extracted.mandate.members
    if mandate.verified then h.checkParent mandate
    else h.denyVerification mandate .mandate

/-- The second `catch` block. -/
def fail (h : Handling) (error : JsError) : Except JsError HttpResponse :=
  let replay := match error with
    | .oatiError .middlewareReplay _ => true
    | _ => false
  let error := safeError error .middlewareUnavailable "A middleware dependency failed"
  problem h.engine error (if replay then 401 else 503)
    (if replay then "Replay rejected" else "OATI middleware unavailable")
    (some h.correlationId) (some h.extracted.envelope.view.id)

end Handling

/-- The middleware once a request is extracted. -/
def handleExtracted (h : Handling) : MiddlewareProg HttpResponse := do
  match ← h.handle.attempt with
  | .ok response => pure response
  | .error error => Prog.ofExcept (h.fail error)

/-- The middleware once a request is correlated. -/
def handleCorrelated (engine : Engine) (schemas : Schemas) (options : OatiMiddlewareOptions)
    (request : HttpRequest) (correlationId : String) : MiddlewareProg HttpResponse := do
  match ← (extractRequest engine schemas options request).attempt with
  | .ok extracted =>
    handleExtracted ⟨engine, schemas, options, request, extracted, correlationId⟩
  | .error error => Prog.ofExcept (invalidRequest engine error (some correlationId))

/-- The function that `createOatiMiddleware` returns. -/
def handleRequest (engine : Engine) (schemas : Schemas) (options : OatiMiddlewareOptions)
    (request : HttpRequest) : MiddlewareProg HttpResponse := do
  match ← (correlation options (request.headers.get OATI_HTTP_HEADERS.correlationId)).attempt with
  | .ok correlationId => handleCorrelated engine schemas options request correlationId
  | .error error => Prog.ofExcept (invalidRequest engine error none)

/-- `createOatiMiddleware`. -/
def createOatiMiddleware (engine : Engine) (schemas : Schemas) (options : OatiMiddlewareOptions) :
    Except JsError (HttpRequest → MiddlewareProg HttpResponse) :=
  if options.receiptIssuer.toList.all isTrimmed then
    .error (.typeError "receiptIssuer is required")
  else .ok (handleRequest engine schemas options)

end Oati.TypeScript

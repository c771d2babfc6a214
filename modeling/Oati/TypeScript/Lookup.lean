import Oati.Library.InsertionMap
import Oati.TypeScript.Http

/-!
# The lookup client of the TypeScript SDK

`lookup.ts`, function by function, as far as `OatiLookupClient` looks up single records and
discovers those of an organisation. A lookup is a program over the calls of `LookupCall`: the map
of cache entries, the Fetch API, the clock, the abort signals and the timer are its environment. What runs without an `await` in between (the
read of the cache with its touch, a store, a clear) is one call.

The options of a client are the fields that its constructor has checked. A request is the parts
its URL is made of. Bodies are what the stream of a response yields. A thrown value that is no
`OatiLookupError` is only told apart from one.

Records carry the number of the response that brought them, which tells two responses with the
same body apart; no function reads it.
-/

namespace Oati.TypeScript

/-! ### Types -/

/-- `OATI_RECORD_TYPES`. -/
inductive OatiRecordType where
  | organisation
  | agent
  | passport
  | mandate
  | receipt
  | issuer
  | key
  | revocation
  | service
  | profile
  deriving DecidableEq, Repr

def OatiRecordType.name : OatiRecordType → String
  | organisation => "organisation"
  | agent => "agent"
  | passport => "passport"
  | mandate => "mandate"
  | receipt => "receipt"
  | issuer => "issuer"
  | key => "key"
  | revocation => "revocation"
  | service => "service"
  | profile => "profile"

def OATI_RECORD_TYPES : List OatiRecordType :=
  [.organisation, .agent, .passport, .mandate, .receipt, .issuer, .key, .revocation, .service,
    .profile]

inductive LookupSelector where
  | id
  | target
  deriving DecidableEq, Repr

def LookupSelector.name : LookupSelector → String
  | id => "id"
  | target => "target"

/-- What is looked up: `type`, `selector` and `value`. -/
structure LookupKey where
  type : OatiRecordType
  selector : LookupSelector
  value : String
  deriving DecidableEq, Repr

structure RateLimitInfo where
  limit : Option ℚ := none
  remaining : Option ℚ := none
  resetAt : Option String := none
  retryAfter : Option ℚ := none
  deriving DecidableEq, Repr

/-- `{ ...left, ...right }`. -/
def RateLimitInfo.merge (left right : RateLimitInfo) : RateLimitInfo where
  limit := right.limit <|> left.limit
  remaining := right.remaining <|> left.remaining
  resetAt := right.resetAt <|> left.resetAt
  retryAfter := right.retryAfter <|> left.retryAfter

inductive LookupCacheState where
  | hit
  | miss
  | revalidated
  deriving DecidableEq, Repr

/-- `OatiLookupError`, without its cause and details. -/
structure OatiLookupError where
  code : OatiErrorCode
  message : String
  status : Option ℕ := none
  retryAfter : Option ℚ := none
  rateLimit : Option RateLimitInfo := none
  cache : Option LookupCacheState := none
  deriving DecidableEq, Repr

/-- A value that a lookup throws. -/
inductive LookupThrown where
  | lookup (error : OatiLookupError)
  | other (error : JsError)
  deriving DecidableEq, Repr, Inhabited

structure LookupRetryOptions where
  maxRetries : ℕ
  baseDelayMs : ℚ
  maxDelayMs : ℚ

structure LookupCacheOptions where
  ttlMs : ℚ
  negativeTtlMs : ℚ
  maxEntries : ℕ

/-- The fields of an `OatiLookupClient` that do not change. -/
structure OatiLookupClient where
  resolverUrls : List String
  timeoutMs : ℚ
  maxResponseBytes : ℕ
  retries : LookupRetryOptions
  /-- `none` is `false`. -/
  cacheOptions : Option LookupCacheOptions

inductive LookupCacheMode where
  | default
  | reload
  | noStore
  deriving DecidableEq, Repr

structure LookupOptions where
  /-- Whether there is a signal. -/
  hasSignal : Bool := false
  cache : LookupCacheMode := .default
  timeoutMs : Option ℚ := none

/-- A record, and the number of the response that brought it. -/
structure FetchedRecord where
  record : Record
  response : ℕ

/-- `CacheEntry`. One without a record says `notFound`; an expiry of `none` is `NaN`. -/
structure CacheEntry where
  record : Option FetchedRecord
  expiresAt : Option ℚ
  etag : Option String := none
  resolverUrl : String
  rateLimit : RateLimitInfo

structure LookupResponse where
  record : FetchedRecord
  resolverUrl : String
  cache : LookupCacheState
  rateLimit : RateLimitInfo

/-- What `requestOnce` returns. -/
structure RequestedRecord where
  record : FetchedRecord
  expiresAt : Option ℚ
  etag : Option String
  rateLimit : RateLimitInfo
  revalidated : Bool
  cacheable : Bool

/-- The parts of a lookup request: its URL is made of the first two, and of the third its header
`If-None-Match`. -/
structure LookupRequest where
  resolverUrl : String
  key : LookupKey
  etag : Option String

/-- The head of a response, with its number. -/
structure ResolverResponse where
  status : ℕ
  headers : Headers
  number : ℕ

/-- The chunks of a body, and whether reading it failed after them. -/
structure BodyStream where
  chunks : List (List UInt8)
  failed : Bool

/-- What a lookup reads of the cache: an entry that is fresh at the time `now`, or any entry that
there is. -/
inductive CacheRead where
  | hit (entry : CacheEntry) (now : ℤ)
  | miss (cached : Option CacheEntry)

/-- `clearCache` and `clearRevocationTargetCache`, by their arguments. -/
inductive CacheClear where
  | all
  | byType (type : OatiRecordType)
  | byId (type : OatiRecordType) (id : String)
  | targets
  | byTarget (target : String)

inductive LookupCall where
  | readCache (cacheKey : String) (mode : LookupCacheMode)
  | store (cacheKey : String) (entry : CacheEntry)
  | clear (selection : CacheClear)
  | fetch (request : LookupRequest)
  | discover (resolverUrl organisationId : String)
  | readBody
  | now
  | aborted
  | timedOut
  | delay (ms : ℚ)

/-- What a call is answered with. A fetch that is rejected has no response, a response without a
body no stream; a delay says whether it was cancelled. -/
@[reducible] def LookupAnswer : LookupCall → Type
  | .readCache _ _ => CacheRead
  | .store _ _ => Unit
  | .clear _ => Unit
  | .fetch _ => Option ResolverResponse
  | .discover _ _ => Option ResolverResponse
  | .readBody => Option BodyStream
  | .now => ℤ
  | .aborted => Bool
  | .timedOut => Bool
  | .delay _ => Bool

abbrev LookupProg (α : Type) := Prog LookupAnswer LookupThrown α

/-! ### Errors -/

/-- `throw new OatiLookupError(code, message, options)`. -/
def lookupError {α : Type} (error : OatiLookupError) : LookupProg α := Prog.throw (.lookup error)

/-- `cancelled`. -/
def cancelled : OatiLookupError := { code := .lookupCancelled, message := "Lookup was cancelled" }

/-- `retryable`. -/
def retryable (error : OatiLookupError) : Bool :=
  [.lookupRateLimited, .lookupUnavailable, .lookupTimeout].contains error.code

/-- `responseError`. -/
def responseError (response : ResolverResponse) (rateLimit : RateLimitInfo) : OatiLookupError :=
  let error (code : OatiErrorCode) (message : String) : OatiLookupError :=
    { code, message, status := some response.status, retryAfter := rateLimit.retryAfter
      rateLimit := some rateLimit }
  if response.status = 400 then error .lookupBadRequest "Resolver rejected the lookup request"
  else if response.status = 404 then error .lookupNotFound "OATI record was not found"
  else if response.status = 429 then error .lookupRateLimited "OATI lookup rate limit exceeded"
  else error .lookupUnavailable ("OATI resolver returned HTTP " ++ Nat.repr response.status)

/-! ### Headers -/

/-- `Number(value)`. -/
def numberOf (engine : Engine) (value : String) : Option ℚ := toNumber engine (some (.str value))

/-- `integerHeader`. -/
def integerHeader (engine : Engine) (response : ResolverResponse) (name : String) : Option ℚ :=
  match response.headers.get name with
  | none => none
  | some raw =>
    if raw.toList.all isTrimmed then none
    else (numberOf engine raw).filter fun value => value.den == 1 && 0 ≤ value

/-- `retryAfter`. -/
def retryAfter (engine : Engine) (value : Option String) : LookupProg (Option ℚ) :=
  match value with
  | none => pure none
  | some value =>
    match (numberOf engine value).filter (0 ≤ ·), dateParse engine value with
    | some seconds, _ => pure (some seconds)
    | none, none => pure none
    | none, some date => do
      let now ← Prog.perform (A := LookupAnswer) .now
      pure (some (max 0 ⌈Double.round ((date - now : ℤ) / 1000)⌉))

/-- The time of `new Date(value)`. -/
def timeClip (value : ℚ) : Option ℤ :=
  if |value| ≤ 8640000000000000 then some (if 0 ≤ value then ⌊value⌋ else ⌈value⌉) else none

/-- The text of `X-RateLimit-Reset`, a number of seconds as a date. -/
def resetAt (engine : Engine) (reset : String) : Except JsError String :=
  if reset.toList.all Char.isDigit then
    toISOString ((numberOf engine reset).bind fun seconds => timeClip (Double.round (seconds * 1000)))
  else .ok reset

/-- `rateLimitInfo`. -/
def rateLimitInfo (engine : Engine) (response : ResolverResponse) : LookupProg RateLimitInfo := do
  let retry ← retryAfter engine (response.headers.get "Retry-After")
  let limit := integerHeader engine response "X-RateLimit-Limit"
  let remaining := integerHeader engine response "X-RateLimit-Remaining"
  match nonEmpty (response.headers.get "X-RateLimit-Reset") with
  | none => pure { limit, remaining, retryAfter := retry }
  | some reset =>
    match resetAt engine reset with
    | .ok text => pure { limit, remaining, resetAt := some text, retryAfter := retry }
    | .error error => Prog.throw (.other error)

/-- `\w`. -/
def isWordChar (c : Char) : Bool := c.isAlphanum || c == '_'

/-- `/\bno-store\b/i`, after a character that is one of a word or not. -/
def hasNoStore (afterWord : Bool) : List Char → Bool
  | [] => false
  | c :: rest =>
    !afterWord && ((c :: rest).take 8).map Char.toLower == "no-store".toList
        && !((c :: rest).drop 8).head?.any isWordChar
      || hasNoStore (isWordChar c) rest

/-- The header `Cache-Control`. -/
def cacheControl (response : ResolverResponse) : List Char :=
  ((response.headers.get "Cache-Control").getD "").toList

/-- `isCacheable`. -/
def isCacheable (response : ResolverResponse) : Bool := !hasNoStore false (cacheControl response)

/-- One directive of `(?:s-maxage|max-age)=(\d+)`, without case, up to its digits. -/
def maxAgeDigits (directive : List Char) : Option (List Char) :=
  let cs := directive.dropWhile isTrimmed
  ["s-maxage=", "max-age="].findSome? fun name =>
    if (cs.take name.length).map Char.toLower = name.toList then
      match (cs.drop name.length).takeWhile Char.isDigit with
      | [] => none
      | digits => some digits
    else none

/-- `/(?:^|,)\s*(?:s-maxage|max-age)=(\d+)/i`. -/
def maxAge (control : List Char) : Option String :=
  ((control.splitOn ',').findSome? maxAgeDigits).map String.ofList

/-- `expiry(response, cache, false)`. -/
def expiry (engine : Engine) (response : ResolverResponse) (cache : Option LookupCacheOptions) :
    LookupProg (Option ℚ) :=
  if hasNoStore false (cacheControl response) then pure (some 0)
  else
    match maxAge (cacheControl response) with
    | some seconds => do
      let now ← Prog.perform (A := LookupAnswer) .now
      pure ((numberOf engine seconds).map fun age => Double.round (now + Double.round (age * 1000)))
    | none =>
      match dateParse engine ((response.headers.get "Expires").getD "") with
      | some expires => pure (some expires)
      | none => do
        let now ← Prog.perform (A := LookupAnswer) .now
        pure (some (Double.round (now + (cache.map LookupCacheOptions.ttlMs).getD 0)))

/-! ### Bodies -/

/-- `new TextDecoder("utf-8", { fatal: true }).decode(encoded)`. Only a well-formed encoding is
the encoding of what it is decoded to. -/
def decodeFatal (encoded : List UInt8) : Option (List Char) :=
  if Utf8.encode (Utf8.decode encoded) = encoded then some (decodeText encoded) else none

/-- The text of a body as a value; an empty one is `undefined`. -/
def parsePayload (engine : Engine) (encoded : List UInt8) : Option (Option Value) :=
  match decodeFatal encoded with
  | none => none
  | some [] => some none
  | some text => (jsonParse engine text).toOption.map some

/-- The response is refused by its size. -/
def tooLarge (response : ResolverResponse) (maximum : ℕ) : OatiLookupError :=
  { code := .lookupInvalidResponse
    message := "Resolver response exceeds " ++ Nat.repr maximum ++ " bytes"
    status := some response.status }

/-- The body that a stream yields, as a value. -/
def collectPayload (engine : Engine) (response : ResolverResponse) (maximum : ℕ)
    (stream : BodyStream) : Except LookupThrown (Option Value) :=
  if maximum < stream.chunks.flatten.length then .error (.lookup (tooLarge response maximum))
  else if stream.failed then .error (.other .other)
  else
    match parsePayload engine stream.chunks.flatten with
    | some payload => .ok payload
    | none =>
      .error (.lookup
        { code := .lookupInvalidResponse, message := "Resolver returned non-JSON content"
          status := some response.status })

/-- `Number.isFinite(declared) && declared > maximum`. -/
def declaredTooLarge (engine : Engine) (response : ResolverResponse) (maximum : ℕ) : Bool :=
  let length := (response.headers.get "Content-Length").map Json.str
  (toNumber engine (some (length.getD .null))).any fun declared => decide ((maximum : ℚ) < declared)

/-- `readPayload`. -/
def readPayload (engine : Engine) (response : ResolverResponse) (maximum : ℕ) :
    LookupProg (Option Value) :=
  if declaredTooLarge engine response maximum then lookupError (tooLarge response maximum)
  else do
    match ← Prog.perform (A := LookupAnswer) .readBody with
    | none => pure none
    | some stream => Prog.ofExcept (collectPayload engine response maximum stream)

/-! ### Records -/

/-- `typeof value === "string" && value !== ""`. -/
def isText (value : Option Value) : Bool :=
  match value with
  | some (.str s) => s != ""
  | _ => false

/-- The conditions of `validTypedRecord` on a service or a profile. -/
def validDiscoveryRecord (engine : Engine) (item attributes : Record) : Bool :=
  match attributes.lookup "document" with
  | some (.str document) =>
    document != "" && match jsonParse engine document.toList with
      | .ok document =>
        -- reading a member of `null` throws
        !(document == .null) && strictEq (get (some document) "id") (item.lookup "id")
          && strictEq (get (some document) "organisation_id") (item.lookup "organisation_id")
      | .error _ => false
  | _ => false

/-- The conditions of `validTypedRecord` on a key. -/
def validKeyRecord (item attributes : Record) : Bool :=
  ["controller", "algorithm", "public_key_jwk"].all (fun field => isText (attributes.lookup field))
    && ["EdDSA", "ES256"].any (fun name => strictEq (attributes.lookup "algorithm") (some (.str name)))
    && isText (nullish (item.lookup "issued_at") (attributes.lookup "valid_from"))
    && isText (nullish (item.lookup "expires_at") (attributes.lookup "valid_until"))

/-- `item.type === type`. -/
def hasType (item : Record) (type : OatiRecordType) : Bool :=
  strictEq (item.lookup "type") (some (.str type.name))

/-- `validTypedRecord`. -/
def validTypedRecord (engine : Engine) (item attributes : Record) : Bool :=
  if hasType item .service || hasType item .profile then validDiscoveryRecord engine item attributes
  else if hasType item .key then validKeyRecord item attributes
  else true

/-- The conditions of `isPublicRecord` on an object and its attributes. -/
def validPublicRecord (engine : Engine) (item attributes : Record) : Bool :=
  OATI_RECORD_TYPES.any (hasType item)
    && ["id", "status", "issuer"].all (fun field => ((item.lookup field).bind Json.string?).isSome)
    && ["verified", "invalid", "unavailable", "unknown"].contains
      (optionText engine (item.lookup "proof_status"))
    && attributes.all (fun entry => entry.2.string?.isSome)
    && validTypedRecord engine item attributes

/-- `isPublicRecord`: the members of a value that is one. -/
def isPublicRecord (engine : Engine) (value : Option Value) : Option Record :=
  match value with
  | some (.obj item) =>
    match item.lookup "public_attributes" with
    | some (.obj attributes) => if validPublicRecord engine item attributes then some item else none
    | _ => none
  | _ => none

/-- `{ ...record, field: value }`, if there is a value. -/
def setSome (record : Record) (field : String) (value : Option Value) : Record :=
  match value with
  | some v => setMember record field v
  | none => record

/-- `normalizePublicRecord`. -/
def normalizePublicRecord (record : Record) : Record :=
  if hasType record .key then
    let attributes := record.lookup "public_attributes"
    setSome
      (setSome record "issued_at" (nullish (record.lookup "issued_at") (get attributes "valid_from")))
      "expires_at" (nullish (record.lookup "expires_at") (get attributes "valid_until"))
  else record

/-- `validRevocationStatus`. -/
def validRevocationStatus (value : Option Value) : Bool :=
  ["good", "suspended", "revoked", "unknown"].any fun status => strictEq value (some (.str status))

/-- `selectorMatches`. -/
def selectorMatches (key : LookupKey) (payload : Record) : Bool :=
  let attributes := payload.lookup "public_attributes"
  match key.selector with
  | .id => strictEq (payload.lookup "id") (some (.str key.value))
  | .target =>
    hasType payload .revocation && strictEq (get attributes "target") (some (.str key.value))
      && validRevocationStatus (get attributes "revocation_status")

/-! ### Requests -/

/-- The timeout of a request, which an option may set. -/
def requestTimeout (client : OatiLookupClient) (options : LookupOptions) : Except LookupThrown ℚ :=
  match options.timeoutMs with
  | none => .ok client.timeoutMs
  | some timeout =>
    if 0 < timeout then .ok timeout
    else .error (.other (.rangeError "timeoutMs must be positive"))

/-- The error of a response without a record that was asked for. -/
def mismatched (response : ResolverResponse) (rateLimit : RateLimitInfo) : OatiLookupError :=
  { code := .lookupInvalidResponse
    message := "Resolver returned an invalid or mismatched public record"
    status := some response.status, rateLimit := some rateLimit }

/-- The record of a payload, if it is the one that was asked for. -/
def acceptRecord (engine : Engine) (key : LookupKey) (response : ResolverResponse)
    (payload : Option Value) : Option FetchedRecord :=
  match isPublicRecord engine payload with
  | some record =>
    if selectorMatches key record && hasType record key.type then
      some ⟨normalizePublicRecord record, response.number⟩
    else none
  | none => none

/-- What `requestOnce` makes of a response. -/
def handleResponse (engine : Engine) (client : OatiLookupClient) (key : LookupKey)
    (cached : Option CacheEntry) (response : ResolverResponse) : LookupProg RequestedRecord := do
  let rateLimit ← rateLimitInfo engine response
  match if response.status = 304 then cached.bind fun entry => entry.record.map (entry, ·) else none with
  | some (entry, record) => do
    let expiresAt ← expiry engine response client.cacheOptions
    pure { record, expiresAt, etag := entry.etag, rateLimit := entry.rateLimit.merge rateLimit
           revalidated := true, cacheable := isCacheable response }
  | none => do
    let payload ← readPayload engine response client.maxResponseBytes
    if response.status < 200 ∨ 299 < response.status then
      lookupError (responseError response rateLimit)
    else
      match acceptRecord engine key response payload with
      | none => lookupError (mismatched response rateLimit)
      | some record => do
        let expiresAt ← expiry engine response client.cacheOptions
        pure { record, expiresAt, etag := response.headers.get "ETag", rateLimit
               revalidated := false, cacheable := isCacheable response }

/-- The `try` block of `requestOnce`. -/
def fetchRecord (engine : Engine) (client : OatiLookupClient) (resolverUrl : String)
    (key : LookupKey) (cached : Option CacheEntry) : LookupProg RequestedRecord := do
  let etag := nonEmpty (cached.bind CacheEntry.etag)
  match ← Prog.perform (A := LookupAnswer) (.fetch ⟨resolverUrl, key, etag⟩) with
  | none => Prog.throw (.other .other)
  | some response => handleResponse engine client key cached response

/-- Whether the signal of the options, if there is one, is aborted. -/
def signalAborted (options : LookupOptions) : LookupProg Bool :=
  if options.hasSignal then Prog.perform (A := LookupAnswer) .aborted else pure false

/-- The end of the `catch` blocks around a fetch, for an error that is none of their own. -/
def requestFailed {α : Type} (options : LookupOptions) (exceeded unavailable : String) :
    LookupProg α := do
  if ← signalAborted options then lookupError cancelled
  else if ← Prog.perform (A := LookupAnswer) .timedOut then
    lookupError { code := .lookupTimeout, message := exceeded }
  else lookupError { code := .lookupUnavailable, message := unavailable }

/-- `requestOnce`. -/
def requestOnce (engine : Engine) (client : OatiLookupClient) (resolverUrl : String)
    (key : LookupKey) (options : LookupOptions) (cached : Option CacheEntry) :
    LookupProg RequestedRecord := do
  let timeoutMs ← Prog.ofExcept (requestTimeout client options)
  match ← (fetchRecord engine client resolverUrl key cached).attempt with
  | .ok requested => pure requested
  | .error (.lookup error) => lookupError error
  | .error (.other _) =>
    requestFailed options ("Lookup exceeded " ++ numberText engine timeoutMs ++ "ms")
      "The OATI resolver is unavailable"

/-- `retryDelay`. -/
def retryDelay (error : OatiLookupError) (attempt : ℕ) (retry : LookupRetryOptions) : ℚ :=
  match error.retryAfter with
  | some seconds => min (Double.round (seconds * 1000)) retry.maxDelayMs
  | none => min (Double.round (retry.baseDelayMs * 2 ^ (attempt - 1))) retry.maxDelayMs

/-- `await delay(ms, options.signal)`. -/
def delay (ms : ℚ) : LookupProg Unit := do
  if ← Prog.perform (A := LookupAnswer) (.delay ms) then lookupError cancelled else pure ()

/-- The loop of `requestWithRetry`, with as many retries left. -/
def retryLoop (retry : LookupRetryOptions) (request : LookupProg RequestedRecord) :
    ℕ → LookupProg RequestedRecord
  | 0 => request
  | left + 1 => do
    match ← request.attempt with
    | .ok requested => pure requested
    | .error (.other error) => Prog.throw (.other error)
    | .error (.lookup error) =>
      if retryable error then do
        delay (retryDelay error (retry.maxRetries - left) retry)
        retryLoop retry request left
      else lookupError error

/-- `requestWithRetry`. -/
def requestWithRetry (engine : Engine) (client : OatiLookupClient) (resolverUrl : String)
    (key : LookupKey) (options : LookupOptions) (cached : Option CacheEntry) :
    LookupProg RequestedRecord :=
  retryLoop client.retries (requestOnce engine client resolverUrl key options cached)
    client.retries.maxRetries

/-! ### Lookups -/

/-- `cacheKey`. -/
def LookupKey.cacheKey (key : LookupKey) : String :=
  key.type.name ++ "\x00" ++ key.selector.name ++ "\x00" ++ key.value

/-- `validateInput`, for a type of the enumeration. -/
def validateInput (value : String) : Except LookupThrown Unit :=
  if value.toList.all isTrimmed then
    .error (.lookup { code := .lookupBadRequest
                      message := "A supported record type and non-empty id are required" })
  else .ok ()

/-- The lookup of one resolver, with the store that follows it. -/
def lookupResolver (engine : Engine) (client : OatiLookupClient) (key : LookupKey)
    (options : LookupOptions) (cached : Option CacheEntry) (resolverUrl : String) :
    LookupProg LookupResponse := do
  let reusable := if options.cache = .noStore then none
    else cached.filter fun entry => entry.resolverUrl == resolverUrl
  let requested ← requestWithRetry engine client resolverUrl key options reusable
  if options.cache ≠ .noStore ∧ requested.cacheable = true then
    Prog.perform (A := LookupAnswer) (.store key.cacheKey
      { record := some requested.record, expiresAt := requested.expiresAt
        etag := nonEmpty requested.etag, resolverUrl, rateLimit := requested.rateLimit })
  pure { record := requested.record, resolverUrl
         cache := if requested.revalidated then .revalidated else .miss
         rateLimit := requested.rateLimit }

/-- The store that follows a not-found answer. -/
def storeNotFound (client : OatiLookupClient) (key : LookupKey) (options : LookupOptions)
    (resolverUrl : String) (error : OatiLookupError) : LookupProg Unit :=
  match client.cacheOptions with
  | some cache =>
    if options.cache ≠ .noStore then do
      let now ← Prog.perform (A := LookupAnswer) .now
      Prog.perform (A := LookupAnswer) (.store key.cacheKey
        { record := none, expiresAt := some (Double.round (now + cache.negativeTtlMs)), resolverUrl
          rateLimit := error.rateLimit.getD {} })
    else pure ()
  | none => pure ()

/-- The error of a cache entry without a record. -/
def cachedNotFound : OatiLookupError :=
  { code := .lookupNotFound, message := "OATI record was not found", status := some 404
    cache := some .hit }

/-- The loop over the resolvers. -/
def lookupResolvers (engine : Engine) (client : OatiLookupClient) (key : LookupKey)
    (options : LookupOptions) (cached : Option CacheEntry) :
    Option OatiLookupError → List String → LookupProg LookupResponse
  | lastError, [] => lookupError (lastError.getD
      { code := .lookupUnavailable, message := "No OATI resolver was available" })
  | _, resolverUrl :: rest => do
    match ← (lookupResolver engine client key options cached resolverUrl).attempt with
    | .ok response => pure response
    | .error (.other error) => Prog.throw (.other error)
    | .error (.lookup error) =>
      if [.lookupCancelled, .lookupBadRequest, .lookupInvalidResponse].contains error.code then
        lookupError error
      else if error.code = .lookupNotFound then do
        storeNotFound client key options resolverUrl error
        lookupError error
      else lookupResolvers engine client key options cached (some error) rest

/-- `lookupSelectedDetailed`: `lookupDetailed` and `lookupRevocationByTargetDetailed` are its cases
of the two selectors. -/
def lookupSelectedDetailed (engine : Engine) (client : OatiLookupClient) (key : LookupKey)
    (options : LookupOptions) : LookupProg LookupResponse := do
  Prog.ofExcept (validateInput key.value)
  if ← signalAborted options then lookupError cancelled
  else
    match ← Prog.perform (A := LookupAnswer) (.readCache key.cacheKey options.cache) with
    | .hit entry _ =>
      match entry.record with
      | none => lookupError cachedNotFound
      | some record =>
        pure { record, resolverUrl := entry.resolverUrl, cache := .hit, rateLimit := entry.rateLimit }
    | .miss cached => lookupResolvers engine client key options cached none client.resolverUrls

end Oati.TypeScript

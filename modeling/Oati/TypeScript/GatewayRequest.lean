import Oati.Library.HttpUrlText
import Oati.TypeScript.CanonicalSpec
import Oati.TypeScript.GatewaySpec
import Oati.TypeScript.Numbers

/-!
# The request that the gateway verifies

The authorizer resolves the target it receives against its external origin, makes a request of it,
and the middleware hashes the target and the body of that request. A target that begins with two
slashes is resolved to another authority, and the body of a `GET` or `HEAD` request is not passed
on.

* `newRequest`: `new Request(new URL(target, externalOrigin), …)`, and the target that the digest
  reads off the request's URL.
* `run_httpRequestDigest`: what a digest hashes in the gateway.
* `digest_binds_iff`: the request that was received is what is hashed, exactly if its target keeps
  the origin and its body is passed on.
* `foreignTarget_hashed`: a target under which another origin is verified.
-/

namespace Oati.TypeScript

open Prog HttpUrl

/-! ### Requests -/

/-- The methods that a request cannot have. -/
def forbiddenMethods : List String := ["CONNECT", "TRACE", "TRACK"]

/-- The methods that are written in upper case. -/
def normalizedMethods : List String := ["DELETE", "GET", "HEAD", "OPTIONS", "POST", "PUT"]

/-- `method.toUpperCase()`. -/
def upperMethod (method : String) : String := String.ofList (method.toList.map Char.toUpper)

/-- A character of a method. -/
def isMethodChar (c : Char) : Bool :=
  c.isAlphanum || ['!', '#', '$', '%', '&', Char.ofNat 0x27, '*', '+', '-', '.', '^', '_',
    Char.ofNat 0x60, '|', '~'].contains c

/-- The method of a request that is made with `method`. -/
def requestMethod (method : String) : Except JsError String :=
  if method = "" ∨ method.toList.all isMethodChar = false
      ∨ forbiddenMethods.contains (upperMethod method) then
    .error (.typeError "The method is not a valid HTTP method.")
  else if normalizedMethods.contains (upperMethod method) then .ok (upperMethod method)
  else .ok method

variable {hosts : Hosts}

/-- `new URL(request.url)` and its pathname and search. -/
def digestTarget (hosts : Hosts) (url : List Char) : Except JsError String :=
  match parse hosts url with
  | some url => .ok (String.ofList (url.pathname ++ url.search))
  | none => .error (.typeError "Invalid URL")

/-- `new URL(target, externalOrigin)`. -/
def targetUrl (origin : Origin hosts) (target : String) : Except JsError (Url hosts) :=
  match resolve origin target.toList with
  | some url => .ok url
  | none => .error (.typeError "Invalid URL")

/-- `new Request(url, { method, headers })`, as the digest sees it. -/
def newRequest (origin : Origin hosts) (method target : String) (headers : Headers) :
    Except JsError HttpRequest := do
  let url ← targetUrl origin target
  if url.includesCredentials then
    .error (.typeError "Request cannot be constructed from a URL that includes credentials")
  else
    let method ← requestMethod method
    return { method, target := ← digestTarget hosts url.text, headers }

/-- The target keeps the origin: it does not begin with two slashes, or the origin's own authority
follows them and what is left of the target denotes the same path. -/
def KeepsTarget (origin : Origin hosts) (text : List Char) : Prop :=
  beginsWithAuthority text = true →
    ∃ url, authorityState hosts origin.scheme ((cleanTail text).dropWhile isSlash) = some url ∧
      url.origin = origin ∧ url.pathname ++ url.search =
        (urlAt origin (cleanTail text) [] []).pathname
          ++ (urlAt origin (cleanTail text) [] []).search

/-- The body is passed on. -/
def KeepsBody (method : String) (body : List UInt8) : Prop :=
  body = [] ∨ method ≠ "GET" ∧ method ≠ "HEAD"

instance (method : String) (body : List UInt8) : Decidable (KeepsBody method body) :=
  inferInstanceAs (Decidable (_ ∨ _))

theorem forwardedBody_eq_iff {request : IncomingMessage} {body : List UInt8} :
    Gateway.forwardedBody request body = body ↔ KeepsBody request.method body := by
  rw [Gateway.forwardedBody, KeepsBody]
  split_ifs with hmethod
  · constructor
    · intro h
      exact .inl h.symm
    · rintro (rfl | ⟨hget, hhead⟩)
      · rfl
      · exact absurd hmethod (by simp [hget, hhead])
  · exact iff_of_true rfl (.inr (not_or.mp hmethod))

/-- A request that was made, and the URL behind it. -/
theorem newRequest_eq_ok {origin : Origin hosts} {method : String} {text : List Char}
    {headers : Headers} {r : HttpRequest}
    (h : newRequest origin method (String.ofList ('/' :: text)) headers = .ok r) :
    ∃ url, resolve origin ('/' :: text) = some url ∧ requestMethod method = .ok r.method ∧
      r.target = String.ofList (url.pathname ++ url.search) := by
  simp only [newRequest, bind_eq_ok] at h
  obtain ⟨url, hurl, h⟩ := h
  split_ifs at h with hcredentials
  simp only [bind_eq_ok, pure_eq_ok] at h
  obtain ⟨normalized, hmethod, target, htarget, rfl⟩ := h
  rw [targetUrl, String.toList_ofList] at hurl
  rcases hresolve : resolve origin ('/' :: text) with _ | resolved
  · rw [hresolve] at hurl
    cases hurl
  · rw [hresolve] at hurl
    obtain rfl := Except.ok.inj hurl
    have hread := parse_text (wellFormed_of_resolve hresolve) (by simpa using hcredentials)
    rw [digestTarget, hread] at htarget
    exact ⟨resolved, rfl, hmethod, (Except.ok.inj htarget).symm⟩

/-! ### Digests -/

/-- The trace of a digest of these parts. -/
def Digests (engine : Engine) (request : HttpRequest) (body : List UInt8)
    (trace : List (Event GatewayAnswer JsError)) : Prop :=
  ∃ bodyHash binding hash,
    canonicalJson engine (requestBinding request bodyHash) = .ok binding ∧
      trace = [⟨.middleware (.digest body), .ok bodyHash⟩,
        ⟨.middleware (.digest (encodeText binding)), .ok hash⟩]

/-- The calls of a digest. -/
theorem httpRequestDigest_calls {engine : Engine} {request : HttpRequest} {maxBodyBytes : Option ℚ}
    {t : List (Event MiddlewareAnswer JsError)} {digest : String}
    (h : Run (httpRequestDigest engine request maxBodyBytes) t (.ok digest)) :
    ∃ body bodyHash binding hash,
      canonicalJson engine (requestBinding request bodyHash) = .ok binding ∧
        t = [⟨.readBody, .ok body⟩, ⟨.digest body, .ok bodyHash⟩,
          ⟨.digest (encodeText binding), .ok hash⟩] := by
  obtain ⟨_, t₁, u₁, rfl, hmax, h₁⟩ := run_bind_ok_iff.mp h
  obtain ⟨body, t₂, u₂, rfl, hbody, h₂⟩ := run_bind_ok_iff.mp h₁
  obtain ⟨_, t₃, u₃, rfl, hlength, h₃⟩ := run_bind_ok_iff.mp h₂
  obtain ⟨bodyHash, t₄, u₄, rfl, hhash, h₄⟩ := run_bind_ok_iff.mp h₃
  obtain ⟨binding, t₅, u₅, rfl, hbinding, h₅⟩ := run_bind_ok_iff.mp h₄
  obtain ⟨hash, t₆, u₆, rfl, hlast, h₆⟩ := run_bind_ok_iff.mp h₅
  obtain ⟨rfl, -⟩ := run_ofExcept_iff.mp hmax
  obtain rfl := run_perform_iff.mp hbody
  obtain ⟨rfl, -⟩ := run_ofExcept_iff.mp hlength
  obtain rfl := run_perform_iff.mp hhash
  obtain ⟨rfl, hcanonical⟩ := run_ofExcept_iff.mp hbinding
  obtain rfl := run_perform_iff.mp hlast
  obtain ⟨rfl, -⟩ := run_pure_iff.mp h₆
  exact ⟨body, bodyHash, binding, hash, hcanonical.symm, rfl⟩

/-- A digest in the gateway hashes the body that was passed on, and the target of the request. -/
theorem run_httpRequestDigest {g : Gateway} {request made : HttpRequest} {body : List UInt8}
    {maxBodyBytes : Option ℚ} {resolvers : Resolvers} {trace : List (Event GatewayAnswer JsError)}
    {digest : String}
    (h : Run ((httpRequestDigest g.engine made maxBodyBytes).interpretWith
      (g.answer request body) resolvers) trace (.ok digest)) :
    Digests g.engine made body trace := by
  obtain ⟨t, s, ht, himplements⟩ := run_interpretWith_iff.mp h
  obtain ⟨read, bodyHash, binding, hash, hbinding, rfl⟩ := httpRequestDigest_calls ht
  -- a call of the middleware that the gateway passes on
  have hpassed : ∀ {bytes : List UInt8} {v s' answer},
      Run (g.answer request body resolvers (.digest bytes)) v (.ok (answer, s')) →
        v = [⟨.middleware (.digest bytes), .ok answer⟩] ∧ s' = resolvers := by
    intro bytes v s' answer hcall
    obtain ⟨a, t, u, rfl, hperform, hpure⟩ := run_bind_ok_iff.mp hcall
    obtain rfl := run_perform_iff.mp hperform
    obtain ⟨rfl, heq⟩ := run_pure_iff.mp hpure
    obtain ⟨rfl, rfl⟩ := Prod.mk.inj (Except.ok.inj heq)
    exact ⟨rfl, rfl⟩
  cases himplements with
  | ok hread himplements =>
    obtain ⟨rfl, heq⟩ := run_pure_iff.mp hread
    obtain ⟨rfl, rfl⟩ := Prod.mk.inj (Except.ok.inj heq)
    cases himplements with
    | ok hfirst himplements =>
      obtain ⟨rfl, rfl⟩ := hpassed hfirst
      cases himplements with
      | ok hsecond himplements =>
        obtain ⟨rfl, rfl⟩ := hpassed hsecond
        cases himplements
        exact ⟨bodyHash, binding, hash, hbinding, rfl⟩

/-- The parts are determined by the trace. -/
theorem Digests.unique {engine : Engine} {request request' : HttpRequest} {body body' : List UInt8}
    {trace : List (Event GatewayAnswer JsError)} (h : Digests engine request body trace)
    (h' : Digests engine request' body' trace) :
    request.target = request'.target ∧ body = body' := by
  obtain ⟨bodyHash, binding, hash, hbinding, rfl⟩ := h
  obtain ⟨bodyHash', binding', hash', hbinding', htrace⟩ := h'
  simp only [List.cons.injEq, Event.mk.injEq, GatewayCall.middleware.injEq,
    MiddlewareCall.digest.injEq, and_true] at htrace
  obtain ⟨⟨rfl, -⟩, htext, -⟩ := htrace
  have hnumbers : ∀ {r : HttpRequest} {hash : List UInt8},
      PrintsNumbers engine (requestBinding r hash) := by
    intro r hash q hq
    cases hq
  have hnames : (["method", "target", "body_sha256"] : List String).Nodup := by decide
  have hdistinct : ∀ (r : HttpRequest) (hash : List UInt8), (requestBinding r hash).Distinct :=
    fun r hash => ⟨hnames, trivial, trivial, trivial, trivial⟩
  have hproto : ∀ (r : HttpRequest) (hash : List UInt8), PROTO ∉ (requestBinding r hash).names := by
    intro r hash
    have hnotMem : PROTO ∉ (["method", "target", "body_sha256"] : List String) := by decide
    exact hnotMem
  obtain rfl : binding = binding' := by
    rw [encodeText, encodeText] at htext
    exact String.toList_injective (Utf8.encode_injective htext)
  have hsame := (canonicalJson_eq_iff (hdistinct _ _) (hdistinct _ _) hnumbers hnumbers hbinding
    hbinding').mp rfl
  rw [Json.without_of_notMem (hproto _ _), Json.without_of_notMem (hproto _ _)] at hsame
  have hlookup : ∀ {ms ns : Record}, ms.map Prod.fst = ["method", "target", "body_sha256"] →
      ns.map Prod.fst = ["method", "target", "body_sha256"] → Json.Same (.obj ms) (.obj ns) →
      Option.Rel Json.Same (ms.lookup "target") (ns.lookup "target") := by
    intro ms ns hms hns h
    exact (Json.same_obj_iff_lookup (hms ▸ hnames) (hns ▸ hnames)).mp h "target"
  have htarget : Option.Rel Json.Same (some (.str request.target : Value))
      (some (.str request'.target)) := hlookup rfl rfl hsame
  cases htarget with
  | some h => exact ⟨by simpa [Json.Same, Json.equalBy, Json.scalarEq] using h, rfl⟩

/-! ### The binding -/

variable {origin : Origin hosts}

/-- The text of a target that was sent under `/authorize`. -/
theorem authorizedTarget_eq (text : List Char) :
    Gateway.authorizedTarget (String.ofList ("/authorize".toList ++ '/' :: text))
      = String.ofList ('/' :: text) := by
  have hdrop : ("/authorize".toList ++ '/' :: text).drop "/authorize".length = '/' :: text := by
    rw [← String.length_toList, List.drop_left]
  rw [Gateway.authorizedTarget, String.toList_ofList, hdrop, if_neg (List.cons_ne_nil _ _)]

/-- The URL of a target keeps the origin and the path exactly if the target does. -/
theorem keepsTarget_iff {text : List Char} {url : Url hosts}
    (h : resolve origin ('/' :: text) = some url) :
    url.origin = origin ∧ url.pathname ++ url.search =
      (urlAt origin (cleanTail text) [] []).pathname
        ++ (urlAt origin (cleanTail text) [] []).search ↔ KeepsTarget origin text := by
  rw [KeepsTarget]
  rcases hdouble : beginsWithAuthority text with _ | _
  · rw [resolve_of_single origin hdouble] at h
    obtain rfl := Option.some.inj h
    exact iff_of_true ⟨rfl, rfl⟩ fun htrue => absurd htrue Bool.false_ne_true
  · rw [resolve_of_double origin hdouble] at h
    constructor
    · intro hkeeps _
      exact ⟨url, h, hkeeps⟩
    · intro hkeeps
      obtain ⟨url', hurl', hkeeps⟩ := hkeeps rfl
      obtain rfl := Option.some.inj (h.symm.trans hurl')
      exact hkeeps

/-- What is hashed is bound to the request that was received: the URL that is verified is at the
external origin, the hashed target is that of the origin followed by the received target, and the
hashed body is the received one. This holds exactly if the target keeps the origin and the body is
passed on. -/
theorem digest_binds_iff {g : Gateway} (hnew : g.newRequest = newRequest origin)
    {request : IncomingMessage} {text : List Char}
    (hurl : request.url = String.ofList ("/authorize".toList ++ '/' :: text)) {body : List UInt8}
    {headers : Headers} {made : HttpRequest}
    (hmade : g.newRequest request.method (Gateway.authorizedTarget request.url) headers = .ok made)
    {maxBodyBytes : Option ℚ} {resolvers : Resolvers} {trace : List (Event GatewayAnswer JsError)}
    {digest : String}
    (hhashed : Run ((httpRequestDigest g.engine made maxBodyBytes).interpretWith
      (g.answer made (Gateway.forwardedBody request body)) resolvers) trace (.ok digest)) :
    (∃ url, resolve origin ('/' :: text) = some url ∧ url.origin = origin ∧
        ∃ received, parse hosts (origin.text ++ '/' :: text) = some received ∧
          Digests g.engine
            { made with target := String.ofList (received.pathname ++ received.search) } body trace)
      ↔ KeepsTarget origin text ∧ KeepsBody request.method body := by
  have hdigests := run_httpRequestDigest hhashed
  rw [hnew, hurl, authorizedTarget_eq] at hmade
  obtain ⟨url, hresolve, -, htarget⟩ := newRequest_eq_ok hmade
  rw [parse_origin_append, ← keepsTarget_iff hresolve, ← forwardedBody_eq_iff]
  constructor
  · rintro ⟨url', hurl', horigin, received, hreceived, hbinds⟩
    obtain rfl := Option.some.inj (hresolve.symm.trans hurl')
    obtain rfl := Option.some.inj hreceived
    obtain ⟨hsame, hbody⟩ := hdigests.unique hbinds
    rw [htarget] at hsame
    exact ⟨⟨horigin, String.ofList_injective hsame⟩, hbody⟩
  · rintro ⟨⟨horigin, hpath⟩, hbody⟩
    refine ⟨url, hresolve, horigin, _, rfl, ?_⟩
    rw [← hpath, ← htarget]
    rwa [hbody] at hdigests

/-! ### A target of another origin -/

/-- The characters of domain names in lower case. -/
def isDomainChar (c : Char) : Bool := c.isLower || c.isDigit || c = '-' || c = '.'

theorem isDomainChar_clean {c : Char} (h : isDomainChar c = true) :
    isDelimiter c = false ∧ c ≠ '@' ∧ isTabOrNewline c = false ∧ c ≠ ':' := by
  have hne : ∀ d : Char, isDomainChar d = false → c ≠ d := by
    rintro d hd rfl
    rw [hd] at h
    cases h
  simp [isDelimiter, isSlash, isTabOrNewline, hne '/' (by decide), hne '\\' (by decide),
    hne '?' (by decide), hne '#' (by decide), hne '@' (by decide), hne '\t' (by decide),
    hne '\n' (by decide), hne '\r' (by decide), hne ':' (by decide)]

/-- Text without a colon has no port. -/
theorem splitHost_of_notMem {cs : List Char} (h : ':' ∉ cs) (inside : Bool) :
    splitHost inside cs = (cs, none) := by
  induction cs generalizing inside with
  | nil => rfl
  | cons c cs ih =>
    obtain ⟨hc, hcs⟩ := not_or.mp (mt List.mem_cons.mpr h)
    have hcolon : ¬ (c = ':' ∧ inside = false) := fun hand => hc hand.1.symm
    rw [splitHost, if_neg hcolon, ih hcs]

theorem splitHost_colon {cs rest : List Char} (h : ∀ c ∈ cs, isDomainChar c = true) :
    splitHost false (cs ++ ':' :: rest) = (cs, some rest) := by
  induction cs with
  | nil => rfl
  | cons c cs ih =>
    obtain ⟨hc, hcs⟩ := List.forall_mem_cons.mp h
    have hcolon : ¬ (c = ':' ∧ false = false) := fun hand => (isDomainChar_clean hc).2.2.2 hand.1
    have hbrackets : c ≠ '[' ∧ c ≠ ']' := by
      constructor
      · rintro rfl
        exact absurd hc (by decide)
      · rintro rfl
        exact absurd hc (by decide)
    rw [List.cons_append, splitHost, if_neg hcolon, if_neg hbrackets.1, if_neg hbrackets.2, ih hcs]

/-- Domain names in lower case, which are read as they are. -/
def domainHosts : Hosts where
  Host := { cs : List Char // cs ≠ [] ∧ cs.all isDomainChar = true }
  parse cs := if h : cs ≠ [] ∧ cs.all isDomainChar = true then some ⟨cs, h⟩ else none
  text host := host.1
  parse_text host := dif_pos host.2
  text_ne_nil host := host.2.1
  text_clean host c hc :=
    have h := isDomainChar_clean (List.all_eq_true.mp host.2.2 c hc)
    ⟨h.1, h.2.1, h.2.2.1⟩
  split_text host := splitHost_of_notMem
    (fun h => (isDomainChar_clean (List.all_eq_true.mp host.2.2 _ h)).2.2.2 rfl) false
  split_text_colon host _ := splitHost_colon (List.all_eq_true.mp host.2.2)

/-- `https://api.example`. -/
def apiOrigin : Origin domainHosts where
  scheme := .https
  host := ⟨"api.example".toList, by decide⟩
  port := ⟨none, by rintro _ ⟨⟩⟩

/-- A gateway in front of that origin. -/
def apiGateway : Gateway where
  engine := plainEngine
  schemas := noteSchemas
  config :=
    { expectedAudience := "https://api.example", mandateAudience := "oati:mandates"
      passportAudience := "oati:passports", receiptIssuer := "oati:org:api", trustAnchors := []
      clockSkewMs := 30000, maxProofAgeMs := 300000, maxTrustDepth := 4, maxHeaderBytes := 65536
      maxBodyBytes := 1048576 }
  signedCommerce _ :=
    { merchantOrganisationId := "", serviceId := "", offerId := "", currency := "", quantity := 0
      quotedUnitPrice := "", quotedTotal := "", idempotencyKey := "" }
  newRequest := newRequest apiOrigin

/-- Every body within the limit is hashed. -/
theorem exists_run_httpRequestDigest {g : Gateway} {made : HttpRequest} {body : List UInt8}
    {maxBodyBytes : ℕ} (hbody : body.length ≤ maxBodyBytes) (resolvers : Resolvers) :
    ∃ trace digest, Run ((httpRequestDigest g.engine made (some maxBodyBytes)).interpretWith
      (g.answer made body) resolvers) trace (.ok digest) := by
  obtain ⟨copy, hcopy⟩ := @exists_canonicalValue (requestBinding made [0]) 0 (by
    have hdepth : (requestBinding made [0]).depth = 1 := rfl
    omega)
  obtain ⟨binding, hbinding⟩ : ∃ binding, canonicalJson g.engine (requestBinding made [0])
      = .ok binding := by
    rw [canonicalJson, hcopy]
    exact ⟨_, rfl⟩
  have hmax : checkMaxBodyBytes (maxBodyBytes : ℚ) = .ok () := by
    rw [checkMaxBodyBytes, if_neg]
    simp
  have hlength : checkBodyLength body (maxBodyBytes : ℚ) = .ok () := by
    rw [checkBodyLength, if_neg]
    simpa using hbody
  have hdigest : Run (httpRequestDigest g.engine made (some maxBodyBytes))
      [⟨.readBody, .ok body⟩, ⟨.digest body, .ok [0]⟩, ⟨.digest (encodeText binding), .ok [0]⟩]
      (.ok ("sha256:" ++ hex [0])) := by
    refine Run.bind (t := []) (a := ()) (run_ofExcept_iff.mpr ⟨rfl, hmax.symm⟩) ?_
    refine (run_perform (A := MiddlewareAnswer) .readBody (.ok body)).bind ?_
    refine Run.bind (t := []) (a := ()) (run_ofExcept_iff.mpr ⟨rfl, hlength.symm⟩) ?_
    refine (run_perform (A := MiddlewareAnswer) (.digest body) (.ok [0])).bind ?_
    refine Run.bind (t := []) (run_ofExcept_iff.mpr ⟨rfl, hbinding.symm⟩) ?_
    exact (run_perform (A := MiddlewareAnswer) (.digest _) (.ok [0])).bind
      (run_pure_iff.mpr ⟨rfl, rfl⟩)
  have hpassed : ∀ bytes : List UInt8, Run (g.answer made body resolvers (.digest bytes))
      [⟨.middleware (.digest bytes), .ok [0]⟩] (.ok ([0], resolvers)) := fun bytes =>
    (run_perform (A := GatewayAnswer) (.middleware (.digest bytes)) (.ok [0])).bind
      (run_pure_iff.mpr ⟨rfl, rfl⟩)
  have hread : Run (g.answer made body resolvers .readBody) [] (.ok (body, resolvers)) :=
    run_pure_iff.mpr ⟨rfl, rfl⟩
  exact ⟨_, _, run_interpretWith_iff.mpr ⟨_, resolvers, hdigest,
    .ok hread (.ok (hpassed _) (.ok (hpassed _) (.nil _)))⟩⟩

instance : DecidableEq HttpRequest := fun a b =>
  decidable_of_iff (a.method = b.method ∧ a.target = b.target ∧ a.headers = b.headers)
    (by cases a; cases b; simp)

theorem newRequest_eq_pay : newRequest apiOrigin "POST" "/pay?order=1" []
    = .ok { method := "POST", target := "/pay?order=1" } := by decide

theorem newRequest_eq_evil : newRequest apiOrigin "GET" "//evil.example/pay" []
    = .ok { method := "GET", target := "/pay" } := by decide

theorem digest_binds_iff_pay : ∃ trace,
    ∃ url, resolve apiOrigin "/pay?order=1".toList = some url ∧ url.origin = apiOrigin ∧
      ∃ received, parse domainHosts (apiOrigin.text ++ "/pay?order=1".toList) = some received ∧
        Digests plainEngine
          { method := "POST", target := String.ofList (received.pathname ++ received.search) }
          [1] trace := by
  obtain ⟨trace, digest, hrun⟩ := @exists_run_httpRequestDigest apiGateway
    { method := "POST", target := "/pay?order=1" } [1] 1048576 (by decide) (fun _ => .upstream)
  have hkeeps : KeepsTarget apiOrigin "pay?order=1".toList := by
    have hsingle : beginsWithAuthority "pay?order=1".toList = false := by decide
    intro h
    exact absurd (hsingle.symm.trans h) Bool.false_ne_true
  refine ⟨trace, (@digest_binds_iff _ apiOrigin apiGateway rfl
    { method := "POST", url := "/authorize/pay?order=1" } "pay?order=1".toList rfl [1] [] _
    newRequest_eq_pay _ _ _ _ hrun).mpr ⟨hkeeps, ?_⟩⟩
  exact .inr ⟨by decide, by decide⟩

/-- Under the target `//evil.example/pay`, what is verified and hashed is `/pay` of another origin,
and not the path `//evil.example/pay` that was received. -/
theorem foreignTarget_hashed : ∃ trace digest,
    apiGateway.newRequest "GET" (Gateway.authorizedTarget "/authorize//evil.example/pay") []
        = .ok { method := "GET", target := "/pay" }
      ∧ Run ((httpRequestDigest plainEngine { method := "GET", target := "/pay" }
          (some 1048576)).interpretWith
          (apiGateway.answer { method := "GET", target := "/pay" } []) fun _ => .upstream) trace
          (.ok digest)
      ∧ (∀ url, resolve apiOrigin "//evil.example/pay".toList = some url → url.origin ≠ apiOrigin)
      ∧ (parse domainHosts (apiOrigin.text ++ "//evil.example/pay".toList)).map Url.pathname
        = some "//evil.example/pay".toList := by
  obtain ⟨trace, digest, hrun⟩ := @exists_run_httpRequestDigest apiGateway
    { method := "GET", target := "/pay" } [] 1048576 (by decide) (fun _ => .upstream)
  refine ⟨trace, digest, newRequest_eq_evil, hrun, ?_, by decide⟩
  intro url hurl horigin
  have hhost : (resolve apiOrigin "//evil.example/pay".toList).map (fun url => url.origin.host.1)
      = some "evil.example".toList := by decide
  rw [hurl, Option.map_some, horigin] at hhost
  exact absurd hhost (by decide)

end Oati.TypeScript

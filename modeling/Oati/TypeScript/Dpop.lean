import Oati.Library.ProgState
import Oati.TypeScript.CryptoSpec
import Oati.TypeScript.Lookup

/-!
# DPoP proofs

`verifyDpopProof` of `adapters.ts`: a JWT that binds an access token and a request to a key. A
verification is a program whose calls are the clock, Web Crypto and the replay store; each may
throw, and what is thrown outside of the store and of the signature check makes the proof
malformed.

* `splitProof`, `decodeObject`: the three parts of a proof and the objects in them.
* `timely`, `expiresAt`: the window of a proof in whole seconds, and the instant until which its
  key is stored, in milliseconds.
* `verifyDpopProof_valid`: what a valid proof has established.
-/

namespace Oati.TypeScript

open Prog

/-! ### Data -/

/-- What a verification reads of a request: the method, and the origin and pathname of the URL. -/
structure DpopRequest where
  method : String
  htu : String

/-- `DpopVerificationOptions`; the replay store is a call. `some none` is a number that is not
finite. -/
structure DpopVerificationOptions where
  accessToken : String
  expectedJkt : Option String := none
  now : Option ℤ := none
  clockSkewSeconds : Option (Option ℚ) := none
  maxAgeSeconds : Option (Option ℚ) := none

structure DpopVerificationResult where
  valid : Bool
  jkt : Option String := none
  claims : Option Record := none
  issues : List String

/-- The calls of a verification. A key imported by Web Crypto is a handle. -/
inductive DpopCall where
  | clock
  | digest (bytes : List UInt8)
  | importKey (jwk : Record) (algorithm : OatiAlgorithm)
  | verify (algorithm : OatiAlgorithm) (key : ℕ) (signature input : List UInt8)
  | checkAndStore (replayKey : String) (expiresAt : Option ℤ)

@[reducible] def DpopAnswer : DpopCall → Type
  | .clock => ℤ
  | .digest _ => List UInt8
  | .importKey _ _ => ℕ
  | .verify _ _ _ _ => Bool
  | .checkAndStore _ _ => Bool

abbrev DpopProg (α : Type) := Prog DpopAnswer JsError α

namespace DpopVerificationOptions

/-- `options.clockSkewSeconds ?? 30`. -/
def skew (options : DpopVerificationOptions) : ℚ := (options.clockSkewSeconds.getD (some 30)).getD 0

/-- `options.maxAgeSeconds ?? 300`. -/
def maxAge (options : DpopVerificationOptions) : ℚ := (options.maxAgeSeconds.getD (some 300)).getD 0

/-- The condition on the skew and the age. -/
def policyInvalid (options : DpopVerificationOptions) : Bool :=
  options.clockSkewSeconds.any (fun skew => skew.all (· < 0))
    || options.maxAgeSeconds.any (fun maxAge => maxAge.all (· ≤ 0))

end DpopVerificationOptions

/-! ### The parts of a proof -/

/-- `adapterError`. -/
def adapterError (message : String) : JsError := .oatiError .adapterInvalidInput message

/-- `proof.split(".")`, of which the three parts are used. -/
def splitProof (proof : String) : Except JsError (List Char × List Char × List Char) :=
  match proof.toList.splitOn '.' with
  | [header, payload, signature] =>
    if header ≠ [] ∧ payload ≠ [] ∧ signature ≠ [] then .ok (header, payload, signature)
    else .error (.error "malformed JWT")
  | _ => .error (.error "malformed JWT")

/-- `decodeObject`. -/
def decodeObject (engine : Engine) (value : List Char) : Except JsError Record := do
  match ← jsonParse engine (decodeText (← fromBase64url value)) with
  | .obj members => return members
  | _ => throw (.error "not object")

/-- A member that is an object. -/
def objectMember (members : Record) (key : String) : Option Record :=
  (members.lookup key).bind Json.members?

/-- The text decodes to 32 bytes. -/
def isCoordinate (value : Option String) : Bool :=
  value.any fun s => match fromBase64url s.toList with
    | .ok bytes => bytes.length == 32
    | .error _ => false

/-- `dpopJwkMatchesAlgorithm`. -/
def dpopJwkMatchesAlgorithm (jwk : Record) (algorithm : Option String) : Bool :=
  if algorithm = some "EdDSA" then
    stringMember jwk "kty" == some "OKP" && stringMember jwk "crv" == some "Ed25519"
      && isValidEd25519PublicKey (jwk.lookup "x")
  else if algorithm = some "ES256" then
    stringMember jwk "kty" == some "EC" && stringMember jwk "crv" == some "P-256"
      && isCoordinate (stringMember jwk "x") && isCoordinate (stringMember jwk "y")
  else false

/-- The members of a thumbprint, by the type of the key. -/
def thumbprintNames (jwk : Record) : Except JsError (List String) :=
  match stringMember jwk "kty" with
  | some "EC" => .ok ["crv", "kty", "x", "y"]
  | some "OKP" => .ok ["crv", "kty", "x"]
  | some "RSA" => .ok ["e", "kty", "n"]
  | _ => .error (adapterError "Unsupported JWK type for thumbprint")

/-- The text that is hashed for the thumbprint. -/
def thumbprintText (engine : Engine) (jwk : Record) : Except JsError String := do
  let names ← thumbprintNames jwk
  let members := names.filterMap fun name =>
    ((stringMember jwk name).filter (· != "")).map fun value => (name, Json.str value)
  if members.length = names.length then canonicalJson engine (.obj members)
  else throw (adapterError "JWK thumbprint members are incomplete")

/-- `base64url(await sha256(new TextEncoder().encode(text)))`. -/
def hashText (text : String) : DpopProg String := do
  let hash ← Prog.perform (A := DpopAnswer) (.digest (encodeText text))
  return String.ofList (Base64.encode hash)

/-- `jwkThumbprint`. -/
def jwkThumbprint (engine : Engine) (jwk : Record) : DpopProg String := do
  hashText (← Prog.ofExcept (thumbprintText engine jwk))

/-- `accessTokenHash`. -/
def accessTokenHash (token : String) : DpopProg String := hashText token

/-! ### Time -/

/-- `(options.now ?? new Date()).getTime()`. -/
def dpopNow (options : DpopVerificationOptions) : DpopProg ℤ :=
  match options.now with
  | some now => pure now
  | none => Prog.perform (A := DpopAnswer) .clock

/-- The time a proof was issued at is inside the window around the whole second of `now`. -/
def timely (options : DpopVerificationOptions) (iat : ℚ) (now : ℤ) : Bool :=
  iat ≤ plus (now / 1000) options.skew
    && Double.round (minus (now / 1000) options.maxAge - options.skew) ≤ iat

/-- `new Date((iat + maxAge + skew) * 1000)`. -/
def expiresAt (options : DpopVerificationOptions) (iat : ℚ) : Option ℤ :=
  timeClip (Double.round (Double.round (Double.round (iat + options.maxAge) + options.skew) * 1000))

/-! ### The verification -/

/-- `if (condition) issues.push(issue)`. -/
def pushIf (issues : List String) (condition : Bool) (issue : String) : List String :=
  if condition then issues ++ [issue] else issues

/-- The number `claims.iat`. -/
def iatOf (claims : Record) : Option ℚ :=
  match claims.lookup "iat" with
  | some (.num q) => some q
  | _ => none

/-- The issues before the signature is looked at; `jkt` and `ath` are hashes. -/
def dpopIssues (header claims : Record) (request : DpopRequest)
    (options : DpopVerificationOptions) (jkt : Option String) (ath : String) (now : ℤ) :
    List String :=
  let alg := stringMember header "alg"
  let issues := pushIf [] (stringMember header "typ" != some "dpop+jwt") "DPOP_TYP_INVALID"
  let issues := pushIf issues (alg != some "ES256" && alg != some "EdDSA")
    "DPOP_ALGORITHM_UNSUPPORTED"
  let issues := pushIf issues ((objectMember header "jwk").all fun jwk =>
    (jwk.lookup "d").isSome || !dpopJwkMatchesAlgorithm jwk alg) "DPOP_JWK_INVALID"
  let issues := pushIf issues ((nonEmpty options.expectedJkt).any (some · != jkt))
    "DPOP_KEY_BINDING_MISMATCH"
  let issues := pushIf issues
    (stringMember claims "htm" != some (String.ofList (request.method.toList.map Char.toUpper)))
    "DPOP_METHOD_MISMATCH"
  let issues := pushIf issues (stringMember claims "htu" != some request.htu) "DPOP_URI_MISMATCH"
  let issues := pushIf issues (stringMember claims "ath" != some ath) "DPOP_TOKEN_HASH_MISMATCH"
  let issues := pushIf issues (!(iatOf claims).any (timely options · now)) "DPOP_TIME_INVALID"
  pushIf issues ((stringMember claims "jti").all fun jti => jti == "" || 256 < (utf16 jti).length)
    "DPOP_JTI_INVALID"

/-- The algorithm that the signature is checked with. -/
def dpopAlgorithm (header : Record) : OatiAlgorithm :=
  if stringMember header "alg" = some "EdDSA" then .edDSA else .es256

/-- The first part of the signature is no point that a signature can have. -/
def signatureMalformed (header : Record) (signature : List UInt8) : Bool :=
  signature.length != 64 || dpopAlgorithm header = .edDSA &&
    !isValidEd25519PublicKey (some (.str (String.ofList (Base64.encode (signature.take 32)))))

/-- The signature check of a proof without issues. -/
def dpopSignature (header jwk : Record) (parts : List Char × List Char × List Char) :
    DpopProg (List String) := do
  let signature ← Prog.ofExcept (fromBase64url parts.2.2)
  let issues := pushIf [] (signatureMalformed header signature) "DPOP_SIGNATURE_INVALID"
  let verified ← (do
    let key ← Prog.perform (A := DpopAnswer) (.importKey jwk (dpopAlgorithm header))
    if issues = [] then
      Prog.perform (A := DpopAnswer) (.verify (dpopAlgorithm header) key signature
        (Utf8.encode (parts.1 ++ '.' :: parts.2.1)))
    else pure true : DpopProg Bool).attempt
  match verified with
  | .ok verified => pure (pushIf issues (!verified) "DPOP_SIGNATURE_INVALID")
  | .error _ => pure (issues ++ ["DPOP_JWK_INVALID"])

/-- The key under which the identifier of a proof is stored. -/
def dpopReplayKey (jkt jti : String) : String := jkt ++ String.singleton (Char.ofNat 0) ++ jti

/-- The replay check of a proof without issues. -/
def dpopReplay (claims : Record) (options : DpopVerificationOptions) (jkt : String) :
    DpopProg (List String) := do
  let stored ← (Prog.perform (A := DpopAnswer) (.checkAndStore
    (dpopReplayKey jkt ((stringMember claims "jti").getD ""))
    (expiresAt options ((iatOf claims).getD 0)))).attempt
  match stored with
  | .ok stored => pure (pushIf [] (!stored) "DPOP_REPLAY")
  | .error _ => pure ["DPOP_REPLAY_UNAVAILABLE"]

/-- The rest of a verification: the checks that are made only of a proof without issues. -/
def dpopFinish (header claims : Record) (parts : List Char × List Char × List Char)
    (options : DpopVerificationOptions) (jkt : Option String) (issues : List String) :
    DpopProg (List String) := do
  match issues, objectMember header "jwk", jkt with
  | [], some jwk, some jkt => do
    match ← dpopSignature header jwk parts with
    | [] => dpopReplay claims options jkt
    | issues => pure issues
  | issues, _, _ => pure issues

/-- `isObject(header.jwk) ? await jwkThumbprint(header.jwk) : undefined`. -/
def headerThumbprint (engine : Engine) (header : Record) : DpopProg (Option String) :=
  match objectMember header "jwk" with
  | some jwk => some <$> jwkThumbprint engine jwk
  | none => pure none

/-- The `try` block of `verifyDpopProof`, behind the conditions on the options. -/
def verifyProofParts (engine : Engine) (proof : String) (request : DpopRequest)
    (options : DpopVerificationOptions) : DpopProg DpopVerificationResult := do
  let parts ← Prog.ofExcept (splitProof proof)
  let header ← Prog.ofExcept (decodeObject engine parts.1)
  let claims ← Prog.ofExcept (decodeObject engine parts.2.1)
  let jkt ← headerThumbprint engine header
  let ath ← accessTokenHash options.accessToken
  let now ← dpopNow options
  let issues ← dpopFinish header claims parts options jkt
    (dpopIssues header claims request options jkt ath now)
  return { valid := issues.isEmpty, jkt, claims := some claims, issues }

/-- `verifyDpopProof`. -/
def verifyDpopProof (engine : Engine) (proof : String) (request : DpopRequest)
    (options : DpopVerificationOptions) : DpopProg DpopVerificationResult := do
  if options.accessToken = "" then return { valid := false, issues := ["DPOP_TOKEN_INVALID"] }
  else if options.policyInvalid then return { valid := false, issues := ["DPOP_POLICY_INVALID"] }
  else
    match ← (verifyProofParts engine proof request options).attempt with
    | .ok result => pure result
    | .error _ => return { valid := false, issues := ["DPOP_MALFORMED"] }

/-! ### What a valid proof has established -/

@[simp] theorem pushIf_eq_nil {issues : List String} {condition : Bool} {issue : String} :
    pushIf issues condition issue = [] ↔ issues = [] ∧ condition = false := by
  rw [pushIf]
  split_ifs with h
  · simp [h]
  · simp [h]

/-- A proof without issues has a key, a time inside the window, and an identifier. -/
theorem dpopIssues_eq_nil {header claims : Record} {request : DpopRequest}
    {options : DpopVerificationOptions} {jkt : Option String} {ath : String} {now : ℤ}
    (h : dpopIssues header claims request options jkt ath now = []) :
    ∃ iat jti, iatOf claims = some iat ∧ timely options iat now = true ∧
      stringMember claims "jti" = some jti := by
  simp only [dpopIssues, pushIf_eq_nil] at h
  obtain ⟨⟨-, htime⟩, hjti⟩ := h
  rcases hiat : iatOf claims with _ | iat
  · rw [hiat] at htime
    cases htime
  · rcases hid : stringMember claims "jti" with _ | jti
    · rw [hid] at hjti
      cases hjti
    · rw [hiat] at htime
      exact ⟨iat, jti, rfl, by simpa using htime, rfl⟩

/-- What a valid proof has established of the parts of the proof, and the calls it rests on. -/
structure DpopAccepted (engine : Engine) (proof : String) (options : DpopVerificationOptions)
    (trace : List (Event DpopAnswer JsError)) (claims jwk : Record) (text : String)
    (hash : List UInt8) (now : ℤ) (iat : ℚ) (jti : String) : Prop where
  decoded : ∃ parts header, splitProof proof = .ok parts ∧
    decodeObject engine parts.1 = .ok header ∧ decodeObject engine parts.2.1 = .ok claims ∧
    objectMember header "jwk" = some jwk
  iat_eq : iatOf claims = some iat
  jti_eq : stringMember claims "jti" = some jti
  text_eq : thumbprintText engine jwk = .ok text
  hashed : Answered trace (.digest (encodeText text)) (.ok hash)
  clock : options.now = some now ∨ Answered trace .clock (.ok now)
  timely : timely options iat now = true
  stored : Answered trace (.checkAndStore
    (dpopReplayKey (String.ofList (Base64.encode hash)) jti) (expiresAt options iat)) (.ok true)

theorem dpopNow_spec {options : DpopVerificationOptions} {trace : List (Event DpopAnswer JsError)}
    {now : ℤ} (h : Run (dpopNow options) trace (.ok now)) :
    options.now = some now ∨ Answered trace .clock (.ok now) := by
  rcases hnow : options.now with _ | time
  · rw [dpopNow, hnow] at h
    obtain rfl := run_perform_iff.mp h
    exact .inr (List.mem_singleton_self _)
  · rw [dpopNow, hnow] at h
    obtain ⟨-, htime⟩ := run_pure_iff.mp h
    exact .inl (congrArg some (Except.ok.inj htime).symm)

theorem hashText_spec {text : String} {trace : List (Event DpopAnswer JsError)} {result : String}
    (h : Run (hashText text) trace (.ok result)) :
    ∃ hash, result = String.ofList (Base64.encode hash) ∧
      Answered trace (.digest (encodeText text)) (.ok hash) := by
  obtain ⟨hash, t, u, rfl, ht, hu⟩ := run_bind_ok_iff.mp h
  obtain rfl := run_perform_iff.mp ht
  obtain ⟨rfl, hresult⟩ := run_pure_iff.mp hu
  exact ⟨hash, Except.ok.inj hresult, List.mem_singleton_self _⟩

theorem dpopReplay_spec {claims : Record} {options : DpopVerificationOptions} {jkt : String}
    {trace : List (Event DpopAnswer JsError)}
    (h : Run (dpopReplay claims options jkt) trace (.ok [])) :
    Answered trace (.checkAndStore (dpopReplayKey jkt ((stringMember claims "jti").getD ""))
      (expiresAt options ((iatOf claims).getD 0))) (.ok true) := by
  obtain ⟨answer, t, u, rfl, ht, hu⟩ := run_bind_ok_iff.mp h
  obtain ⟨answer, rfl, ⟨⟩⟩ := run_attempt_perform_iff.mp ht
  rcases answer with e | stored
  · obtain ⟨-, hissues⟩ := run_pure_iff.mp hu
    cases hissues
  · obtain ⟨-, hissues⟩ := run_pure_iff.mp hu
    have hstored := (pushIf_eq_nil.mp (Except.ok.inj hissues).symm).2
    obtain rfl : stored = true := by simpa using hstored
    exact List.mem_append_left _ (List.mem_singleton_self _)

/-- Without issues at the end, the store accepted the key of the proof. -/
theorem dpopFinish_spec {header claims : Record} {parts : List Char × List Char × List Char}
    {options : DpopVerificationOptions} {jkt : Option String} {issues : List String}
    {trace : List (Event DpopAnswer JsError)} (hjkt : (objectMember header "jwk").isSome → jkt.isSome)
    (hjwk : issues = [] → (objectMember header "jwk").isSome)
    (h : Run (dpopFinish header claims parts options jkt issues) trace (.ok [])) :
    issues = [] ∧ ∃ jwk thumbprint, objectMember header "jwk" = some jwk ∧ jkt = some thumbprint ∧
      Answered trace (.checkAndStore
        (dpopReplayKey thumbprint ((stringMember claims "jti").getD ""))
        (expiresAt options ((iatOf claims).getD 0))) (.ok true) := by
  rcases issues with _ | ⟨issue, issues⟩
  · obtain ⟨jwk, hkey⟩ := Option.isSome_iff_exists.mp (hjwk rfl)
    obtain ⟨thumbprint, rfl⟩ := Option.isSome_iff_exists.mp (hjkt (hjwk rfl))
    unfold dpopFinish at h
    simp only [hkey] at h
    obtain ⟨found, t, u, rfl, ht, hu⟩ := run_bind_ok_iff.mp h
    rcases found with _ | ⟨issue, found⟩
    · exact ⟨rfl, jwk, thumbprint, hkey, rfl, answered_append.mpr (.inr (dpopReplay_spec hu))⟩
    · obtain ⟨-, hissues⟩ := run_pure_iff.mp hu
      cases hissues
  · unfold dpopFinish at h
    obtain ⟨-, hissues⟩ := run_pure_iff.mp h
    cases hissues

/-- A key without issues is an object. -/
theorem jwk_of_dpopIssues {header claims : Record} {request : DpopRequest}
    {options : DpopVerificationOptions} {jkt : Option String} {ath : String} {now : ℤ}
    (h : dpopIssues header claims request options jkt ath now = []) :
    (objectMember header "jwk").isSome := by
  simp only [dpopIssues, pushIf_eq_nil] at h
  obtain ⟨⟨⟨⟨⟨⟨⟨⟨-, -⟩, hjwk⟩, -⟩, -⟩, -⟩, -⟩, -⟩, -⟩ := h
  rcases hkey : objectMember header "jwk" with _ | jwk
  · rw [hkey] at hjwk
    cases hjwk
  · rfl

theorem DpopAccepted.mono {engine : Engine} {proof : String} {options : DpopVerificationOptions}
    {t u : List (Event DpopAnswer JsError)} {claims jwk : Record} {text : String}
    {hash : List UInt8} {now : ℤ} {iat : ℚ} {jti : String}
    (h : DpopAccepted engine proof options t claims jwk text hash now iat jti) (hsub : t ⊆ u) :
    DpopAccepted engine proof options u claims jwk text hash now iat jti :=
  { h with
    hashed := hsub h.hashed
    clock := h.clock.imp_right fun hclock => hsub hclock
    stored := hsub h.stored }

theorem headerThumbprint_spec {engine : Engine} {header jwk : Record} {jkt : Option String}
    {trace : List (Event DpopAnswer JsError)} (hkey : objectMember header "jwk" = some jwk)
    (h : Run (headerThumbprint engine header) trace (.ok jkt)) :
    ∃ text hash, thumbprintText engine jwk = .ok text ∧
      Answered trace (.digest (encodeText text)) (.ok hash) ∧
      jkt = some (String.ofList (Base64.encode hash)) := by
  rw [headerThumbprint, hkey] at h
  obtain ⟨thumbprint, t, u, rfl, ht, hu⟩ := run_bind_ok_iff.mp h
  obtain ⟨rfl, hjkt⟩ := run_pure_iff.mp hu
  obtain ⟨text, t₁, t₂, rfl, hread, hhash⟩ := run_bind_ok_iff.mp ht
  obtain ⟨rfl, htext⟩ := run_ofExcept_iff.mp hread
  obtain ⟨hash, rfl, hhashed⟩ := hashText_spec hhash
  exact ⟨text, hash, htext.symm, answered_append.mpr (.inl hhashed), Except.ok.inj hjkt⟩

/-- The `try` block, call by call. -/
theorem verifyProofParts_valid {engine : Engine} {proof : String} {request : DpopRequest}
    {options : DpopVerificationOptions} {trace : List (Event DpopAnswer JsError)}
    {result : DpopVerificationResult}
    (h : Run (verifyProofParts engine proof request options) trace (.ok result))
    (hvalid : result.valid = true) :
    ∃ claims jwk text hash now iat jti,
      DpopAccepted engine proof options trace claims jwk text hash now iat jti := by
  obtain ⟨parts, t₁, u₁, rfl, hparts, h₁⟩ := run_bind_ok_iff.mp h
  obtain ⟨header, t₂, u₂, rfl, hheader, h₂⟩ := run_bind_ok_iff.mp h₁
  obtain ⟨claims, t₃, u₃, rfl, hclaims, h₃⟩ := run_bind_ok_iff.mp h₂
  obtain ⟨jkt, t₄, u₄, rfl, hjkt, h₄⟩ := run_bind_ok_iff.mp h₃
  obtain ⟨ath, t₅, u₅, rfl, hath, h₅⟩ := run_bind_ok_iff.mp h₄
  obtain ⟨now, t₆, u₆, rfl, hnow, h₆⟩ := run_bind_ok_iff.mp h₅
  obtain ⟨issues, t₇, u₇, rfl, hissues, h₇⟩ := run_bind_ok_iff.mp h₆
  obtain ⟨rfl, hresult⟩ := run_pure_iff.mp h₇
  obtain rfl := Except.ok.inj hresult
  obtain rfl : issues = [] := List.isEmpty_iff.mp hvalid
  obtain ⟨-, hparts⟩ := run_ofExcept_iff.mp hparts
  obtain ⟨-, hheader⟩ := run_ofExcept_iff.mp hheader
  obtain ⟨-, hclaims⟩ := run_ofExcept_iff.mp hclaims
  have hjktSome : (objectMember header "jwk").isSome → jkt.isSome := by
    intro hsome
    obtain ⟨jwk, hkey⟩ := Option.isSome_iff_exists.mp hsome
    obtain ⟨text, hash, -, -, rfl⟩ := headerThumbprint_spec hkey hjkt
    rfl
  obtain ⟨hnone, jwk, thumbprint, hkey, rfl, hstored⟩ :=
    dpopFinish_spec hjktSome jwk_of_dpopIssues hissues
  obtain ⟨text, hash, htext, hhashed, hthumbprint⟩ := headerThumbprint_spec hkey hjkt
  obtain rfl := Option.some.inj hthumbprint
  obtain ⟨iat, jti, hiat, htimely, hjti⟩ := dpopIssues_eq_nil hnone
  rw [hiat, hjti, Option.getD_some, Option.getD_some] at hstored
  refine ⟨claims, jwk, text, hash, now, iat, jti,
    { decoded := ⟨parts, header, hparts.symm, hheader.symm, hclaims.symm, hkey⟩
      iat_eq := hiat, jti_eq := hjti, text_eq := htext, timely := htimely, hashed := ?_
      clock := ?_, stored := ?_ }⟩
  · simp only [answered_append]
    exact .inr (.inr (.inr (.inl hhashed)))
  · refine (dpopNow_spec hnow).imp_right fun hclock => ?_
    simp only [answered_append]
    exact .inr (.inr (.inr (.inr (.inr (.inl hclock)))))
  · simp only [answered_append]
    exact .inr (.inr (.inr (.inr (.inr (.inr (.inl hstored))))))

/-- What a valid proof rests on. -/
theorem verifyDpopProof_valid {engine : Engine} {proof : String} {request : DpopRequest}
    {options : DpopVerificationOptions} {trace : List (Event DpopAnswer JsError)}
    {result : DpopVerificationResult}
    (h : Run (verifyDpopProof engine proof request options) trace (.ok result))
    (hvalid : result.valid = true) :
    ∃ claims jwk text hash now iat jti,
      DpopAccepted engine proof options trace claims jwk text hash now iat jti := by
  rw [verifyDpopProof] at h
  split_ifs at h
  · obtain ⟨-, hresult⟩ := run_pure_iff.mp h
    cases hresult
    cases hvalid
  · obtain ⟨-, hresult⟩ := run_pure_iff.mp h
    cases hresult
    cases hvalid
  · obtain ⟨outcome, t, u, rfl, ht, hu⟩ := run_bind_ok_iff.mp h
    obtain ⟨r, hr, houtcome⟩ := run_attempt_iff.mp ht
    obtain rfl := Except.ok.inj houtcome
    rcases outcome with e | value
    · obtain ⟨-, hresult⟩ := run_pure_iff.mp hu
      cases hresult
      cases hvalid
    · obtain ⟨rfl, hresult⟩ := run_pure_iff.mp hu
      obtain rfl := Except.ok.inj hresult
      rw [List.append_nil]
      exact verifyProofParts_valid hr hvalid

end Oati.TypeScript

import Oati.Cli.Signature
import Oati.Go.Canonical
import Oati.Python.Crypto

/-!
# Verification in Go

`VerifyDocument` of the SDK, on a document and a trust bundle that were decoded from JSON. The
reasons are collected as a list, in the order of the checks; the result is sorted and without
repetitions.

Instants and durations are nanoseconds. `CryptoRuntime` holds what the standard library does. A
document that is copied through `json.Marshal` stays the same.
-/

namespace Oati.Go

open Oati.Cli (decodeString setBytes equalsText equalsFalse)
open Python.Crypto (splitDots)

/-- The parts of the standard library that a verification uses. -/
structure CryptoRuntime where
  times : Runtime
  primitives : Oati.Cli.Runtime
  /-- The shortest digits of a double. -/
  digits : ℚ → Double.Digits

/-- `reasons[code] = true` under a condition. -/
def reasonIf (condition : Bool) (code : String) : List String := if condition then [code] else []

/-- `30 * time.Second`. -/
def skew : ℤ := 30 * 1000000000

/-- `a.Sub(b)`, which stays in the range of a `time.Duration`. -/
def subTime (a b : ℤ) : ℤ := max (-maxInt - 1) (min (a - b) maxInt)

/-! ### The proof -/

/-- The audience of a proof is a text, or a list of texts. -/
def audienceValid (audience : Option Value) : Bool :=
  match audience with
  | some (.arr raw) =>
    !raw.isEmpty && (raw.filterMap Json.string?).length == raw.length
      && (raw.filterMap Json.string?).all (· != "")
  | audience => str audience != ""

/-- The suite of an algorithm. -/
def suiteOf (algorithm : String) : Option String :=
  if algorithm = "EdDSA" then some "eddsa-jcs-2022"
  else if algorithm = "ES256" then some "ecdsa-jcs-2019"
  else none

/-- `validConformanceProof` on a map. -/
def validConformanceProof (proof : Object) : Bool :=
  let text (key : String) := str (proof.lookup key)
  text "type" == "OatiJwsProof2026" && text "verification_method" != ""
    && text "proof_purpose" == "assertionMethod" && 16 ≤ (text "nonce").utf8ByteSize
    && suiteOf (text "algorithm") == some (text "cryptosuite")
    && text "created" != "" && text "expires" != "" && text "signature" != ""
    && audienceValid (proof.lookup "audience")
    && match splitDots (text "signature").toList with
      | [header, encoded] => header != [] && encoded != []
      | _ => false

/-! ### The key -/

/-- The JWK is not one of the algorithm. -/
def wrongJwk (algorithm : String) (jwk : Option Object) : Bool :=
  if algorithm = "EdDSA" then
    str (index jwk "kty") != "OKP" || str (index jwk "crv") != "Ed25519"
  else if algorithm = "ES256" then
    str (index jwk "kty") != "EC" || str (index jwk "crv") != "P-256"
  else true

/-- `validEd25519PublicKey`, which has the text of the function of the command line. -/
def validEd25519PublicKey (encoded : List UInt8) : Bool := Oati.Cli.validEd25519PublicKey encoded

/-- The key was not valid when the proof was created. -/
def outsidePeriod (times : Runtime) (key : Object) (created : ℤ) : Bool :=
  let validUntil := str (key.lookup "valid_until")
  (match parseTime times (str (key.lookup "valid_from")) with
    | some validFrom => decide (created < validFrom - skew)
    | none => true)
    || validUntil != "" && match parseTime times validUntil with
      | some until' => decide (until' + skew ≤ created)
      | none => true

/-- `checkKeyConformance`. -/
def checkKeyConformance (times : Runtime) (key proof : Object) (created now : ℤ) : List String :=
  let algorithm := str (key.lookup "algorithm")
  let status := str (key.lookup "status")
  let proofStatus := str (key.lookup "proof_status")
  let jwk := object (key.lookup "public_key_jwk")
  let revokedAt := str (key.lookup "revoked_at")
  let foreign := algorithm != str (proof.lookup "algorithm")
    || str (key.lookup "id") != str (proof.lookup "verification_method")
    || proofStatus != "" && proofStatus != "verified"
  let point := algorithm == "EdDSA"
    && !(decodeString (str (index jwk "x")).toList).any validEd25519PublicKey
  let unknown := !(["active", "retired", "revoked"].contains status)
  let endless := status == "retired" && str (key.lookup "valid_until") == ""
  let unreadable := revokedAt != "" && (parseTime times revokedAt).isNone
  reasonIf (foreign || wrongJwk algorithm jwk || point || unknown || endless
      || outsidePeriod times key created || unreadable) "KEY_INVALID"
    ++ reasonIf (status == "revoked"
      || revokedAt != "" && (parseTime times revokedAt).any (decide <| · ≤ now)) "KEY_REVOKED"

/-! ### Revocations and issuers -/

/-- One target of `checkBundleRevocations`. -/
def checkTarget (times : Runtime) (bundle : Object) (now : ℤ) (target code : String) :
    List String :=
  if target = "" then []
  else if (stringsFrom (bundle.lookup "unavailable_targets")).contains target then
    ["REVOCATION_UNAVAILABLE"]
  else
    let revocations := match bundle.lookup "revocations" with
      | some (.arr items) => items
      | _ => []
    match revocations.filter fun raw => str (index (object (some raw)) "target") == target with
    | [] => []
    | [raw] =>
      let status := object (some raw)
      let effective := str (index status "effective_at")
      reasonIf (str (index status "status") != "good"
        && !(effective != "" && (parseTime times effective).any (decide <| now < ·))) code
    | _ => ["REVOCATION_UNAVAILABLE"]

/-- `checkBundleRevocations` for the key, the issuer and the document. -/
def checkBundleRevocations (times : Runtime) (bundle : Object) (now : ℤ)
    (key issuer document : String) : List String :=
  checkTarget times bundle now key "KEY_REVOKED"
    ++ checkTarget times bundle now issuer "ISSUER_REVOKED"
    ++ checkTarget times bundle now document "DOCUMENT_REVOKED"

/-- A time of an issuer that is given, and cannot be read or meets the condition. -/
def violates (times : Runtime) (value : String) (condition : ℤ → Bool) : Bool :=
  value != "" && (parseTime times value).all condition

/-- The issuer is not active, revoked, or outside its period. -/
def issuerClosed (times : Runtime) (issuer : Option Object) (now : ℤ) : Bool :=
  str (index issuer "status") != "active"
    || violates times (str (index issuer "revoked_at")) (fun revoked => revoked ≤ now)
    || violates times (str (index issuer "valid_from")) (fun start => now + skew < start)
    || violates times (str (index issuer "valid_until")) (fun until' => until' ≤ now - skew)

/-- The loop of `checkIssuerChain`, for `rounds` more issuers. -/
def checkIssuerChain (times : Runtime) (bundle : Object) (now : ℤ) :
    ℕ → List String → String → List String
  | 0, _, _ => ["ISSUER_NOT_TRUSTED"]
  | rounds + 1, visited, current =>
    if visited.contains current then ["ISSUER_NOT_TRUSTED"]
    else
      let revoked := checkTarget times bundle now current "ISSUER_REVOKED"
      if (stringsFrom (bundle.lookup "trust_anchors")).contains current then revoked
      else
        let issuers := match bundle.lookup "issuers" with
          | some (.arr items) => items
          | _ => []
        let issuer := (issuers.find? fun raw =>
          str (index (object (some raw)) "id") == current).bind fun raw => object (some raw)
        let proofStatus := str (index issuer "proof_status")
        let parent := str (index issuer "parent")
        if issuer.isNone || proofStatus != "" && proofStatus != "verified" then
          revoked ++ ["ISSUER_NOT_TRUSTED"]
        else if issuerClosed times issuer now then revoked ++ ["ISSUER_REVOKED"]
        else if parent = "" then revoked ++ ["ISSUER_NOT_TRUSTED"]
        else revoked ++ checkIssuerChain times bundle now rounds (current :: visited) parent

/-! ### The signature -/

/-- The protected header names the algorithm and the key of the proof. -/
def headerMatches (header proof : Object) : Bool :=
  str (header.lookup "alg") == str (proof.lookup "algorithm")
    && str (header.lookup "kid") == str (proof.lookup "verification_method")
    && equalsFalse (header.lookup "b64") && str (header.lookup "typ") == "oati+jws"
    && stringsFrom (header.lookup "crit") == ["b64"]

/-- The document without the signature of its proof. -/
def unsigned (document proof : Object) : Object :=
  JsonText.insertMember document "proof" (.obj (proof.filter fun m => m.1 ≠ "signature"))

/-- The bytes that are verified by the routine of the algorithm. -/
def verifyRoutine (runtime : CryptoRuntime) (algorithm : String) (jwk : Option Object)
    (message signature : List UInt8) : Bool :=
  if algorithm = "EdDSA" then
    (decodeString (str (index jwk "x")).toList).any fun publicKey =>
      validEd25519PublicKey publicKey && validEd25519PublicKey (signature.take 32)
        && runtime.primitives.ed25519Verify publicKey message signature
  else if algorithm = "ES256" ∧ signature.length = 64 then
    (decodeString (str (index jwk "x")).toList).any fun x =>
      (decodeString (str (index jwk "y")).toList).any fun y =>
        runtime.primitives.ecdsaVerify (setBytes x) (setBytes y)
          (runtime.primitives.sha256 message) (setBytes (signature.take 32))
          (setBytes (signature.drop 32))
  else false

/-- `verifyConformanceSignature`. -/
def verifyConformanceSignature (runtime : CryptoRuntime) (document proof key : Object) : Bool :=
  match splitDots (str (proof.lookup "signature")).toList with
  | [header, encoded] =>
    (decodeString header).any fun headerBytes =>
      (runtime.primitives.unmarshal headerBytes).any fun fields =>
        headerMatches fields proof && (decodeString encoded).any fun signature =>
          match canonicalJSON runtime.digits ((Json.obj (unsigned document proof)).map .number) with
          | .ok payload =>
            verifyRoutine runtime (str (proof.lookup "algorithm"))
              (object (key.lookup "public_key_jwk"))
              (Utf8.encode (header ++ '.' :: payload.toList)) signature
          | .error _ => false
  | _ => false

/-! ### `VerifyDocument` -/

/-- The claimed signer is neither the controller nor the issuer of the key. -/
def foreignClaim (document key : Object) : Bool :=
  let claimed := if str (document.lookup "issuer") = "" then str (document.lookup "agent_id")
    else str (document.lookup "issuer")
  claimed != "" && claimed != str (key.lookup "controller") && claimed != str (key.lookup "issuer")

/-- The reasons under a key. -/
def keyReasons (runtime : CryptoRuntime) (document proof key bundle : Object) (created now : ℤ) :
    List String :=
  let reasons := checkKeyConformance runtime.times key proof created now
    ++ checkIssuerChain runtime.times bundle now 9 [] (str (key.lookup "issuer"))
    ++ checkBundleRevocations runtime.times bundle now (str (key.lookup "id"))
      (str (key.lookup "issuer")) (str (document.lookup "id"))
    ++ reasonIf (foreignClaim document key) "KEY_INVALID"
  reasons ++ reasonIf (!reasons.contains "KEY_INVALID"
    && !verifyConformanceSignature runtime document proof key) "SIGNATURE_INVALID"

/-- The reasons of the times of the proof. -/
def checkTimes (created expires now : ℤ) : List String :=
  reasonIf (expires ≤ now - skew) "PROOF_EXPIRED"
    ++ reasonIf (5 * 60 * 1000000000 + skew < subTime now created) "PROOF_TOO_OLD"
    ++ reasonIf (now + skew < created) "PROOF_NOT_YET_VALID"

/-- The audiences of the proof. -/
def audiences (proof : Object) : List String :=
  let text := str (proof.lookup "audience")
  if text != "" then [text] else stringsFrom (proof.lookup "audience")

/-- The key of the proof: the last one of its name. -/
def findKey (bundle proof : Object) : Option Object :=
  let keys := match bundle.lookup "keys" with
    | some (.arr items) => items
    | _ => []
  (keys.reverse.find? fun raw =>
    str (index (object (some raw)) "id") == str (proof.lookup "verification_method")).bind
      fun raw => object (some raw)

/-- A replay cache: the keys it has accepted. -/
abbrev ReplayCache := List String

/-- The last check: the replay cache, which only sees a proof without reasons. -/
def acceptOnce (replay : Option ReplayCache) (key : String) (reasons : List String) :
    List String × Option ReplayCache :=
  match reasons, replay with
  | [], some seen =>
    if key ∈ seen then (["REPLAY_DETECTED"], some seen) else ([], some (key :: seen))
  | reasons, replay => (sortStrings reasons.dedup, replay)

/-- `VerifyDocument`. -/
def verifyDocument (runtime : CryptoRuntime) (document bundle : Object) (audience : String)
    (now : ℤ) (replay : Option ReplayCache) : List String × Option ReplayCache :=
  match document.lookup "proof" with
  | none | some .null => (["PROOF_MISSING"], replay)
  | some (.obj proof) =>
    if !validConformanceProof proof then (["PROOF_MALFORMED"], replay)
    else match parseTime runtime.times (str (proof.lookup "created")),
        parseTime runtime.times (str (proof.lookup "expires")) with
      | some created, some expires =>
        if expires ≤ created then (["PROOF_MALFORMED"], replay)
        else
          let times := checkTimes created expires now
            ++ reasonIf (!(audiences proof).contains audience) "AUDIENCE_MISMATCH"
          let reasons := times ++ match findKey bundle proof with
            | none => ["KEY_NOT_FOUND"]
            | some key => keyReasons runtime document proof key bundle created now
          acceptOnce replay (str (proof.lookup "verification_method") ++ "\x00" ++ audience
            ++ "\x00" ++ str (proof.lookup "nonce")) reasons
      | _, _ => (["PROOF_MALFORMED"], replay)
  | some _ => (["PROOF_MALFORMED"], replay)

end Oati.Go

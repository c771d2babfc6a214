import Oati.Cli.Signature
import Oati.Go.Crypto

/-!
# Verification on the command line

`verifyObject` under a trust bundle, which `runVerify` reads into structs: a member that is absent
is the empty text. Issues are collected in the order of the checks, and none is repeated.

Instants and durations are nanoseconds; the clock skew and the maximal age are flags.
-/

namespace Oati.Cli

open Go (Value Object str parseTime)

/-! ### Bundles and reports -/

/-- `verificationKey`. -/
structure VerificationKey where
  id : String := ""
  controller : String := ""
  issuer : String := ""
  algorithm : String := ""
  publicKeyJwk : Jwk
  status : String := ""
  validFrom : String := ""
  validUntil : String := ""
  revokedAt : String := ""
  proofStatus : String := ""

/-- `trustedIssuer`. -/
structure TrustedIssuer where
  id : String := ""
  parent : String := ""
  status : String := ""
  validFrom : String := ""
  validUntil : String := ""
  revokedAt : String := ""
  proofStatus : String := ""

/-- `revocationStatus`. -/
structure RevocationStatus where
  target : String := ""
  status : String := ""
  effectiveAt : String := ""

/-- `trustBundle`. -/
structure TrustBundle where
  trustAnchors : List String := []
  keys : List VerificationKey := []
  issuers : List TrustedIssuer := []
  revocations : List RevocationStatus := []

/-- `verificationIssue`. -/
structure VerificationIssue where
  code : String
  message : String
  deriving DecidableEq, Repr

abbrev Issues := List VerificationIssue

/-- `verificationReport`. -/
structure VerificationReport where
  verified : Bool := false
  algorithm : String := ""
  verificationMethod : String := ""
  issuer : String := ""
  issues : Issues

/-- The parts of the standard library that a verification uses. -/
structure VerifierRuntime where
  times : Go.Runtime
  primitives : Runtime
  /-- The text of the error of `verifySignature`. -/
  signatureMessage : Object → Proof → Jwk → String

/-- `addIssue`. -/
def addIssue (issues : Issues) (code message : String) : Issues :=
  if issues.contains ⟨code, message⟩ then issues else issues ++ [⟨code, message⟩]

/-- An issue under a condition. -/
def addIssueIf (condition : Bool) (issues : Issues) (code message : String) : Issues :=
  if condition then addIssue issues code message else issues

/-- `hasIssue`. -/
def hasIssue (issues : Issues) (code : String) : Bool :=
  issues.any fun existing => existing.code == code

theorem addIssue_ne_nil (issues : Issues) (code message : String) :
    addIssue issues code message ≠ [] := by
  unfold addIssue
  split_ifs with h
  · rintro rfl
    cases h
  · exact List.append_ne_nil_of_right_ne_nil _ (List.cons_ne_nil _ _)

theorem addIssueIf_eq_nil {condition : Bool} {issues : Issues} {code message : String} :
    addIssueIf condition issues code message = [] ↔ issues = [] ∧ condition = false := by
  cases condition
  · simp [addIssueIf]
  · simp [addIssueIf, addIssue_ne_nil]

/-! ### The proof and the document -/

/-- `audienceContains`. -/
def audienceContains (value : Option Value) (expected : String) : Bool :=
  match value with
  | some (.str single) => single == expected
  | some (.arr list) => list.any fun item => equalsText (some item) expected
  | _ => false

/-- The times of the proof. The sum of two durations wraps around. -/
def checkProofTimes (runtime : VerifierRuntime) (p : Proof) (now maxAge skew : ℤ)
    (issues : Issues) : Issues :=
  match parseTime runtime.times p.created, parseTime runtime.times p.expires with
  | some created, some expires =>
    if expires ≤ created then addIssue issues "PROOF_MALFORMED" "proof timestamps are invalid"
    else
      let future := addIssueIf (now + skew < created) issues "PROOF_NOT_YET_VALID"
        "proof creation time is in the future"
      let expired := addIssueIf (expires ≤ now + Go.wrap (-skew)) future "PROOF_EXPIRED"
        "proof has expired"
      addIssueIf (Go.wrap (maxAge + skew) < Go.subTime now created) expired "PROOF_TOO_OLD"
        "proof exceeds maximum accepted age"
  | _, _ => addIssue issues "PROOF_MALFORMED" "proof timestamps are invalid"

/-- `checkDocumentTimes`. -/
def checkDocumentTimes (runtime : VerifierRuntime) (value : Object) (now skew : ℤ)
    (issues : Issues) : Issues :=
  let start := if str (value.lookup "not_before") = "" then str (value.lookup "issued_at")
    else str (value.lookup "not_before")
  let end' := str (value.lookup "expires_at")
  let early := addIssueIf (start != ""
      && (parseTime runtime.times start).all fun parsed => now + skew < parsed)
    issues "DOCUMENT_NOT_YET_VALID" "document is not active yet"
  addIssueIf (end' != ""
      && (parseTime runtime.times end').all fun parsed => parsed ≤ now + Go.wrap (-skew))
    early "DOCUMENT_EXPIRED" "document has expired"

/-! ### The key -/

/-- `findKey`. -/
def findKey (keys : List VerificationKey) (id : String) : Option VerificationKey :=
  keys.find? fun key => key.id == id

/-- `parseOptionalTime`. -/
def parseOptionalTime (runtime : VerifierRuntime) (value : String) : Option ℤ :=
  if value = "" then none else parseTime runtime.times value

/-- The checks of the key against the proof. -/
def checkKeyMetadata (key : VerificationKey) (p : Proof) (issues : Issues) : Issues :=
  let foreign := addIssueIf (key.id != p.verificationMethod || key.algorithm != p.algorithm
      || key.proofStatus != "" && key.proofStatus != "verified")
    issues "KEY_INVALID" "resolved key metadata does not match proof"
  let point := addIssueIf (key.algorithm == "EdDSA"
      && !(decodeString key.publicKeyJwk.x.toList).any validEd25519PublicKey)
    foreign "KEY_INVALID" "Ed25519 public key is invalid or has small order"
  let unknown := addIssueIf (!(["active", "retired", "revoked"].contains key.status)) point
    "KEY_INVALID" "verification key has an unsupported status"
  addIssueIf (key.status == "retired" && key.validUntil == "") unknown
    "KEY_INVALID" "retired verification keys require valid_until"

/-- `checkKeyLifecycle`. -/
def checkKeyLifecycle (runtime : VerifierRuntime) (key : VerificationKey)
    (created now skew : ℤ) (issues : Issues) : Issues :=
  let early := addIssueIf ((parseTime runtime.times key.validFrom).all fun start =>
      created < start + Go.wrap (-skew))
    issues "KEY_INVALID" "key was not valid when proof was created"
  let late := addIssueIf (key.validUntil != ""
      && (parseOptionalTime runtime key.validUntil).all fun until' => until' + skew ≤ created)
    early "KEY_INVALID" "key was not valid when proof was created"
  let revoked := addIssueIf (key.status == "revoked") late
    "KEY_REVOKED" "verification key is revoked"
  if key.revokedAt = "" then revoked
  else match parseOptionalTime runtime key.revokedAt with
    | none => addIssue revoked "KEY_INVALID"
        "verification key has an invalid revocation timestamp"
    | some revokedAt => addIssueIf (revokedAt ≤ now) revoked
        "KEY_REVOKED" "verification key is revoked"

/-! ### Revocations and issuers -/

/-- `checkRevocationTarget`. -/
def checkRevocationTarget (runtime : VerifierRuntime) (target code : String)
    (statuses : List RevocationStatus) (now : ℤ) (issues : Issues) : Issues :=
  if target = "" then issues
  else match statuses.filter fun status => status.target == target with
    | [] => issues
    | [found] =>
      if found.status = "good" then issues
      else if found.status ≠ "revoked" ∧ found.status ≠ "suspended" then
        addIssue issues "REVOCATION_UNAVAILABLE" ("revocation status is invalid for " ++ target)
      else if found.effectiveAt = "" then
        addIssue issues code (target ++ " is " ++ found.status)
      else match parseOptionalTime runtime found.effectiveAt with
        | none => addIssue issues "REVOCATION_UNAVAILABLE"
            ("revocation effective time is invalid for " ++ target)
        | some effective => addIssueIf (effective ≤ now) issues code
            (target ++ " is " ++ found.status)
    | _ => addIssue issues "REVOCATION_UNAVAILABLE"
        ("revocation status is ambiguous for " ++ target)

/-- `checkRevocations`. -/
def checkRevocations (runtime : VerifierRuntime) (value : Object) (key : VerificationKey)
    (statuses : List RevocationStatus) (now : ℤ) (issues : Issues) : Issues :=
  [(key.id, "KEY_REVOKED"), (key.issuer, "ISSUER_REVOKED"),
    (str (value.lookup "id"), "DOCUMENT_REVOKED")].foldl (fun issues target =>
      checkRevocationTarget runtime target.1 target.2 statuses now issues) issues

/-- What the chain says of an issuer that is not active, revoked, or outside its period. -/
def issuerIssue (runtime : VerifierRuntime) (found : TrustedIssuer) (now skew : ℤ) :
    Option String :=
  let violates (value : String) (condition : ℤ → Bool) : Bool :=
    value != "" && (parseOptionalTime runtime value).all condition
  if found.status ≠ "active" then some "issuer is not active"
  else if violates found.revokedAt (fun revoked => revoked ≤ now) then
    some "issuer has invalid or effective revocation metadata"
  else if violates found.validFrom (fun start => now + skew < start) then
    some "issuer is outside validity period"
  else if violates found.validUntil (fun until' => until' ≤ now + Go.wrap (-skew)) then
    some "issuer is outside validity period"
  else none

/-- The loop of `validateIssuerChain`, for `rounds` more issuers: the anchor, or the empty text. -/
def validateIssuerChain (runtime : VerifierRuntime) (bundle : TrustBundle) (now skew : ℤ) :
    ℕ → List String → String → Issues → String × Issues
  | 0, _, _, issues => ("", addIssue issues "ISSUER_NOT_TRUSTED"
      "issuer chain does not reach a configured trust anchor")
  | rounds + 1, visited, current, issues =>
    let checked := checkRevocationTarget runtime current "ISSUER_REVOKED" bundle.revocations now
      issues
    let untrusted := ("", addIssue checked "ISSUER_NOT_TRUSTED"
      "issuer chain does not reach a configured trust anchor")
    if bundle.trustAnchors.contains current then (current, checked)
    else if visited.contains current then untrusted
    else match bundle.issuers.find? fun issuer => issuer.id == current with
      | none => untrusted
      | some found =>
        if found.proofStatus ≠ "" ∧ found.proofStatus ≠ "verified" then untrusted
        else match issuerIssue runtime found now skew with
          | some message => ("", addIssue checked "ISSUER_REVOKED" message)
          | none =>
            if found.parent = "" then untrusted
            else validateIssuerChain runtime bundle now skew rounds (current :: visited)
              found.parent checked

/-! ### `verifyObject` -/

/-- The signer that the document claims. -/
def claimedSigner (value : Object) : String :=
  if str (value.lookup "issuer") = "" then str (value.lookup "agent_id")
  else str (value.lookup "issuer")

/-- The key is not bound to the claimed signer. -/
def foreignClaim (value : Object) (key : VerificationKey) : Bool :=
  claimedSigner value != "" && claimedSigner value != key.controller
    && claimedSigner value != key.issuer

/-- The part of `verifyObject` under a key. -/
def verifyWithKey (runtime : VerifierRuntime) (value : Object) (bundle : TrustBundle) (p : Proof)
    (key : VerificationKey) (now skew : ℤ) (issues : Issues) : VerificationReport :=
  let created := (parseTime runtime.times p.created).getD Go.zeroTime
  let checked := checkKeyLifecycle runtime key created now skew (checkKeyMetadata key p issues)
  let chain := validateIssuerChain runtime bundle now skew 9 [] key.issuer checked
  let revoked := checkRevocations runtime value key bundle.revocations now chain.2
  let bound := addIssueIf (foreignClaim value key) revoked
    "KEY_INVALID" "key is not bound to the document signer"
  let all := addIssueIf (!hasIssue bound "KEY_INVALID"
      && !verifySignature runtime.primitives value p key.publicKeyJwk) bound
    "SIGNATURE_INVALID" (runtime.signatureMessage value p key.publicKeyJwk)
  { verified := all.isEmpty, algorithm := p.algorithm, verificationMethod := p.verificationMethod,
    issuer := chain.1, issues := all }

/-- `verifyObject`. -/
def verifyObject (runtime : VerifierRuntime) (value : Object) (bundle : TrustBundle)
    (audience : String) (now maxAge skew : ℤ) : VerificationReport :=
  match value.lookup "proof" with
  | none | some .null =>
    { issues := addIssue [] "PROOF_MISSING" "OATI proof is required" }
  | rawProof =>
    match parseProof rawProof with
    | .error message => { issues := addIssue [] "PROOF_MALFORMED" message }
    | .ok p =>
      let algorithm := addIssueIf (p.algorithm != "EdDSA" && p.algorithm != "ES256") []
        "ALGORITHM_NOT_ALLOWED" "proof algorithm is not allowed"
      let times := checkProofTimes runtime p now maxAge skew algorithm
      let heard := addIssueIf (!audienceContains p.audience audience) times
        "AUDIENCE_MISMATCH" "proof does not contain the expected audience"
      let issues := checkDocumentTimes runtime value now skew heard
      match findKey bundle.keys p.verificationMethod with
      | none =>
        { algorithm := p.algorithm, verificationMethod := p.verificationMethod,
          issues := addIssue issues "KEY_NOT_FOUND" "verification key was not found" }
      | some key => verifyWithKey runtime value bundle p key now skew issues

/-- A report that verifies has found a key that is bound to the claimed signer, and whose signature
verifies. -/
theorem verifyObject_verified {runtime : VerifierRuntime} {value : Object} {bundle : TrustBundle}
    {audience : String} {now maxAge skew : ℤ}
    (h : (verifyObject runtime value bundle audience now maxAge skew).verified = true) :
    ∃ p key, Verifies runtime.primitives key.publicKeyJwk value p ∧
      findKey bundle.keys p.verificationMethod = some key ∧ foreignClaim value key = false := by
  have hkeyed : ∃ p key issues, parseProof (value.lookup "proof") = .ok p ∧
      findKey bundle.keys p.verificationMethod = some key ∧
      (verifyWithKey runtime value bundle p key now skew issues).verified = true := by
    unfold verifyObject at h
    split at h
    · cases h
    · cases h
    · split at h
      · cases h
      · next p hp =>
        split at h
        · cases h
        · next key hkey => exact ⟨p, key, _, hp, hkey, h⟩
  obtain ⟨p, key, issues, hp, hkey, hverified⟩ := hkeyed
  have hempty := List.isEmpty_iff.mp hverified
  obtain ⟨hbound, hsigned⟩ := addIssueIf_eq_nil.mp hempty
  obtain ⟨-, hforeign⟩ := addIssueIf_eq_nil.mp hbound
  refine ⟨p, key, ⟨hp, ?_⟩, hkey, hforeign⟩
  rw [hbound] at hsigned
  simpa [hasIssue] using hsigned

end Oati.Cli

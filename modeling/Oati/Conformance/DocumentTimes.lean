import Oati.Go.Acceptance
import Oati.Python.SignatureCheck

/-!
# The window of a document

A document is active from `not_before`, or without it from `issued_at`, until `expires_at`, give or
take the clock skew. `VerifyDocument` of the Go SDK and `verify_document` of the Python SDK do not
look at it: what they say of a document depends on these members through the signature alone
(`verifyDocument_congr`), and they accept it outside its window as soon as their own checks pass.
-/

namespace Oati.Conformance

variable {N : Type}

/-- A member that is a string. -/
def textMember (document : List (String × Json N)) (name : String) : Option String :=
  (document.lookup name).bind Json.string?

/-- The document is active at a time, where `instant` reads a time. -/
structure InWindow (instant : String → Option ℤ) (now skew : ℤ)
    (document : List (String × Json N)) : Prop where
  started : ∀ s, (textMember document "not_before").or (textMember document "issued_at") = some s →
    ∃ start, instant s = some start ∧ start ≤ now + skew
  lasting : ∀ s, textMember document "expires_at" = some s →
    ∃ expires, instant s = some expires ∧ now - skew < expires

/-- Two documents that differ in the members of the window only. -/
def SameBesidesWindow (document document' : List (String × Json N)) : Prop :=
  ∀ name, name ∉ ["not_before", "issued_at", "expires_at"] →
    document.lookup name = document'.lookup name

/-- A verdict implies the window exactly where the window holds, or what the verdict rests on does
not. -/
theorem implies_window_iff {accepts inWindow passes : Prop} (h : accepts ↔ passes) :
    (accepts → inWindow) ↔ inWindow ∨ ¬ passes := by
  rw [h]
  tauto

end Oati.Conformance

/-! ### The Go SDK -/

namespace Oati.Go

open Conformance (SameBesidesWindow)

variable {runtime : CryptoRuntime} {document document' : Object}

/-- The reasons depend on the members of the window through the signature alone. -/
theorem verifyDocument_congr (hsame : SameBesidesWindow document document')
    (hsignature : ∀ proof key, verifyConformanceSignature runtime document proof key
      = verifyConformanceSignature runtime document' proof key)
    (bundle : Object) (audience : String) (now : ℤ) (replay : Option ReplayCache) :
    verifyDocument runtime document bundle audience now replay
      = verifyDocument runtime document' bundle audience now replay := by
  have hproof := hsame "proof" (by decide)
  have hclaim : ∀ key, foreignClaim document key = foreignClaim document' key := by
    intro key
    unfold foreignClaim
    rw [hsame "issuer" (by decide), hsame "agent_id" (by decide)]
  have hkey : ∀ proof key created, keyReasons runtime document proof key bundle created now
      = keyReasons runtime document' proof key bundle created now := by
    intro proof key created
    unfold keyReasons
    rw [hclaim, hsignature, hsame "id" (by decide)]
  unfold verifyDocument
  simp only [hproof, hkey]

end Oati.Go

/-! ### The Python SDK -/

namespace Oati.Python.Crypto

open Conformance (SameBesidesWindow)

variable {runtime : Runtime} {document document' : Dict}

/-- The codes depend on the members of the window through the signature alone. -/
theorem verifyDocument_congr (hsame : SameBesidesWindow document document')
    (hsignature : ∀ proof key, checkSignature runtime document proof key
      = checkSignature runtime document' proof key)
    (bundle : Bundle) (audience now : String) (replay : Option ReplayCache) :
    verifyDocument runtime document bundle audience now replay
      = verifyDocument runtime document' bundle audience now replay := by
  have hproof : get document "proof" = get document' "proof" := by
    rw [get, get, hsame "proof" (by decide)]
  have hid : get document "id" = get document' "id" := by
    rw [get, get, hsame "id" (by decide)]
  have hagent : get document "agent_id" = get document' "agent_id" := by
    rw [get, get, hsame "agent_id" (by decide)]
  have hclaim : ∀ key, foreignClaim document key = foreignClaim document' key := by
    intro key
    unfold foreignClaim
    rw [hsame "issuer" (by decide), hagent]
  have hcodes : ∀ proof key codes, signatureCodes runtime document proof key codes
      = signatureCodes runtime document' proof key codes := by
    intro proof key codes
    unfold signatureCodes
    rw [hsignature]
  have hproofCodes : ∀ proof created expires current,
      proofCodes runtime document proof bundle audience created expires current
        = proofCodes runtime document' proof bundle audience created expires current := by
    intro proof created expires current
    unfold proofCodes keyCodes
    simp only [hid, hclaim, hcodes]
  unfold verifyDocument
  simp only [hproof, hproofCodes]

end Oati.Python.Crypto

/-! ### Both -/

namespace Oati.Conformance

section Late

open Go

/-- The signature of the late document by the key of the command line's sample. -/
def lateSignatureText : List Char :=
  ["wwaj5p_QXcZGopod6N9rqV5VmalrMVRESwSR6oT4Aot",
    "ZClNU263iT4gZR41_AZmM3ngeyXjaSBQvUXVJqOF7AA"].flatMap String.toList

def lateProof : Object :=
  [("algorithm", .str "ES256"), ("audience", .str "shop"),
    ("created", .str "2026-07-27T12:00:00Z"), ("cryptosuite", .str "ecdsa-jcs-2019"),
    ("expires", .str "2026-07-27T12:05:00Z"), ("nonce", .str "0123456789abcdef"),
    ("proof_purpose", .str "assertionMethod"),
    ("signature", .str (String.ofList (Cli.sampleHeaderText ++ '.' :: '.' :: lateSignatureText))),
    ("type", .str "OatiJwsProof2026"), ("verification_method", .str "oati:key:1")]

/-- A document that is not active before 2099. -/
def lateDocument : Object :=
  [("id", .str "oati:mandate:1"), ("not_before", .str "2099-01-01T00:00:00Z"),
    ("proof", .obj lateProof)]

/-- The hash of the signed message. -/
def lateDigest : List UInt8 :=
  [25, 43, 136, 198, 245, 80, 95, 47, 147, 37, 107, 197, 77, 110, 73, 10, 253, 140, 149, 80, 32, 39,
    129, 56, 165, 159, 226, 227, 115, 220, 204, 80]

/-- The numbers of the signature. -/
def lateR : ℕ := 88212737758398247647437739937604040997847408514992993035279362207290781860491
def lateS : ℕ := 40274087127275719680714120336474569860895379775055801273532460207665808767744

def lateRuntime : CryptoRuntime where
  times := plainRuntime
  primitives :=
    { Cli.sampleRuntime with
      sha256 := fun _ => lateDigest
      ecdsaVerify := fun x y digest r s =>
        x = Cli.sampleX && y = Cli.sampleY && digest = lateDigest && r = lateR && s = lateS }
  digits := fun _ => { significand := 0, point := 0 }

def lateKey : Object :=
  [("id", .str "oati:key:1"), ("issuer", .str "oati:issuer:root"), ("algorithm", .str "ES256"),
    ("status", .str "active"), ("valid_from", .str "2026-01-01T00:00:00Z"),
    ("public_key_jwk", .obj [("kty", .str "EC"), ("crv", .str "P-256"),
      ("x", .str Cli.sampleKey.x), ("y", .str Cli.sampleKey.y)])]

def lateBundle : Object :=
  [("keys", .arr [.obj lateKey]), ("trust_anchors", .arr [.str "oati:issuer:root"])]

/-- A minute after the proof was created. -/
def lateNow : ℤ := 1785153660000000000

/-- No dot stands in the parts of the signature, and neither is empty. -/
theorem chars_late : ([Cli.sampleHeaderText, lateSignatureText].all fun part =>
    part != [] && !part.contains '.') = true := by
  decide

/-- What the texts decode to. -/
theorem decoded_late :
    (Cli.decodeString Cli.sampleHeaderText).isSome = true ∧
      (Cli.decodeString lateSignatureText).map (fun signature => (signature.length,
        Cli.setBytes (signature.take 32), Cli.setBytes (signature.drop 32)))
        = some (64, lateR, lateS) ∧
      (Cli.decodeString Cli.sampleKey.x.toList).map Cli.setBytes = some Cli.sampleX ∧
      (Cli.decodeString Cli.sampleKey.y.toList).map Cli.setBytes = some Cli.sampleY := by
  decide

theorem splitDots_late : Python.Crypto.splitDots (str (lateProof.lookup "signature")).toList
    = [Cli.sampleHeaderText, lateSignatureText] := by
  have hchars : (str (lateProof.lookup "signature")).toList
      = Cli.sampleHeaderText ++ '.' :: '.' :: lateSignatureText := String.toList_ofList
  have hparts := chars_late
  simp only [List.all_cons, List.all_nil, Bool.and_eq_true, Bool.not_eq_true', List.contains_eq_mem,
    decide_eq_false_iff_not] at hparts
  rw [hchars]
  exact Python.Crypto.splitDots_append hparts.1.2 hparts.2.1.2

theorem wellFormed_late : validConformanceProof lateProof = true := by
  have hsignature : (str (lateProof.lookup "signature") != "") = true := by
    rw [bne_iff_ne]
    intro hempty
    have hparts := splitDots_late
    rw [hempty] at hparts
    exact absurd (congrArg List.length hparts) (by decide)
  have hnonempty : (Cli.sampleHeaderText != [] && lateSignatureText != []) = true := by
    have hparts := chars_late
    simp only [List.all_cons, List.all_nil, Bool.and_eq_true] at hparts ⊢
    exact ⟨hparts.1.1, hparts.2.1.1⟩
  unfold validConformanceProof
  simp only [hsignature, splitDots_late, hnonempty, Bool.and_true]
  rfl

theorem verifyRoutine_late {message signature : List UInt8} (hlength : signature.length = 64)
    (hr : Cli.setBytes (signature.take 32) = lateR) (hs : Cli.setBytes (signature.drop 32) = lateS) :
    verifyRoutine lateRuntime "ES256" (object (lateKey.lookup "public_key_jwk")) message signature
      = true := by
  obtain ⟨x, hxbytes, hx⟩ := Option.map_eq_some_iff.mp decoded_late.2.2.1
  obtain ⟨y, hybytes, hy⟩ := Option.map_eq_some_iff.mp decoded_late.2.2.2
  have hxtext : str (index (object (lateKey.lookup "public_key_jwk")) "x") = Cli.sampleKey.x := rfl
  have hytext : str (index (object (lateKey.lookup "public_key_jwk")) "y") = Cli.sampleKey.y := rfl
  unfold verifyRoutine
  rw [if_neg (by decide), if_pos ⟨rfl, hlength⟩, hxtext, hytext, hxbytes, Option.any_some, hybytes,
    Option.any_some, hx, hy, hr, hs]
  simp [lateRuntime]

theorem signed_late : verifyConformanceSignature lateRuntime lateDocument lateProof lateKey = true := by
  obtain ⟨bytes, hbytes⟩ := Option.isSome_iff_exists.mp decoded_late.1
  have hheader : lateRuntime.primitives.unmarshal bytes = some Cli.sampleHeader := if_pos hbytes.symm
  obtain ⟨signature, hsignature, hnumbers⟩ := Option.map_eq_some_iff.mp decoded_late.2.1
  simp only [Prod.mk.injEq] at hnumbers
  have hpayload : ∃ payload, canonicalJSON lateRuntime.digits
      ((Json.obj (unsigned lateDocument lateProof)).map .number) = .ok payload := by
    have hliterals : ((Json.obj (unsigned lateDocument lateProof)).map Number.number).numbers = [] :=
      rfl
    refine ⟨_, canonicalJSON_eq ?_ ?_⟩
    · rw [hliterals]
      simp
    · rw [hliterals]
      simp
  obtain ⟨payload, hpayload⟩ := hpayload
  have hmatch : headerMatches Cli.sampleHeader lateProof = true := rfl
  exact (verifyConformanceSignature_eq splitDots_late hbytes hheader hmatch hsignature hpayload).trans
    (verifyRoutine_late hnumbers.1 hnumbers.2.1 hnumbers.2.2)

theorem accepted_late : Accepted lateRuntime lateDocument lateBundle "shop" lateNow lateProof lateKey
    1785153600000000000 1785153900000000000 :=
  ⟨rfl, wellFormed_late, rfl, rfl, by decide, rfl, rfl, rfl, rfl, rfl, rfl, rfl, signed_late⟩

end Late

end Oati.Conformance

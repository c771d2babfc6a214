import Oati.Python.Acceptance

/-!
# When Python has checked the signature

The check of the signature runs inside a `try` whose handler for `KeyError` records no code. Under
a key that passed `_check_key` the only members that can be missing there are the coordinates of an
ES256 key (`checkSignature_keyError`); a verification without codes has run the routine of the
algorithm exactly if they are present.
-/

namespace Oati.Python.Crypto

open Except

variable {runtime : Runtime} {document proof key : Dict}

/-- What the routine of the algorithm is run on: the signed message, the signature and the JWK. -/
def SignedWith (runtime : Runtime) (document proof key : Dict) (message signature : List UInt8)
    (jwk : Value) : Prop :=
  ∃ header encoded text,
    splitDots ((get proof "signature").string?.getD "").toList = [header, encoded] ∧
    canonicalJson runtime.digits (.obj (unsigned document proof)) = .ok text ∧
    message = Utf8.encode (header ++ '.' :: text.toList) ∧
    b64Text encoded = .ok signature ∧ subscript (.obj key) "public_key_jwk" = .ok jwk

/-- The routine of the algorithm was run and returned `True`. -/
def SignatureChecked (runtime : Runtime) (document proof key : Dict) : Prop :=
  ∃ message signature jwk, SignedWith runtime document proof key message signature jwk ∧
    verifySignature runtime (get proof "algorithm") jwk message signature = .ok true

/-- The JWK of the key has both coordinates. -/
def HasCoordinates (key : Dict) : Prop :=
  ∃ jwk, key.lookup "public_key_jwk" = some (.obj jwk) ∧
    (∃ x, jwk.lookup "x" = some x) ∧ ∃ y, jwk.lookup "y" = some y

/-! ### What raises no `KeyError` -/

theorem b64Text_ne_keyError (s : List Char) : b64Text s ≠ .error .keyError := by
  unfold b64Text
  repeat' split
  all_goals simp

theorem b64_ne_keyError (v : Value) : b64 v ≠ .error .keyError := by
  unfold b64
  split
  · exact b64Text_ne_keyError _
  · simp

theorem loads_ne_keyError (bytes : List UInt8) : loads runtime bytes ≠ .error .keyError := by
  unfold loads
  split <;> simp

theorem headerMatches_ne_keyError (header : Json String) :
    headerMatches header proof ≠ .error .keyError := by
  unfold headerMatches
  split <;> simp

theorem signedMessage_ne_keyError (header : List Char) :
    signedMessage runtime header document proof ≠ .error .keyError := by
  unfold signedMessage
  split <;> simp

theorem signedMessage_eq_ok {header : List Char} {message : List UInt8}
    (h : signedMessage runtime header document proof = .ok message) :
    ∃ text, canonicalJson runtime.digits (.obj (unsigned document proof)) = .ok text ∧
      message = Utf8.encode (header ++ '.' :: text.toList) := by
  unfold signedMessage at h
  split at h
  · next text htext => exact ⟨text, htext, (Except.ok.inj h).symm⟩
  · cases h
  · cases h

/-- A coordinate that is read is there, and only one that is missing raises a `KeyError`. -/
theorem coordinate_eq_ok {jwk : Dict} {name : String} {bytes : List UInt8}
    (h : subscript (.obj jwk) name >>= b64 = .ok bytes) : ∃ v, jwk.lookup name = some v := by
  obtain ⟨v, hv, -⟩ := bind_ok_iff.mp h
  unfold subscript at hv
  dsimp only at hv
  split at hv
  · exact ⟨_, ‹_›⟩
  · cases hv

theorem coordinate_keyError {jwk : Dict} {name : String}
    (h : subscript (.obj jwk) name >>= b64 = .error .keyError) : jwk.lookup name = none := by
  rcases bind_error_iff.mp h with hmissing | ⟨v, -, hv⟩
  · unfold subscript at hmissing
    dsimp only at hmissing
    split at hmissing
    · cases hmissing
    · assumption
  · exact absurd hv (b64_ne_keyError v)

/-! ### The routine -/

/-- The routine of ES256 reads both coordinates before it returns `True`. -/
theorem es256Verify_eq_true {jwk : Dict} {message signature : List UInt8}
    (h : es256Verify runtime (.obj jwk) message signature = .ok true) :
    (∃ x, jwk.lookup "x" = some x) ∧ ∃ y, jwk.lookup "y" = some y := by
  unfold es256Verify at h
  dsimp only at h
  split_ifs at h
  · cases h
  · cases h
  · obtain ⟨x, hx, h⟩ := bind_ok_iff.mp h
    obtain ⟨y, hy, -⟩ := bind_ok_iff.mp h
    exact ⟨coordinate_eq_ok hx, coordinate_eq_ok hy⟩

theorem es256Verify_keyError {jwk : Dict} {message signature : List UInt8}
    (h : es256Verify runtime (.obj jwk) message signature = .error .keyError) :
    jwk.lookup "x" = none ∨ jwk.lookup "y" = none := by
  unfold es256Verify at h
  dsimp only at h
  split_ifs at h
  rcases bind_error_iff.mp h with hx | ⟨x, -, h⟩
  · exact .inl (coordinate_keyError hx)
  rcases bind_error_iff.mp h with hy | ⟨y, -, h⟩
  · exact .inr (coordinate_keyError hy)
  · cases h

/-! ### The key that passed its check -/

/-- What `_check_key` establishes about the algorithm and the JWK. -/
theorem checkKey_eq_nil {created current : DateTime}
    (h : checkKey runtime key proof created current = .ok []) :
    equal (get key "algorithm") (get proof "algorithm") = true ∧
      wrongJwk (get key "algorithm") ((key.lookup "public_key_jwk").getD (.obj [])) = .ok false ∧
      (equal (get key "algorithm") (.str "EdDSA") = true →
        wrongPoint ((key.lookup "public_key_jwk").getD (.obj [])) = false) := by
  unfold checkKey at h
  obtain ⟨wrong, hwrong, h⟩ := bind_ok_iff.mp h
  obtain ⟨outside, -, h⟩ := bind_ok_iff.mp h
  obtain ⟨revoked, h⟩ := ite_bind_ok h
  obtain ⟨hinvalid, -⟩ := List.append_eq_nil_iff.mp (Except.ok.inj h)
  have hparts := codeIf_eq_nil.mp hinvalid
  simp only [Bool.or_eq_false_iff, Bool.not_eq_false', Bool.and_eq_false_iff] at hparts
  obtain ⟨⟨⟨⟨⟨⟨⟨⟨halgorithm, -⟩, -⟩, rfl⟩, hpoint⟩, -⟩, -⟩, -⟩, -⟩ := hparts
  refine ⟨halgorithm, hwrong, fun heddsa => ?_⟩
  rcases hpoint with hother | hpoint
  · rw [heddsa] at hother
    cases hother
  · exact hpoint

/-- Only an object has the type and the curve of an algorithm. -/
theorem jwkMatches_eq_true {jwk : Option Value} {kty crv : String}
    (h : jwkMatches (jwk.getD (.obj [])) kty crv = .ok true) : ∃ members, jwk = some (.obj members) := by
  cases jwk with
  | none => simp [jwkMatches, get, equal, Json.equalBy, atomEqual, numeric] at h
  | some v =>
    unfold jwkMatches at h
    split at h
    · next members hv => exact ⟨members, congrArg some hv⟩
    · cases h

theorem wrongJwk_eq_false {algorithm : Value} {jwk : Option Value}
    (h : wrongJwk algorithm (jwk.getD (.obj [])) = .ok false) :
    ∃ members, jwk = some (.obj members) := by
  have hmatches : ∀ kty crv,
      (Bool.not <$> jwkMatches (jwk.getD (.obj [])) kty crv : Except Raised Bool) = .ok false →
        ∃ members, jwk = some (.obj members) := by
    intro kty crv hnot
    rcases hmatch : jwkMatches (jwk.getD (.obj [])) kty crv with e | isMatch
    · rw [hmatch] at hnot
      cases hnot
    · rw [hmatch] at hnot
      obtain rfl : isMatch = true := by simpa [Functor.map, Except.map] using hnot
      exact jwkMatches_eq_true hmatch
  unfold wrongJwk at h
  split_ifs at h
  · exact hmatches _ _ h
  · exact hmatches _ _ h
  · cases h

/-- A well-formed proof names one of the two algorithms. -/
theorem algorithm_of_wellFormed (h : proofMalformed runtime proof = false) :
    get proof "algorithm" = .str "EdDSA" ∨ get proof "algorithm" = .str "ES256" := by
  unfold proofMalformed at h
  simp only [Bool.or_eq_false_iff] at h
  have hsuite : (suite (get proof "algorithm")).isNone = false := h.1.1.1.1.1.1.1.1.2
  unfold suite at hsuite
  split at hsuite
  · exact .inl ‹_›
  · exact .inr ‹_›
  · cases hsuite

/-! ### The check of the signature -/

/-- Where the check returns, or raises a `KeyError`, it has come to the JWK of the key. -/
theorem checkSignature_ok {valid : Bool}
    (h : checkSignature runtime document proof key = .ok valid) :
    ∃ message signature jwk, SignedWith runtime document proof key message signature jwk ∧
      verifySignature runtime (get proof "algorithm") jwk message signature = .ok valid := by
  unfold checkSignature at h
  split at h
  · next header encoded hparts =>
    obtain ⟨bytes, -, h⟩ := bind_ok_iff.mp h
    obtain ⟨fields, -, h⟩ := bind_ok_iff.mp h
    obtain ⟨isProtected, -, h⟩ := bind_ok_iff.mp h
    split_ifs at h
    · cases h
    obtain ⟨message, hmessage, h⟩ := bind_ok_iff.mp h
    obtain ⟨text, htext, rfl⟩ := signedMessage_eq_ok hmessage
    obtain ⟨signature, hsignature, h⟩ := bind_ok_iff.mp h
    obtain ⟨jwk, hjwk, h⟩ := bind_ok_iff.mp h
    exact ⟨_, signature, jwk, ⟨header, encoded, text, hparts, htext, rfl, hsignature, hjwk⟩, h⟩
  · cases h

theorem checkSignature_keyError {jwk : Dict} (hjwk : key.lookup "public_key_jwk" = some (.obj jwk))
    (h : checkSignature runtime document proof key = .error .keyError) :
    ∃ message signature, SignedWith runtime document proof key message signature (.obj jwk) ∧
      verifySignature runtime (get proof "algorithm") (.obj jwk) message signature
        = .error .keyError := by
  unfold checkSignature at h
  split at h
  · next header encoded hparts =>
    rcases bind_error_iff.mp h with hbytes | ⟨bytes, -, h⟩
    · exact absurd hbytes (b64Text_ne_keyError _)
    rcases bind_error_iff.mp h with hfields | ⟨fields, -, h⟩
    · exact absurd hfields (loads_ne_keyError _)
    rcases bind_error_iff.mp h with hmatch | ⟨isProtected, -, h⟩
    · exact absurd hmatch (headerMatches_ne_keyError _)
    split_ifs at h
    · cases h
    rcases bind_error_iff.mp h with hmessage | ⟨message, hmessage, h⟩
    · exact absurd hmessage (signedMessage_ne_keyError _)
    obtain ⟨text, htext, rfl⟩ := signedMessage_eq_ok hmessage
    rcases bind_error_iff.mp h with hsignature | ⟨signature, hsignature, h⟩
    · exact absurd hsignature (b64Text_ne_keyError _)
    have hread : subscript (.obj key) "public_key_jwk" = .ok (.obj jwk) := by
      unfold subscript
      simp only [hjwk]
    rw [hread, ok_bind] at h
    exact ⟨_, signature, ⟨header, encoded, text, hparts, htext, rfl, hsignature, hread⟩, h⟩
  · cases h

/-- Where every step before it succeeds, the routine of the algorithm decides. -/
theorem checkSignature_eq_verifySignature {header encoded : List Char} {bytes message : List UInt8}
    {fields : Json String} {signature : List UInt8} {jwk : Value}
    (hparts : splitDots ((get proof "signature").string?.getD "").toList = [header, encoded])
    (hbytes : b64Text header = .ok bytes) (hfields : loads runtime bytes = .ok fields)
    (hmatch : headerMatches fields proof = .ok true)
    (hmessage : signedMessage runtime header document proof = .ok message)
    (hsignature : b64Text encoded = .ok signature)
    (hjwk : subscript (.obj key) "public_key_jwk" = .ok jwk) :
    checkSignature runtime document proof key
      = verifySignature runtime (get proof "algorithm") jwk message signature := by
  unfold checkSignature
  simp only [hparts, hbytes, ok_bind, hfields, hmatch, Bool.not_true, Bool.false_eq_true, if_false,
    hmessage, hsignature, hjwk]

/-- The message, the signature and the JWK are determined. -/
theorem SignedWith.unique {message message' signature signature' : List UInt8} {jwk jwk' : Value}
    (h : SignedWith runtime document proof key message signature jwk)
    (h' : SignedWith runtime document proof key message' signature' jwk') :
    message = message' ∧ signature = signature' ∧ jwk = jwk' := by
  obtain ⟨header, encoded, text, hparts, htext, rfl, hsignature, hjwk⟩ := h
  obtain ⟨header', encoded', text', hparts', htext', rfl, hsignature', hjwk'⟩ := h'
  rw [hparts, List.cons.injEq, List.cons.injEq] at hparts'
  obtain ⟨rfl, rfl, -⟩ := hparts'
  rw [htext] at htext'
  rw [hsignature] at hsignature'
  rw [hjwk] at hjwk'
  obtain rfl := Except.ok.inj htext'
  exact ⟨rfl, Except.ok.inj hsignature', Except.ok.inj hjwk'⟩

/-- A verification without codes has run the routine of the algorithm, with the result `True`,
exactly if an ES256 key has its coordinates. -/
theorem verifyDocument_checked_iff {bundle : Bundle} {audience now : String}
    {replay replay' : Option ReplayCache}
    (h : verifyDocument runtime document bundle audience now replay = .ok ([], replay')) :
    ∃ proof key, get document "proof" = .obj proof ∧ findKey bundle proof = some key ∧
      (SignatureChecked runtime document proof key ↔
        (get proof "algorithm" = .str "ES256" → HasCoordinates key)) := by
  obtain ⟨proof, key, created, expires, current, haccepted⟩ := verifyDocument_accepted h
  refine ⟨proof, key, haccepted.proof_eq, haccepted.key_eq, ?_⟩
  obtain ⟨halgorithm, hjwk, hpoint⟩ := checkKey_eq_nil haccepted.keyAccepted.key_eq
  obtain ⟨jwk, hlookup⟩ := wrongJwk_eq_false hjwk
  have hread : subscript (.obj key) "public_key_jwk" = .ok (.obj jwk) := by
    unfold subscript
    simp only [hlookup]
  constructor
  · rintro ⟨message, signature, jwk', hsigned, hverify⟩ hes256
    obtain ⟨_, _, _, -, -, -, -, hread'⟩ := hsigned
    obtain rfl := Except.ok.inj (hread.symm.trans hread')
    rw [hes256] at hverify
    obtain ⟨hx, hy⟩ := es256Verify_eq_true hverify
    exact ⟨jwk, hlookup, hx, hy⟩
  · intro hcoordinates
    have hcodes := haccepted.keyAccepted.signature_eq
    unfold signatureCodes at hcodes
    rw [if_neg List.not_mem_nil] at hcodes
    split at hcodes
    · next valid hvalid =>
      obtain rfl : valid = true := by simpa using codeIf_eq_nil.mp hcodes
      exact checkSignature_ok hvalid
    · -- a `KeyError` comes from the routine, and there from a coordinate that is missing
      next hraised =>
      obtain ⟨message, signature, -, hverify⟩ := checkSignature_keyError hlookup hraised
      exfalso
      rcases algorithm_of_wellFormed haccepted.wellFormed with heddsa | hes256
      · rw [heddsa, equal_str] at halgorithm
        have hpoint := hpoint (by rw [halgorithm, equal_str])
        rw [heddsa] at hverify
        rcases bind_error_iff.mp hverify with hx | ⟨x, -, hx⟩
        · rw [hlookup, Option.getD_some, wrongPoint, hx] at hpoint
          cases hpoint
        · cases hx
      · obtain ⟨jwk', hlookup', ⟨x, hx⟩, y, hy⟩ := hcoordinates hes256
        rw [hlookup, Option.some.injEq, Json.obj.injEq] at hlookup'
        subst hlookup'
        rw [hes256] at hverify
        rcases es256Verify_keyError hverify with hmissing | hmissing
        · rw [hmissing] at hx
          cases hx
        · rw [hmissing] at hy
          cases hy
    · cases hcodes

/-! ### A key without coordinates -/

/-- A standard library for documents without numbers. -/
def blankRuntime : Runtime where
  time _ := none
  time_aware _ _ ht := by cases ht
  isAlnum _ := false
  digits _ := { significand := 0, point := 0 }
  otherEncoding _ := none
  sha256 _ := []
  sha512 _ := []

/-- An active ES256 key whose JWK has no coordinates. -/
def blankKey : Dict :=
  [("id", .str "oati:key:1"), ("controller", .str "oati:issuer:root"),
    ("issuer", .str "oati:issuer:root"), ("algorithm", .str "ES256"), ("status", .str "active"),
    ("valid_from", .str "2026-01-01T00:00:00Z"),
    ("public_key_jwk", .obj [("kty", .str "EC"), ("crv", .str "P-256")])]

def blankBundle : Bundle where
  keys := [blankKey]
  issuers := []
  revocations := []
  trustAnchors := ["oati:issuer:root"]
  unavailableTargets := []

/-- The protected header, encoded. -/
def blankHeaderText : List Char :=
  ["eyJhbGciOiJFUzI1NiIsImI2NCI6ZmFsc2UsImNyaXQiOlsi",
    "YjY0Il0sImtpZCI6Im9hdGk6a2V5OjEiLCJ0eXAiOiJvYXRpK2p3cyJ9"].flatMap String.toList

def blankHeaderBytes : List UInt8 :=
  [123, 34, 97, 108, 103, 34, 58, 34, 69, 83, 50, 53, 54, 34, 44, 34, 98, 54, 52, 34, 58, 102, 97,
    108, 115, 101, 44, 34, 99, 114, 105, 116, 34, 58, 91, 34, 98, 54, 52, 34, 93, 44, 34, 107, 105,
    100, 34, 58, 34, 111, 97, 116, 105, 58, 107, 101, 121, 58, 49, 34, 44, 34, 116, 121, 112, 34,
    58, 34, 111, 97, 116, 105, 43, 106, 119, 115, 34, 125]

def blankHeader : Json String :=
  .obj [("alg", .str "ES256"), ("b64", .bool false), ("crit", .arr [.str "b64"]),
    ("kid", .str "oati:key:1"), ("typ", .str "oati+jws")]

/-- Two numbers that are one, encoded. -/
def blankSignatureText : List Char :=
  ["AAAAAAAAAAAAAAAAAAAAAAAAAAAAAAAAAAAAAAAAAAE",
    "AAAAAAAAAAAAAAAAAAAAAAAAAAAAAAAAAAAAAAAAAAQ"].flatMap String.toList

def blankProof : Dict :=
  [("type", .str "OatiJwsProof2026"), ("cryptosuite", .str "ecdsa-jcs-2019"),
    ("algorithm", .str "ES256"), ("created", .str "2026-07-27T12:00:00Z"),
    ("expires", .str "2026-07-27T12:05:00Z"), ("verification_method", .str "oati:key:1"),
    ("proof_purpose", .str "assertionMethod"), ("audience", .str "shop"),
    ("nonce", .str "0123456789abcdef"),
    ("signature", .str (String.ofList (blankHeaderText ++ '.' :: '.' :: blankSignatureText)))]

/-- What both parts of the signature are: not empty, of the signature characters, and of ASCII. -/
theorem chars_blank : ([blankHeaderText, blankSignatureText].all fun part =>
    !part.isEmpty && part.all (isSignatureChar blankRuntime) && part.all fun c => c.toNat < 128)
      = true := by
  decide

/-- What both parts of the signature decode to. -/
theorem a2bBase64_blank :
    a2bBase64 0 0 0 (blankHeaderText ++ List.replicate ((4 - blankHeaderText.length % 4) % 4) '=')
        = some blankHeaderBytes ∧
      (a2bBase64 0 0 0 (blankSignatureText
        ++ List.replicate ((4 - blankSignatureText.length % 4) % 4) '=')).map (fun signature =>
          (signature.length, (fromBig (signature.take 32) : ℤ), (fromBig (signature.drop 32) : ℤ)))
        = some (64, 1, 1) := by
  decide +kernel

theorem splitDots_blank :
    splitDots ((get blankProof "signature").string?.getD "").toList
      = [blankHeaderText, blankSignatureText] := by
  have hchars : ((get blankProof "signature").string?.getD "").toList
      = blankHeaderText ++ '.' :: '.' :: blankSignatureText := String.toList_ofList
  have hparts := chars_blank
  simp only [List.all_cons, List.all_nil, Bool.and_eq_true, and_true] at hparts
  rw [hchars]
  exact splitDots_append (dot_notMem_of_all hparts.1.1.2) (dot_notMem_of_all hparts.2.1.2)

theorem b64Text_blankHeader : b64Text blankHeaderText = .ok blankHeaderBytes := by
  have hparts := chars_blank
  simp only [List.all_cons, Bool.and_eq_true] at hparts
  rw [b64Text, if_pos hparts.1.2, a2bBase64_blank.1]

theorem loads_blankHeader : loads blankRuntime blankHeaderBytes = .ok blankHeader := rfl

theorem headerMatches_blank : headerMatches blankHeader blankProof = .ok true := rfl

theorem b64Text_blankSignature : ∃ signature, b64Text blankSignatureText = .ok signature ∧
    signature.length = 64 ∧ (fromBig (signature.take 32) : ℤ) = 1 ∧
    (fromBig (signature.drop 32) : ℤ) = 1 := by
  have hparts := chars_blank
  simp only [List.all_cons, List.all_nil, Bool.and_eq_true] at hparts
  obtain ⟨signature, hsignature, hnumbers⟩ := Option.map_eq_some_iff.mp a2bBase64_blank.2
  simp only [Prod.mk.injEq] at hnumbers
  refine ⟨signature, ?_, hnumbers⟩
  rw [b64Text, if_pos hparts.2.1.2, hsignature]

/-- The check of the signature stops at the coordinate that is missing. -/
theorem checkSignature_blank {document : Dict}
    (hnumbers : (Json.obj (unsigned document blankProof)).numbers = []) :
    checkSignature blankRuntime document blankProof blankKey = .error .keyError := by
  obtain ⟨signature, hsignature, hlength, hr, hs⟩ := b64Text_blankSignature
  obtain ⟨message, hmessage⟩ : ∃ message,
      signedMessage blankRuntime blankHeaderText document blankProof = .ok message := by
    unfold signedMessage
    rw [canonicalJson_eq (by simp [hnumbers]) (by simp [hnumbers])]
    exact ⟨_, rfl⟩
  have hroutine : es256Verify blankRuntime (.obj [("kty", .str "EC"), ("crv", .str "P-256")])
      message signature = .error .keyError := by
    unfold es256Verify
    rw [hr, hs, if_neg (not_not.mpr hlength)]
    rfl
  exact (checkSignature_eq_verifySignature splitDots_blank b64Text_blankHeader loads_blankHeader
    headerMatches_blank hmessage hsignature rfl).trans hroutine

/-- Minutes after noon of 2026-07-27. -/
def afternoon (minutes : Fin 60) : DateTime where
  clock := (1785153600 + 719162 * 86400 + 60 * minutes) * 1000000
  offset := some 0
  inRange := by
    unfold maxTime
    omega

theorem proofMalformed_blank : proofMalformed blankRuntime blankProof = false := by
  have hchars : ([blankHeaderText, blankSignatureText].all fun part =>
      !part.isEmpty && part.all (isSignatureChar blankRuntime)) = true := by
    have hparts := chars_blank
    simp only [List.all_cons, List.all_nil, Bool.and_eq_true] at hparts ⊢
    exact ⟨hparts.1.1, hparts.2.1.1, trivial⟩
  have hsignature : ((get blankProof "signature").string?.any fun signature =>
      (splitDots signature.toList).length == 2
        && (splitDots signature.toList).all fun part =>
          !part.isEmpty && part.all (isSignatureChar blankRuntime)) = true := by
    have hparts := splitDots_blank
    obtain ⟨text, htext⟩ : ∃ text, (get blankProof "signature").string? = some text := ⟨_, rfl⟩
    rw [htext, Option.getD_some] at hparts
    rw [htext, Option.any_some, hparts, hchars]
    rfl
  unfold proofMalformed
  rw [hsignature]
  rfl

/-- No text is revoked. -/
theorem checkTarget_blank (current : DateTime) (target result : String) :
    checkTarget blankRuntime blankBundle current (.str target) result = .ok [] := by
  unfold checkTarget
  split_ifs
  · rfl
  · rfl

/-- The proof of the key without coordinates is accepted on any document with strings that the key
may sign. -/
theorem accepted_blank {document : Dict} (hproof : get document "proof" = .obj blankProof)
    (hid : ∃ id, get document "id" = .str id)
    (hnumbers : (Json.obj (unsigned document blankProof)).numbers = [])
    (hbound : foreignClaim document blankKey = false) :
    Accepted blankRuntime document blankBundle "shop" "2026-07-27T12:01:00Z" blankProof blankKey
      (afternoon 0) (afternoon 5) (afternoon 1) := by
  obtain ⟨id, hid⟩ := hid
  have hrevocations : checkRevocations blankRuntime blankBundle (afternoon 1) (get blankKey "id")
      (get blankKey "issuer") (get document "id") = .ok [] := by
    unfold checkRevocations
    rw [hid]
    simp only [checkTarget_blank]
    rfl
  have hsignature : signatureCodes blankRuntime document blankProof blankKey [] = [] := by
    unfold signatureCodes
    rw [if_neg List.not_mem_nil, checkSignature_blank hnumbers]
  have hkey : KeyAccepted blankRuntime document blankProof blankKey blankBundle (afternoon 0)
      (afternoon 1) :=
    ⟨rfl, rfl, hrevocations, hbound, hsignature⟩
  exact ⟨hproof, proofMalformed_blank, rfl, rfl, rfl, rfl, rfl, rfl, rfl, rfl, hkey⟩

/-- A document under the key without coordinates. -/
def blankDocument : Dict := [("id", .str "oati:note:1"), ("proof", .obj blankProof)]

theorem verifyDocument_blank :
    verifyDocument blankRuntime blankDocument blankBundle "shop" "2026-07-27T12:01:00Z" none
      = .ok ([], none) :=
  (accepted_blank rfl ⟨_, rfl⟩ rfl rfl).verifyDocument_eq none

theorem verifyDocument_checked_iff_blank :
    ∃ proof key, get blankDocument "proof" = .obj proof ∧ findKey blankBundle proof = some key ∧
      (SignatureChecked blankRuntime blankDocument proof key ↔
        (get proof "algorithm" = .str "ES256" → HasCoordinates key)) :=
  verifyDocument_checked_iff verifyDocument_blank

/-- The key without coordinates signs anything. -/
theorem verifyDocument_unchecked : ¬ ∀ (runtime : Runtime) (document : Dict) (bundle : Bundle)
    (audience now : String) (replay replay' : Option ReplayCache),
    verifyDocument runtime document bundle audience now replay = .ok ([], replay') →
      ∃ proof key, get document "proof" = .obj proof ∧ findKey bundle proof = some key ∧
        SignatureChecked runtime document proof key := by
  intro h
  obtain ⟨proof, key, hproof, hkey, message, signature, jwk, ⟨_, _, _, -, -, -, -, hread⟩, hverify⟩ :=
    h blankRuntime blankDocument blankBundle "shop" "2026-07-27T12:01:00Z" none none
      verifyDocument_blank
  obtain rfl : blankProof = proof := Json.obj.inj hproof
  obtain rfl : blankKey = key := Option.some.inj hkey
  have hblank : subscript (.obj blankKey) "public_key_jwk"
      = .ok (.obj [("kty", .str "EC"), ("crv", .str "P-256")]) := rfl
  obtain rfl := Except.ok.inj (hblank.symm.trans hread)
  obtain ⟨⟨x, hx⟩, -⟩ := es256Verify_eq_true hverify
  cases hx

end Oati.Python.Crypto

import Oati.Cli.Canonical
import Oati.TypeScript.Crypto

/-!
# Signatures on the command line

The tool reads the proof of a document into a struct and rebuilds the signed payload from that
struct. Reading it is the work of the standard library: a member goes to the field of its name,
or to the one whose name it is with other letters; members of other names are dropped, and `null`
leaves a string as it is.

* `parseProof`, `verifySignature`, `verifyBytes`; `verifies` is the part of `verifyObject` that
  makes the two meet.
* `payload_same`: what two documents under one signature have in common is all but the members of
  the proof that are not read;
* `sameDocument_iff`: they are the same JSON value exactly if they agree on these too.

`Runtime` holds the primitives, and what `json.Unmarshal` makes of a protected header. Nothing
below depends on the latter.
-/

namespace Oati.Cli

open JsonText (Literal write insertMember)
open Go (Value Object codePoints index)

/-! ### Data -/

/-- `jwk`. -/
structure Jwk where
  kty : String
  crv : String
  x : String
  y : String
  deriving DecidableEq, Repr

/-- `proof`. An audience that is nil is `none`. -/
structure Proof where
  type : String := ""
  cryptosuite : String := ""
  algorithm : String := ""
  created : String := ""
  expires : String := ""
  verificationMethod : String := ""
  proofPurpose : String := ""
  audience : Option Value := none
  nonce : String := ""
  signature : String := ""

/-- The fields of `proof`. -/
inductive ProofField where
  | type
  | cryptosuite
  | algorithm
  | created
  | expires
  | verificationMethod
  | proofPurpose
  | audience
  | nonce
  | signature
  deriving DecidableEq, Repr

/-- The name in the tag of the field. -/
def ProofField.name : ProofField → String
  | type => "type"
  | cryptosuite => "cryptosuite"
  | algorithm => "algorithm"
  | created => "created"
  | expires => "expires"
  | verificationMethod => "verification_method"
  | proofPurpose => "proof_purpose"
  | audience => "audience"
  | nonce => "nonce"
  | signature => "signature"

/-- In the order of the struct. -/
def ProofField.all : List ProofField :=
  [type, cryptosuite, algorithm, created, expires, verificationMethod, proofPurpose, audience,
    nonce, signature]

/-- The value of a field. -/
def Proof.value (p : Proof) : ProofField → Value
  | .type => .str p.type
  | .cryptosuite => .str p.cryptosuite
  | .algorithm => .str p.algorithm
  | .created => .str p.created
  | .expires => .str p.expires
  | .verificationMethod => .str p.verificationMethod
  | .proofPurpose => .str p.proofPurpose
  | .audience => p.audience.getD .null
  | .nonce => .str p.nonce
  | .signature => .str p.signature

/-- Set a field of type `string`. -/
def Proof.setText (p : Proof) (field : ProofField) (s : String) : Proof :=
  match field with
  | .type => { p with type := s }
  | .cryptosuite => { p with cryptosuite := s }
  | .algorithm => { p with algorithm := s }
  | .created => { p with created := s }
  | .expires => { p with expires := s }
  | .verificationMethod => { p with verificationMethod := s }
  | .proofPurpose => { p with proofPurpose := s }
  | .audience => p
  | .nonce => { p with nonce := s }
  | .signature => { p with signature := s }

/-! ### Reading a proof -/

/-- `foldRune`, for the letters of field names: the two other letters that fold to ASCII are the
long s and the Kelvin sign. -/
def foldRune (c : Char) : Char :=
  if 'a' ≤ c ∧ c ≤ 'z' then Char.ofNat (c.toNat - 32)
  else if c = '\u017f' then 'S'
  else if c = '\u212a' then 'K'
  else c

/-- `foldName`. -/
def foldName (name : String) : List Char := name.toList.map foldRune

/-- The field of a member: the one of that name, or else the one of the folded name. -/
def fieldOf (name : String) : Option ProofField :=
  (ProofField.all.find? fun f => f.name = name).or
    (ProofField.all.find? fun f => foldName f.name = foldName name)

/-- No number is beyond the range of a `float64`. -/
def inRange (v : Value) : Bool :=
  v.numbers.all fun n => |Double.round n.value| < Double.overflow

/-- Decode one member into the struct. A value of another type than `string` is an error. -/
def decodeMember (p : Proof) (m : String × Value) : Option Proof :=
  match fieldOf m.1, m.2 with
  | none, _ => some p
  | some .audience, .null => some { p with audience := none }
  | some .audience, v => if inRange v then some { p with audience := some v } else none
  | some field, .str s => some (p.setText field s)
  | some _, .null => some p
  | some _, _ => none

/-- `json.Marshal(raw)`, which sorts the members, and `json.Unmarshal` into the struct. -/
def decodeProof (raw : Object) : Option Proof :=
  (raw.insertionSort fun a b => codePoints a.1 ≤ codePoints b.1).foldlM decodeMember {}

def proofType : String := "OatiJwsProof2026"

/-- `cryptosuite`. -/
def cryptosuite (algorithm : String) : String :=
  if algorithm = "EdDSA" then "eddsa-jcs-2022"
  else if algorithm = "ES256" then "ecdsa-jcs-2019"
  else ""

/-- `validAudience`. -/
def validAudience (value : Option Value) : Bool :=
  match value with
  | some (.str single) => single != ""
  | some (.arr items) =>
    !items.isEmpty && items.all fun item =>
      match item with
      | .str text => text != ""
      | _ => false
  | _ => false

/-- `parseProof`. -/
def parseProof (value : Option Value) : Except String Proof :=
  match value with
  | some (.obj raw) =>
    match decodeProof raw with
    | some p =>
      if p.type ≠ proofType ∨ p.cryptosuite ≠ cryptosuite p.algorithm ∨ p.created = "" ∨
          p.expires = "" ∨ p.verificationMethod = "" ∨ p.proofPurpose ≠ "assertionMethod" ∨
          p.nonce.utf8ByteSize < 16 ∨ p.signature = "" ∨ validAudience p.audience = false then
        .error "proof does not conform to the OATI JWS profile"
      else .ok p
    | none => .error "proof does not conform to the OATI JWS profile"
  | _ => .error "OATI proof is required"

/-- `proofMap`. -/
def proofMap (p : Proof) (includeSignature : Bool) : Object :=
  let value : Object :=
    [("type", .str p.type), ("cryptosuite", .str p.cryptosuite), ("algorithm", .str p.algorithm),
      ("created", .str p.created), ("expires", .str p.expires),
      ("verification_method", .str p.verificationMethod),
      ("proof_purpose", .str p.proofPurpose), ("audience", p.audience.getD .null),
      ("nonce", .str p.nonce)]
  if includeSignature then value ++ [("signature", .str p.signature)] else value

/-! ### Verifying bytes -/

/-- The parts of the standard library that are left open. -/
structure Runtime where
  /-- `json.Unmarshal` into a map. -/
  unmarshal : List UInt8 → Option Object
  sha256 : List UInt8 → List UInt8
  /-- `ed25519.Verify`, on a public key, a message and a signature. -/
  ed25519Verify : List UInt8 → List UInt8 → List UInt8 → Bool
  /-- Whether a point is on the curve P-256. -/
  isOnCurve : ℕ → ℕ → Bool
  /-- `ecdsa.Verify`, on the coordinates of a public key, a digest and the two numbers of a
  signature. -/
  ecdsaVerify : ℕ → ℕ → List UInt8 → ℕ → ℕ → Bool

/-- `base64.RawURLEncoding.DecodeString`, which skips line ends. -/
def decodeString (s : List Char) : Option (List UInt8) :=
  Base64.decode (s.filter fun c => c != '\r' && c != '\n')

/-- `decodeExact`. -/
def decodeExact (value : String) (size : ℕ) : Option (List UInt8) :=
  (decodeString value.toList).filter fun decoded => decoded.length = size

/-- `2 ^ 255 - 19`. -/
def fieldPrime : ℤ := 2 ^ 255 - 19

/-- `new(big.Int).ModInverse(value, p)`; nil is `none`. -/
def modInverse (value : ℤ) : Option ℤ :=
  if value % fieldPrime = 0 then none
  else some (TypeScript.modPow value (fieldPrime - 2).toNat fieldPrime)

/-- `addEdwards`. -/
def addEdwards (d : ℤ) (a b : ℤ × ℤ) : Option (ℤ × ℤ) := do
  let factor := d * (a.1 * b.1 * (a.2 * b.2)) % fieldPrime
  let denX ← modInverse ((1 + factor) % fieldPrime)
  let denY ← modInverse ((1 - factor) % fieldPrime)
  return ((a.1 * b.2 + a.2 * b.1) * denX % fieldPrime, (a.2 * b.2 + a.1 * b.1) * denY % fieldPrime)

/-- The square root of `validEd25519PublicKey`, with the wanted last bit. -/
def pointX (x2 sign : ℤ) : Option ℤ :=
  let x := TypeScript.modPow x2 ((fieldPrime + 3) / 8).toNat fieldPrime
  let x :=
    if (x * x - x2) % fieldPrime ≠ 0 then
      x * TypeScript.modPow 2 ((fieldPrime - 1) / 4).toNat fieldPrime % fieldPrime
    else x
  if (x * x - x2) % fieldPrime ≠ 0 then none
  else
    let x := if x % 2 ≠ sign then fieldPrime - x else x
    if x = 0 ∧ sign = 1 then none else some x

/-- `validEd25519PublicKey`. -/
def validEd25519PublicKey (encoded : List UInt8) : Bool :=
  if encoded.length ≠ 32 then false
  else
    let sign : ℤ := TypeScript.littleEndian encoded / 2 ^ 255
    let y : ℤ := TypeScript.littleEndian encoded % 2 ^ 255
    if y ≥ fieldPrime then false
    else
      let point : Option (ℤ × ℤ) := do
        let d := -121665 * (← modInverse 121666) % fieldPrime
        let y2 := y * y % fieldPrime
        let inverse ← modInverse ((d * y2 + 1) % fieldPrime)
        let x ← pointX ((y2 - 1) % fieldPrime * inverse % fieldPrime) sign
        let p2 ← addEdwards d (x, y) (x, y)
        let p4 ← addEdwards d p2 p2
        addEdwards d p4 p4
      point.any fun p => p.1 ≠ 0 || p.2 ≠ 1

/-- `new(big.Int).SetBytes`. -/
def setBytes (bytes : List UInt8) : ℕ := bytes.foldl (fun n b => 256 * n + b.toNat) 0

/-- `p256Public`. -/
def p256Public (runtime : Runtime) (key : Jwk) : Option (ℕ × ℕ) := do
  let x ← decodeExact key.x 32
  let y ← decodeExact key.y 32
  if runtime.isOnCurve (setBytes x) (setBytes y) then some (setBytes x, setBytes y) else none

/-- The case `EdDSA` of `verifyBytes`. -/
def verifyEd25519 (runtime : Runtime) (key : Jwk) (message signature : List UInt8) : Bool :=
  key.kty == "OKP" && key.crv == "Ed25519" &&
    (decodeExact key.x 32).any fun publicKey =>
      validEd25519PublicKey publicKey && validEd25519PublicKey (signature.take 32) &&
        runtime.ed25519Verify publicKey message signature

/-- The case `ES256` of `verifyBytes`. -/
def verifyP256 (runtime : Runtime) (key : Jwk) (message signature : List UInt8) : Bool :=
  key.kty == "EC" && key.crv == "P-256" && signature.length == 64 &&
    (p256Public runtime key).any fun publicKey =>
      runtime.ecdsaVerify publicKey.1 publicKey.2 (runtime.sha256 message)
        (setBytes (signature.take 32)) (setBytes (signature.drop 32))

/-- `verifyBytes`: whether there is no error. -/
def verifyBytes (runtime : Runtime) (algorithm : String) (key : Jwk)
    (message signature : List UInt8) : Bool :=
  if algorithm = "EdDSA" then verifyEd25519 runtime key message signature
  else if algorithm = "ES256" then verifyP256 runtime key message signature
  else false

/-! ### Verifying a document -/

/-- `signingInput`. -/
def signingInput (header : List Char) (payload : String) : List UInt8 :=
  Utf8.encode (header ++ '.' :: payload.toList)

/-- A value of type `any` equals a string. -/
def equalsText (value : Option Value) (text : String) : Bool :=
  match value with
  | some (.str s) => s == text
  | _ => false

/-- A value of type `any` equals `false`. -/
def equalsFalse (value : Option Value) : Bool :=
  match value with
  | some (.bool b) => !b
  | _ => false

/-- `crit` is a list of `b64` alone. -/
def critMatches (value : Option Value) : Bool :=
  match value with
  | some (.arr [item]) => equalsText (some item) "b64"
  | _ => false

/-- The test of the protected header. -/
def headerMatches (header : Object) (p : Proof) : Bool :=
  equalsText (header.lookup "alg") p.algorithm &&
    equalsText (header.lookup "kid") p.verificationMethod &&
    equalsFalse (header.lookup "b64") && equalsText (header.lookup "typ") "oati+jws" &&
    critMatches (header.lookup "crit")

/-- The document with the proof that is signed. -/
def unsigned (value : Object) (p : Proof) : Object :=
  insertMember value "proof" (.obj (proofMap p false))

/-- `verifySignature`: whether there is no error. -/
def verifySignature (runtime : Runtime) (value : Object) (p : Proof) (key : Jwk) : Bool :=
  match p.signature.toList.splitOn '.' with
  | [header, detached, encoded] =>
    header ≠ [] && detached = [] && encoded ≠ [] &&
      (decodeString header).any fun headerBytes =>
        (runtime.unmarshal headerBytes).any fun fields =>
          headerMatches fields p &&
            match canonicalJSON (.obj (unsigned value p)) with
            | .ok payload =>
              (decodeString encoded).any fun signature =>
                verifyBytes runtime p.algorithm key (signingInput header payload) signature
            | .error _ => false
  | _ => false

/-- What `verifyObject` asks of the proof and of the signature: the proof is read, and its
signature verifies. -/
def Verifies (runtime : Runtime) (key : Jwk) (value : Object) (p : Proof) : Prop :=
  parseProof (value.lookup "proof") = .ok p ∧ verifySignature runtime value p key = true

/-! ### One message -/

/-- The primitives accept a signature for one message only. -/
structure OneMessage (runtime : Runtime) : Prop where
  ed25519 : ∀ publicKey message message' signature,
    runtime.ed25519Verify publicKey message signature = true →
    runtime.ed25519Verify publicKey message' signature = true → message = message'
  ecdsa : ∀ x y message message' r s,
    runtime.ecdsaVerify x y (runtime.sha256 message) r s = true →
    runtime.ecdsaVerify x y (runtime.sha256 message') r s = true → message = message'

variable {runtime : Runtime} {key : Jwk} {d d' : Object} {p p' : Proof}

theorem OneMessage.verifyBytes (hone : OneMessage runtime) {algorithm : String}
    {message message' signature : List UInt8}
    (h : verifyBytes runtime algorithm key message signature = true)
    (h' : verifyBytes runtime algorithm key message' signature = true) : message = message' := by
  rw [Cli.verifyBytes] at h h'
  split_ifs at h h' with heddsa hes
  · simp only [verifyEd25519, Bool.and_eq_true, Option.any_eq_true] at h h'
    obtain ⟨-, publicKey, hkey, -, hverify⟩ := h
    obtain ⟨-, publicKey', hkey', -, hverify'⟩ := h'
    obtain rfl := Option.some.inj (hkey.symm.trans hkey')
    exact hone.ed25519 _ _ _ _ hverify hverify'
  · simp only [verifyP256, Bool.and_eq_true, Option.any_eq_true] at h h'
    obtain ⟨-, point, hpoint, hverify⟩ := h
    obtain ⟨-, point', hpoint', hverify'⟩ := h'
    obtain rfl := Option.some.inj (hpoint.symm.trans hpoint')
    exact hone.ecdsa _ _ _ _ _ _ hverify hverify'

theorem equalsText_eq_true {value : Option Value} {text : String}
    (h : equalsText value text = true) : value = some (.str text) := by
  rw [equalsText.eq_def] at h
  split at h
  case h_1 s => rw [beq_iff_eq.mp h]
  case h_2 => cases h

/-- A header that matches names the algorithm of the proof. -/
theorem lookup_of_headerMatches {fields : Object} (h : headerMatches fields p = true) :
    fields.lookup "alg" = some (.str p.algorithm) := by
  simp only [headerMatches, Bool.and_eq_true] at h
  exact equalsText_eq_true h.1.1.1.1

/-- What an accepted signature says. -/
theorem verifySignature_iff :
    verifySignature runtime d p key = true ↔
      ∃ header encoded fields payload signature,
        p.signature.toList.splitOn '.' = [header, [], encoded] ∧ header ≠ [] ∧ encoded ≠ [] ∧
        (decodeString header).bind runtime.unmarshal = some fields ∧
        headerMatches fields p = true ∧ canonicalJSON (.obj (unsigned d p)) = .ok payload ∧
        decodeString encoded = some signature ∧
        verifyBytes runtime p.algorithm key (signingInput header payload) signature = true := by
  rw [verifySignature]
  constructor
  · intro h
    split at h
    case h_1 header detached encoded hparts =>
      simp only [Bool.and_eq_true, Option.any_eq_true, decide_eq_true_eq] at h
      obtain ⟨⟨⟨hheader, rfl⟩, hencoded⟩, headerBytes, hbytes, fields, hfields, hmatches,
        hpayload⟩ := h
      split at hpayload
      case h_1 payload hcanonical =>
        rw [Option.any_eq_true] at hpayload
        obtain ⟨signature, hsignature, hverify⟩ := hpayload
        refine ⟨header, encoded, fields, payload, signature, hparts, hheader, hencoded, ?_,
          hmatches, hcanonical, hsignature, hverify⟩
        rw [hbytes, Option.bind_some, hfields]
      case h_2 => cases hpayload
    case h_2 => cases h
  · rintro ⟨header, encoded, fields, payload, signature, hparts, hheader, hencoded, hfields,
      hmatches, hcanonical, hsignature, hverify⟩
    obtain ⟨headerBytes, hbytes, hfields⟩ := Option.bind_eq_some_iff.mp hfields
    simp [hparts, hheader, hencoded, hbytes, hfields, hmatches, hcanonical, hsignature, hverify]

/-- Two documents under one signature have one payload. -/
theorem same_unsigned (hone : OneMessage runtime) (hd : (Json.obj (unsigned d p)).Distinct)
    (hd' : (Json.obj (unsigned d' p')).Distinct) (hsignature : p.signature = p'.signature)
    (h : verifySignature runtime d p key = true) (h' : verifySignature runtime d' p' key = true) :
    Json.Same (.obj (unsigned d p)) (.obj (unsigned d' p')) := by
  obtain ⟨header, encoded, fields, payload, signature, hparts, -, -, hfields, hmatches, hpayload,
    hbytes, hverify⟩ := verifySignature_iff.mp h
  obtain ⟨header', encoded', fields', payload', signature', hparts', -, -, hfields', hmatches',
    hpayload', hbytes', hverify'⟩ := verifySignature_iff.mp h'
  -- the signature text fixes the header, and so the algorithm, and the bytes of the signature
  rw [hsignature, hparts', List.cons.injEq, List.cons.injEq, List.cons.injEq] at hparts
  obtain ⟨rfl, -, rfl, -⟩ := hparts
  obtain rfl := Option.some.inj (hfields.symm.trans hfields')
  obtain rfl := Option.some.inj (hbytes.symm.trans hbytes')
  have halgorithm : p.algorithm = p'.algorithm := by
    have halg := lookup_of_headerMatches hmatches
    rw [lookup_of_headerMatches hmatches', Option.some.injEq, Json.str.injEq] at halg
    exact halg.symm
  rw [← halgorithm] at hverify'
  have hmessage := Utf8.encode_injective (hone.verifyBytes hverify hverify')
  have htext : payload = payload' :=
    String.toList_injective (List.cons.inj (List.append_cancel_left hmessage)).2
  rw [← htext] at hpayload'
  exact same_of_canonicalJSON hd hd' hpayload hpayload'

/-! ### The members that are not covered -/

/-- Equality as JSON values. -/
def SameValue (v w : Value) : Prop := Json.Same (v.map Literal.value) (w.map Literal.value)

instance (v w : Value) : Decidable (SameValue v w) := inferInstanceAs (Decidable (Json.Same _ _))

/-- The member of this name is the one that its field was read from. -/
def Reads (raw : Object) (p : Proof) (name : String) : Prop :=
  ∃ field : ProofField, field.name = name ∧ raw.lookup name = some (p.value field)

/-- Two proofs have the same members, apart from those that are read in both. -/
def SameUnread (raw raw' : Object) (p p' : Proof) : Prop :=
  ∀ name, ¬ (Reads raw p name ∧ Reads raw' p' name) →
    Option.Rel SameValue (raw.lookup name) (raw'.lookup name)

theorem lookup_proofMap (p : Proof) {field : ProofField} (hfield : field ≠ .signature) :
    (proofMap p false).lookup field.name = some (p.value field) := by
  cases field with
  | signature => exact absurd rfl hfield
  | _ => rfl

theorem name_injective : Function.Injective ProofField.name := by
  intro field field' h
  cases field <;> cases field' <;> first | rfl | (revert h; decide)

theorem validAudience_of_parseProof {value : Option Value} (h : parseProof value = .ok p) :
    validAudience p.audience = true := by
  rw [parseProof.eq_def] at h
  split at h
  case h_1 raw =>
    split at h
    case h_1 q hdecode =>
      split_ifs at h with hconforms
      obtain rfl := Except.ok.inj h
      simp only [not_or, Bool.not_eq_false] at hconforms
      exact hconforms.2.2.2.2.2.2.2.2
    case h_2 => cases h
  case h_2 => cases h

/-- An audience is a string or a list of strings. -/
theorem distinct_audience {value : Option Value} (h : validAudience value = true) :
    (value.getD .null).Distinct := by
  rw [validAudience.eq_def] at h
  split at h
  case h_1 => trivial
  case h_2 items =>
    rw [Bool.and_eq_true, List.all_eq_true] at h
    rw [Option.getD_some, Json.Distinct, Json.itemsDistinct_iff]
    intro item hitem
    have htext := h.2 item hitem
    split at htext
    case h_1 => trivial
    case h_2 => cases htext
  case h_3 => cases h

/-- The fields of a proof that is read have distinct names throughout. -/
theorem distinct_proofMap {value : Option Value} (h : parseProof value = .ok p) :
    (Json.obj (proofMap p false)).Distinct := by
  have haudience := distinct_audience (validAudience_of_parseProof h)
  have hnames : ["type", "cryptosuite", "algorithm", "created", "expires", "verification_method",
      "proof_purpose", "audience", "nonce"].Nodup := by
    decide
  exact ⟨hnames, trivial, trivial, trivial, trivial, trivial, trivial, trivial, haudience, trivial,
    trivial⟩

theorem distinct_unsigned (hd : (Json.obj d).Distinct)
    (h : (Json.obj (proofMap p false)).Distinct) : (Json.obj (unsigned d p)).Distinct := by
  obtain ⟨hnames, hvalues⟩ := hd
  refine ⟨JsonText.nodup_insertMember hnames, Json.membersDistinct_iff.mpr fun m hm => ?_⟩
  rcases JsonText.mem_insertMember hm with hold | hnew
  · exact Json.membersDistinct_iff.mp hvalues m hold
  · rw [hnew]
    exact h

/-- Objects are the same value exactly if their members are, name by name. -/
theorem sameValue_obj_iff {ms ns : Object} (hms : (ms.map Prod.fst).Nodup)
    (hns : (ns.map Prod.fst).Nodup) :
    SameValue (.obj ms) (.obj ns) ↔
      ∀ name, Option.Rel SameValue (ms.lookup name) (ns.lookup name) := by
  have hnames : ∀ members : Object,
      (Json.mapMembers Literal.value members).map Prod.fst = members.map Prod.fst := by
    intro members
    rw [Json.mapMembers_eq_map, List.map_map]
    rfl
  rw [SameValue, Json.map, Json.map, Json.same_obj_iff_lookup (by rwa [hnames]) (by rwa [hnames])]
  refine forall_congr' fun name => ?_
  rw [Json.lookup_mapMembers, Json.lookup_mapMembers]
  cases ms.lookup name <;> cases ns.lookup name <;> simp [SameValue]

theorem rel_sameValue {v w : Option Value} (h : Option.Rel Json.Same v w) :
    Option.Rel SameValue v w := by
  cases h with
  | none => exact .none
  | some h => exact .some (Json.same_map _ h)

/-- Two documents that are accepted under one key with one signature are the same JSON value
exactly if their proofs have the same members, apart from those that are read in both. -/
theorem sameValue_iff (hone : OneMessage runtime) (hd : (Json.obj d).Distinct)
    (hd' : (Json.obj d').Distinct) (h : Verifies runtime key d p) (h' : Verifies runtime key d' p')
    (hsignature : p.signature = p'.signature) {raw raw' : Object}
    (hraw : d.lookup "proof" = some (.obj raw)) (hraw' : d'.lookup "proof" = some (.obj raw')) :
    SameValue (.obj d) (.obj d') ↔ SameUnread raw raw' p p' := by
  obtain ⟨hparse, hverify⟩ := h
  obtain ⟨hparse', hverify'⟩ := h'
  have hmap := distinct_proofMap hparse
  have hmap' := distinct_proofMap hparse'
  have hdu := distinct_unsigned hd hmap
  have hdu' := distinct_unsigned hd' hmap'
  have hsame := same_unsigned hone hdu hdu' hsignature hverify hverify'
  rw [Json.same_obj_iff_lookup hdu.1 hdu'.1] at hsame
  have hrawnames : (raw.map Prod.fst).Nodup ∧ (raw'.map Prod.fst).Nodup :=
    ⟨(Json.membersDistinct_iff.mp hd.2 _ (List.mem_of_lookup_eq_some hraw)).1,
      (Json.membersDistinct_iff.mp hd'.2 _ (List.mem_of_lookup_eq_some hraw')).1⟩
  have hproof := hsame "proof"
  rw [unsigned, unsigned, JsonText.lookup_insertMember, JsonText.lookup_insertMember, if_pos rfl,
    if_pos rfl] at hproof
  have hfields : ∀ name, Option.Rel Json.Same ((proofMap p false).lookup name)
      ((proofMap p' false).lookup name) := by
    cases hproof with
    | some hproof => exact (Json.same_obj_iff_lookup hmap.1 hmap'.1).mp hproof
  rw [sameValue_obj_iff hd.1 hd'.1]
  constructor
  · intro hall name _
    have hproof := hall "proof"
    rw [hraw, hraw'] at hproof
    cases hproof with
    | some hproof => exact (sameValue_obj_iff hrawnames.1 hrawnames.2).mp hproof name
  · intro hunread name
    by_cases hname : name = "proof"
    · rw [hname, hraw, hraw']
      refine .some ((sameValue_obj_iff hrawnames.1 hrawnames.2).mpr fun name => ?_)
      by_cases hread : Reads raw p name ∧ Reads raw' p' name
      · obtain ⟨⟨field, hfield, hvalue⟩, field', hfield', hvalue'⟩ := hread
        obtain rfl := name_injective (hfield.trans hfield'.symm)
        rw [hvalue, hvalue']
        by_cases hsig : field = .signature
        · rw [hsig, Proof.value, Proof.value, hsignature]
          exact .some (decide_eq_true rfl)
        · have hrel := hfields field.name
          rw [lookup_proofMap p hsig, lookup_proofMap p' hsig] at hrel
          exact rel_sameValue hrel
      · exact hunread name hread
    · have hrel := hsame name
      rw [unsigned, unsigned, JsonText.lookup_insertMember, JsonText.lookup_insertMember,
        if_neg hname, if_neg hname] at hrel
      exact rel_sameValue hrel

/-! ### Two documents under one signature -/

def sampleKey : Jwk where
  kty := "EC"
  crv := "P-256"
  x := "axfR8uEsQkf4vOblY6RA8ncDfYEt6zOg9KE5RdiYwpY"
  y := "T-NC4v4af5uO5-tKfA-eFivOM1drMV7Oy7ZAaDe_UfU"

/-- The protected header, encoded and decoded. -/
def sampleHeaderText : List Char :=
  ["eyJhbGciOiJFUzI1NiIsImI2NCI6ZmFsc2UsImNyaXQiOlsi",
    "YjY0Il0sImtpZCI6Im9hdGk6a2V5OjEiLCJ0eXAiOiJvYXRpK2p3cyJ9"].flatMap String.toList

def sampleHeader : Object :=
  [("alg", .str "ES256"), ("b64", .bool false), ("crit", .arr [.str "b64"]),
    ("kid", .str "oati:key:1"), ("typ", .str "oati+jws")]

def sampleSignatureText : List Char :=
  ["jlM7b6C_e0YluzBmfAH7YH75-LioD-9bMAYocDGHsqM",
    "VluEzymhAqwNyUxPrd4cBneWvrmYlnrHA70Hn5AW-HA"].flatMap String.toList

def sampleProof : Proof where
  type := "OatiJwsProof2026"
  cryptosuite := "ecdsa-jcs-2019"
  algorithm := "ES256"
  created := "2026-07-27T12:00:00Z"
  expires := "2026-07-27T12:05:00Z"
  verificationMethod := "oati:key:1"
  proofPurpose := "assertionMethod"
  audience := some (.str "shop")
  nonce := "0123456789abcdef"
  signature := String.ofList (sampleHeaderText ++ '.' :: '.' :: sampleSignatureText)

/-- The signed text, in pieces. -/
def samplePayload : List Char :=
  ["\x7b\"id\":\"oati:mandate:1\",\"proof\":\x7b\"algorithm\":\"ES256\",",
    "\"audience\":\"shop\",\"created\":\"2026-07-27T12:00:00Z\",",
    "\"cryptosuite\":\"ecdsa-jcs-2019\",\"expires\":\"2026-07-27T12:05:00Z\",",
    "\"nonce\":\"0123456789abcdef\",\"proof_purpose\":\"assertionMethod\",",
    "\"type\":\"OatiJwsProof2026\",\"verification_method\":\"oati:key:1\"\x7d\x7d"].flatMap String.toList

/-- The signed message and the hash of it. -/
def sampleMessage : List UInt8 := signingInput sampleHeaderText (String.ofList samplePayload)

def sampleDigest : List UInt8 :=
  [8, 204, 236, 250, 232, 26, 73, 102, 242, 101, 21, 36, 244, 66, 181, 170, 210, 77, 213, 12, 34,
    247, 103, 129, 22, 132, 164, 231, 10, 160, 128, 33]

/-- The numbers of the signature. -/
def sampleR : ℕ := 64375483017717711348634889601793836329966447963510648681625681211348943876771
def sampleS : ℕ := 9765151169166629659854746633557497199692818812709348852187754133822537842204

/-- The generator of P-256, which is the sample key. -/
def sampleX : ℕ := 48439561293906451759052585252797914202762949526041747995844080717082404635286
def sampleY : ℕ := 36134250956749795798585127919587881956611106672985015071877198253568414405109

def sampleRuntime : Runtime where
  unmarshal := fun bytes =>
    if some bytes = decodeString sampleHeaderText then some sampleHeader else none
  sha256 := fun message => if message = sampleMessage then sampleDigest else []
  ed25519Verify := fun _ _ _ => false
  isOnCurve := fun x y => x = sampleX && y = sampleY
  ecdsaVerify := fun x y digest r s =>
    x = sampleX && y = sampleY && digest = sampleDigest && r = sampleR && s = sampleS

/-- The signed document with a note in its proof. -/
def sampleRaw (note : String) : Object :=
  [("algorithm", .str sampleProof.algorithm), ("audience", .str "shop"),
    ("created", .str sampleProof.created), ("cryptosuite", .str sampleProof.cryptosuite),
    ("expires", .str sampleProof.expires), ("nonce", .str sampleProof.nonce),
    ("note", .str note), ("proof_purpose", .str sampleProof.proofPurpose),
    ("signature", .str sampleProof.signature), ("type", .str sampleProof.type),
    ("verification_method", .str sampleProof.verificationMethod)]

def sampleDocument (note : String) : Object :=
  [("id", .str "oati:mandate:1"), ("proof", .obj (sampleRaw note))]

theorem oneMessage_sampleRuntime : OneMessage sampleRuntime where
  ed25519 := fun _ _ _ _ h _ => absurd h Bool.false_ne_true
  ecdsa := by
    have hsample : ∀ x y message r s,
        sampleRuntime.ecdsaVerify x y (sampleRuntime.sha256 message) r s = true →
          message = sampleMessage := by
      intro x y message r s h
      by_contra hother
      have hdigest : sampleRuntime.sha256 message = [] := if_neg hother
      rw [hdigest] at h
      simp [sampleRuntime, sampleDigest] at h
    intro x y message message' r s h h'
    exact (hsample x y message r s h).trans (hsample x y message' r s h').symm

theorem distinct_sampleDocument (note : String) : (Json.obj (sampleDocument note)).Distinct := by
  have hnames : ["id", "proof"].Nodup := by decide
  have hmembers : ["algorithm", "audience", "created", "cryptosuite", "expires", "nonce", "note",
      "proof_purpose", "signature", "type", "verification_method"].Nodup := by
    decide
  exact ⟨hnames, trivial, ⟨hmembers, trivial, trivial, trivial, trivial, trivial, trivial, trivial,
    trivial, trivial, trivial, trivial, trivial⟩, trivial⟩

theorem parseProof_sample (note : String) :
    parseProof (some (.obj (sampleRaw note))) = .ok sampleProof := by
  have hnames : ["algorithm", "audience", "created", "cryptosuite", "expires", "nonce", "note",
      "proof_purpose", "signature", "type", "verification_method"].Pairwise
        fun a b => codePoints a ≤ codePoints b := by
    decide
  have hsorted : (sampleRaw note).Pairwise fun a b => codePoints a.1 ≤ codePoints b.1 := by
    have hmap : ((sampleRaw note).map Prod.fst).Pairwise fun a b => codePoints a ≤ codePoints b :=
      hnames
    exact (List.pairwise_map (f := Prod.fst) (R := fun a b => codePoints a ≤ codePoints b)).mp hmap
  have hfields : ["algorithm", "audience", "created", "cryptosuite", "expires", "nonce", "note",
      "proof_purpose", "signature", "type", "verification_method"].map fieldOf
      = [some .algorithm, some .audience, some .created, some .cryptosuite, some .expires,
        some .nonce, none, some .proofPurpose, some .signature, some .type,
        some .verificationMethod] := by
    decide
  simp only [List.map_cons, List.map_nil, List.cons.injEq, and_true] at hfields
  have hdecode : decodeProof (sampleRaw note) = some sampleProof := by
    rw [decodeProof, hsorted.insertionSort_eq]
    simp [sampleRaw, decodeMember, hfields, Proof.setText, inRange, Json.numbers, sampleProof]
  have hconforms : ¬ (sampleProof.type ≠ proofType ∨
      sampleProof.cryptosuite ≠ cryptosuite sampleProof.algorithm ∨ sampleProof.created = "" ∨
      sampleProof.expires = "" ∨ sampleProof.verificationMethod = "" ∨
      sampleProof.proofPurpose ≠ "assertionMethod" ∨ sampleProof.nonce.utf8ByteSize < 16 ∨
      sampleProof.signature = "" ∨ validAudience sampleProof.audience = false) := by
    decide +kernel
  simp only [parseProof, hdecode, if_neg hconforms]

/-- The characters of a text in pieces. -/
theorem flatMap_ofList_cons {cs rest : List Char} {pieces : List String}
    (h : pieces.flatMap String.toList = rest) :
    (String.ofList cs :: pieces).flatMap String.toList = cs ++ rest := by
  rw [List.flatMap_cons, String.toList_ofList, h]

/-- The note is not in the text. -/
theorem canonicalJSON_sample (note : String) :
    canonicalJSON (.obj (unsigned (sampleDocument note) sampleProof))
      = .ok (String.ofList samplePayload) := by
  have hunsigned : unsigned (sampleDocument note) sampleProof
      = [("id", .str "oati:mandate:1"), ("proof", .obj (proofMap sampleProof false))] := rfl
  have hwrite : write encoder (.obj [("id", .str "oati:mandate:1"),
      ("proof", .obj (proofMap sampleProof false))]) = .ok samplePayload := by
    have hpieces : samplePayload = _ := flatMap_ofList_cons (flatMap_ofList_cons
      (flatMap_ofList_cons (flatMap_ofList_cons (flatMap_ofList_cons List.flatMap_nil))))
    rw [hpieces]
    decide +kernel
  rw [canonicalJSON, hunsigned, hwrite]
  rfl

theorem verifyBytes_sample :
    ∃ signature, decodeString sampleSignatureText = some signature ∧
      verifyBytes sampleRuntime "ES256" sampleKey sampleMessage signature = true := by
  have hlength : ((decodeString sampleSignatureText).map List.length) = some 64 := by decide
  have hnumbers : ((decodeString sampleSignatureText).map fun signature =>
      (setBytes (signature.take 32), setBytes (signature.drop 32))) = some (sampleR, sampleS) := by
    decide
  have hkey : p256Public sampleRuntime sampleKey = some (sampleX, sampleY) := by decide
  have hdigest : sampleRuntime.sha256 sampleMessage = sampleDigest := by
    simp only [sampleRuntime, if_true]
  obtain ⟨signature, hsignature, hlength⟩ := Option.map_eq_some_iff.mp hlength
  rw [hsignature, Option.map_some, Option.some.injEq, Prod.mk.injEq] at hnumbers
  refine ⟨signature, hsignature, ?_⟩
  have hverify : sampleRuntime.ecdsaVerify sampleX sampleY sampleDigest sampleR sampleS = true := by
    simp [sampleRuntime]
  rw [verifyBytes, if_neg (by decide), if_pos rfl, verifyP256, hlength, hkey, hdigest,
    hnumbers.1, hnumbers.2, Option.any_some, hverify]
  decide

theorem verifies_sampleDocument (note : String) :
    Verifies sampleRuntime sampleKey (sampleDocument note) sampleProof := by
  have hparts : sampleProof.signature.toList.splitOn '.'
      = [sampleHeaderText, [], sampleSignatureText] := by
    have hchars : sampleProof.signature.toList
        = sampleHeaderText ++ '.' :: '.' :: sampleSignatureText := String.toList_ofList
    rw [hchars]
    decide
  have hnonempty : sampleHeaderText ≠ [] ∧ sampleSignatureText ≠ [] := by decide
  have hheader : (decodeString sampleHeaderText).bind sampleRuntime.unmarshal = some sampleHeader := by
    have hdecodes : (decodeString sampleHeaderText).isSome = true := by decide
    obtain ⟨bytes, hbytes⟩ := Option.isSome_iff_exists.mp hdecodes
    rw [hbytes, Option.bind_some]
    exact if_pos hbytes.symm
  obtain ⟨signature, hsignature, hverify⟩ := verifyBytes_sample
  exact ⟨parseProof_sample note, verifySignature_iff.mpr ⟨_, _, sampleHeader, _, signature, hparts,
    hnonempty.1, hnonempty.2, hheader, by decide, canonicalJSON_sample note, hsignature,
    hverify⟩⟩

/-- A member of the proof that is not read can be changed. -/
theorem sameValue_sample_ne :
    OneMessage sampleRuntime ∧
    Verifies sampleRuntime sampleKey (sampleDocument "x") sampleProof ∧
    Verifies sampleRuntime sampleKey (sampleDocument "y") sampleProof ∧
    ¬ SameValue (.obj (sampleDocument "x")) (.obj (sampleDocument "y")) :=
  ⟨oneMessage_sampleRuntime, verifies_sampleDocument "x", verifies_sampleDocument "y",
    by decide +kernel⟩

theorem sameValue_iff_sample :
    SameValue (.obj (sampleDocument "x")) (.obj (sampleDocument "y")) ↔
      SameUnread (sampleRaw "x") (sampleRaw "y") sampleProof sampleProof :=
  sameValue_iff oneMessage_sampleRuntime (distinct_sampleDocument "x") (distinct_sampleDocument "y")
    (verifies_sampleDocument "x") (verifies_sampleDocument "y") rfl rfl rfl

end Oati.Cli

import Oati.Library.Base64
import Oati.Library.JsonSyntax
import Oati.Library.Rfc3339
import Oati.Python.Canonical
import Oati.Python.Curves

/-!
# Verification in Python

`verify_document` of the SDK, on a document and a trust bundle of JSON objects. A time without an
offset cannot be compared with one that has an offset, a time cannot be moved out of the years 1
to 9999, and a list or an object is no key of a set: these are the exceptions that leave the
function, next to those of ill-typed bundles. Everything after the checks of the key is inside a
`try`.

`Runtime` holds the hash functions and what the standard library makes of strings outside the
usual notations. The limits of the interpreter are left out, so copying a document through
`json.dumps` gives the document.
-/

namespace Oati.Python.Crypto

open JsonText (Decoder collect)

/-- An exception. -/
inductive Raised where
  | keyError
  | typeError
  | attributeError
  | valueError
  | overflowError
  deriving DecidableEq, Repr

/-! ### Times -/

/-- The microseconds of the years 1 to 9999. -/
def maxTime : ℤ := 3652059 * 86400 * 1000000

/-- A `datetime`: the microseconds from the beginning of the year 1 on its own clock, and the
offset of that clock if it is known. -/
structure DateTime where
  clock : ℤ
  offset : Option ℤ
  inRange : 0 ≤ clock ∧ clock < maxTime

/-- The time carries an offset. -/
def DateTime.aware (t : DateTime) : Bool := t.offset.isSome

/-- `t + δ`. -/
def DateTime.shift (t : DateTime) (δ : ℤ) : Except Raised DateTime :=
  if h : 0 ≤ t.clock + δ ∧ t.clock + δ < maxTime then .ok ⟨t.clock + δ, t.offset, h⟩
  else .error .overflowError

/-- `a - b`. -/
def DateTime.sub (a b : DateTime) : Except Raised ℤ :=
  match a.offset, b.offset with
  | some p, some q => .ok (a.clock - p - (b.clock - q))
  | none, none => .ok (a.clock - b.clock)
  | _, _ => .error .typeError

/-- `a < b`. -/
def DateTime.less (a b : DateTime) : Except Raised Bool := do
  return decide ((← a.sub b) < 0)

/-- `a <= b`. -/
def DateTime.atMost (a b : DateTime) : Except Raised Bool := do
  return decide ((← a.sub b) ≤ 0)

/-- An offset, with its digits in any range. -/
def zoneFormat : List Char → Bool
  | ['Z'] => true
  | ['z'] => true
  | [sign, h1, h2, ':', m1, m2] => (sign == '+' || sign == '-') && [h1, h2, m1, m2].all Char.isDigit
  | _ => false

/-- The format `date-time`, with the fields in any range. -/
def dateTimeFormat (s : String) : Bool :=
  match s.toList with
  | y1 :: y2 :: y3 :: y4 :: '-' :: o1 :: o2 :: '-' :: d1 :: d2 :: t :: h1 :: h2 :: ':' :: m1 :: m2
      :: ':' :: s1 :: s2 :: rest =>
    [y1, y2, y3, y4, o1, o2, d1, d2, h1, h2, m1, m2, s1, s2].all Char.isDigit
      && (t == 'T' || t == 't')
      && match rest with
        | '.' :: digits => zoneFormat (digits.dropWhile Char.isDigit)
        | _ => zoneFormat rest
  | _ => false

/-- The parts of the standard library that are left open. -/
structure Runtime where
  /-- `datetime.fromisoformat(s.replace("Z", "+00:00"))` on a string that is no RFC 3339 date-time
  of the calendar; `none` is an exception. -/
  time : String → Option DateTime
  /-- A time that is read from a string of the format `date-time` has its offset. -/
  time_aware : ∀ s t, time s = some t → dateTimeFormat s = true → t.aware = true
  /-- `character.isalnum()` of a character that is not ASCII. -/
  isAlnum : Char → Bool
  /-- The shortest digits of a double. -/
  digits : ℚ → Double.Digits
  /-- What `json.loads` makes of bytes with a byte order mark, or with a zero among the first
  four; `none` is an exception. -/
  otherEncoding : List UInt8 → Option (List Char)
  sha256 : List UInt8 → List UInt8
  sha512 : List UInt8 → List UInt8

/-- The microseconds of the digits of a fraction, of which six count. -/
def microseconds (fraction : List Char) : ℕ :=
  Nat.ofDigitChars 10 ((fraction.take 6).rightpad 6 '0') 0

/-- The clock of an RFC 3339 date-time. -/
def clockOf (f : Rfc3339.Fields) : ℤ :=
  ((f.days + 719162) * 86400 + 3600 * f.hour + 60 * f.minute + f.second) * 1000000
    + microseconds f.fraction

/-- `datetime.fromisoformat(s.replace("Z", "+00:00"))`; there is no year 0. -/
def isoTime (runtime : Runtime) (s : String) : Option DateTime :=
  match Rfc3339.parse s with
  | some f =>
    if h : 0 ≤ clockOf f ∧ clockOf f < maxTime then
      some ⟨clockOf f, some (60000000 * f.offset), h⟩
    else none
  | none => runtime.time s

/-! ### Documents -/

/-- `d.get(key)`, where a missing member reads as `None`. -/
def get (d : Dict) (key : String) : Value := (d.lookup key).getD .null

/-- `bool(v)`. -/
def truthy : Value → Bool
  | .null => false
  | .bool b => b
  | .num n => n.value != 0
  | .str s => s != ""
  | .arr items => !items.isEmpty
  | .obj members => !members.isEmpty

/-- `v in names` for a set of strings. -/
def inSet (v : Value) (names : List String) : Except Raised Bool :=
  match v with
  | .arr _ | .obj _ => .error .typeError
  | v => .ok (names.any fun name => equal v (.str name))

/-- `_time`. -/
def time (runtime : Runtime) (v : Value) : Option DateTime :=
  v.string?.bind (isoTime runtime)

/-- A trust bundle. -/
structure Bundle where
  keys : List Dict
  issuers : List Dict
  revocations : List Dict
  trustAnchors : List String
  unavailableTargets : List String

/-! ### Encodings -/

/-- The value of a character of the standard alphabet, to which the URL-safe one is translated. -/
def base64Value (c : Char) : Option ℕ :=
  if c = '+' then some 62 else if c = '/' then some 63
  else Base64.digitValue c

/-- The decoder of `binascii`: characters outside the alphabet are skipped, and the padding that
completes a quad ends the text. `quad` counts the characters of the quad, `left` are the bits that
wait, `pads` the padding read. -/
def a2bBase64 (quad left pads : ℕ) : List Char → Option (List UInt8)
  | [] => if quad = 0 then some [] else none
  | '=' :: rest =>
    if quad ≥ 2 ∧ quad + pads + 1 ≥ 4 then some []
    else a2bBase64 quad left (if quad ≥ 2 then pads + 1 else pads) rest
  | c :: rest =>
    match base64Value c with
    | none => a2bBase64 quad left pads rest
    | some v =>
      match quad with
      | 0 => a2bBase64 1 v 0 rest
      | 1 => (a2bBase64 2 (v % 16) 0 rest).map ((UInt8.ofNat (left * 4 + v / 16)) :: ·)
      | 2 => (a2bBase64 3 (v % 4) 0 rest).map ((UInt8.ofNat (left * 16 + v / 4)) :: ·)
      | _ => (a2bBase64 0 0 0 rest).map ((UInt8.ofNat (left * 64 + v)) :: ·)

/-- `_b64` of a string. -/
def b64Text (s : List Char) : Except Raised (List UInt8) :=
  if s.all fun c => c.toNat < 128 then
    match a2bBase64 0 0 0 (s ++ List.replicate ((4 - s.length % 4) % 4) '=') with
    | some bytes => .ok bytes
    | none => .error .valueError
  else .error .valueError

/-- `_b64`. -/
def b64 (v : Value) : Except Raised (List UInt8) :=
  match v with
  | .str s => b64Text s.toList
  | _ => .error .typeError

/-- `v[key]`. -/
def subscript (v : Value) (key : String) : Except Raised Value :=
  match v with
  | .obj members =>
    match members.lookup key with
    | some w => .ok w
    | none => .error .keyError
  | _ => .error .typeError

/-- The text of bytes that `json.loads` reads: UTF-8, unless the first bytes say otherwise. -/
def textOf (runtime : Runtime) (bytes : List UInt8) : Option (List Char) :=
  if bytes.take 3 = [0xef, 0xbb, 0xbf] ∨ bytes.take 2 = [0xff, 0xfe] ∨ bytes.take 2 = [0xfe, 0xff]
      ∨ 0 ∈ bytes.take 4 then
    runtime.otherEncoding bytes
  else if Utf8.encode (Utf8.decode bytes) = bytes then some (Utf8.decode bytes) else none

/-- `json.loads(bytes)`. The numbers, which nothing reads, stay literals. -/
def loads (runtime : Runtime) (bytes : List UInt8) : Except Raised (Json String) :=
  match (textOf runtime bytes).bind (JsonText.readText readConstant) with
  | some (v, _) => .ok (v.rebuild collect)
  | none => .error .valueError

/-! ### The proof -/

/-- `s.split("..")`. -/
def splitDots : List Char → List (List Char)
  | [] => [[]]
  | '.' :: '.' :: rest => [] :: splitDots rest
  | c :: rest =>
    match splitDots rest with
    | first :: others => (c :: first) :: others
    | [] => [[c]]

theorem splitDots_cons_of_ne {c : Char} (hc : c ≠ '.') (rest : List Char) :
    splitDots (c :: rest) = match splitDots rest with
      | first :: others => (c :: first) :: others
      | [] => [[c]] := by
  rw [splitDots]
  exact fun _ h => absurd h hc

theorem splitDots_of_notMem {text : List Char} (h : '.' ∉ text) : splitDots text = [text] := by
  induction text with
  | nil => rfl
  | cons c rest ih =>
    rw [List.mem_cons, not_or] at h
    rw [splitDots_cons_of_ne (Ne.symm h.1), ih h.2]

/-- Two texts without dots, with two dots between them. -/
theorem splitDots_append {header signature : List Char} (hheader : '.' ∉ header)
    (hsignature : '.' ∉ signature) :
    splitDots (header ++ '.' :: '.' :: signature) = [header, signature] := by
  induction header with
  | nil => rw [List.nil_append, splitDots, splitDots_of_notMem hsignature]
  | cons c rest ih =>
    rw [List.mem_cons, not_or] at hheader
    rw [List.cons_append, splitDots_cons_of_ne (Ne.symm hheader.1), ih hheader.2]

/-- The characters of the parts of a signature. -/
def isSignatureChar (runtime : Runtime) (c : Char) : Bool :=
  if c.toNat < 128 then c.isAlphanum || c == '_' || c == '-' else runtime.isAlnum c

theorem dot_notMem_of_all {runtime : Runtime} {text : List Char}
    (h : text.all (isSignatureChar runtime) = true) : '.' ∉ text := by
  intro hdot
  have hchar := List.all_eq_true.mp h _ hdot
  rw [isSignatureChar, if_pos (by decide)] at hchar
  exact absurd hchar (by decide)

/-- The suite of an algorithm. -/
def suite (algorithm : Value) : Option String :=
  match algorithm with
  | .str "EdDSA" => some "eddsa-jcs-2022"
  | .str "ES256" => some "ecdsa-jcs-2019"
  | _ => none

/-- The audiences of a proof, where a string is a list of one. -/
def audiences (audience : Value) : Option (List Value) :=
  match audience with
  | .str s => some [.str s]
  | .arr items => some items
  | _ => none

/-- A non-empty string. -/
def isText (v : Value) : Bool := v.string?.any (· ≠ "")

/-- `_proof_malformed` on a proof that is an object. -/
def proofMalformed (runtime : Runtime) (proof : Dict) : Bool :=
  !equal (get proof "type") (.str "OatiJwsProof2026")
    || (suite (get proof "algorithm")).isNone
    || !(suite (get proof "algorithm")).any (fun name => equal (get proof "cryptosuite") (.str name))
    || !(get proof "created").string?.isSome
    || !(get proof "expires").string?.isSome
    || !isText (get proof "verification_method")
    || !equal (get proof "proof_purpose") (.str "assertionMethod")
    || !(audiences (get proof "audience")).any (fun items => !items.isEmpty && items.all isText)
    || !(get proof "nonce").string?.any (fun nonce => 16 ≤ nonce.length)
    || !(get proof "signature").string?.any fun signature =>
      (splitDots signature.toList).length == 2
        && (splitDots signature.toList).all fun part =>
          !part.isEmpty && part.all (isSignatureChar runtime)

/-- `timedelta(seconds=30)`. -/
def skew : ℤ := 30 * 1000000

/-- `codes.add(code)` under a condition. -/
def codeIf (condition : Bool) (code : String) : List String := if condition then [code] else []

/-- The codes of the times of the proof. -/
def checkTimes (created expires current : DateTime) : Except Raised (List String) := do
  let expired ← expires.atMost (← current.shift (-skew))
  let tooOld ← (fun age => decide (age > 5 * 60 * 1000000 + skew)) <$> current.sub created
  let early ← (← current.shift skew).less created
  return codeIf expired "PROOF_EXPIRED" ++ codeIf tooOld "PROOF_TOO_OLD"
    ++ codeIf early "PROOF_NOT_YET_VALID"

/-! ### The key -/

/-- `v in (None, "verified")`. -/
def isVerified (v : Value) : Bool := equal v .null || equal v (.str "verified")

/-- The type and the curve of the JWK are those of the algorithm. -/
def jwkMatches (jwk : Value) (kty crv : String) : Except Raised Bool :=
  match jwk with
  | .obj members => .ok (equal (get members "kty") (.str kty) && equal (get members "crv") (.str crv))
  | _ => .error .attributeError

/-- The second condition of `_check_key`. -/
def wrongJwk (algorithm jwk : Value) : Except Raised Bool :=
  if equal algorithm (.str "EdDSA") then Bool.not <$> jwkMatches jwk "OKP" "Ed25519"
  else if equal algorithm (.str "ES256") then Bool.not <$> jwkMatches jwk "EC" "P-256"
  else .ok true

/-- The point of an EdDSA key is missing, malformed or of small order. -/
def wrongPoint (jwk : Value) : Bool :=
  match subscript jwk "x" >>= b64 with
  | .ok bytes => !(decodePoint bytes).any fun point => !point.smallOrder
  | .error _ => true

/-- The condition of `_check_key` on the period of the key. -/
def outsidePeriod (runtime : Runtime) (key : Dict) (created : DateTime) : Except Raised Bool :=
  match time runtime (get key "valid_from") with
  | none => .ok true
  | some validFrom => do
    if ← created.less (← validFrom.shift (-skew)) then .ok true
    else if !truthy (get key "valid_until") then .ok false
    else match time runtime (get key "valid_until") with
      | none => .ok true
      | some validUntil => do (← validUntil.shift skew).atMost created

/-- The key is revoked at the time. -/
def revokedAt (runtime : Runtime) (v : Value) (current : DateTime) : Except Raised Bool :=
  match time runtime v with
  | some revoked => revoked.atMost current
  | none => .ok false

/-- `_check_key`. -/
def checkKey (runtime : Runtime) (key proof : Dict) (created current : DateTime) :
    Except Raised (List String) := do
  let algorithm := get key "algorithm"
  let jwk := (key.lookup "public_key_jwk").getD (.obj [])
  let status := get key "status"
  let foreign := !equal algorithm (get proof "algorithm")
    || !equal (get key "id") (get proof "verification_method")
    || !isVerified (get key "proof_status")
  let wrong ← wrongJwk algorithm jwk
  let point := equal algorithm (.str "EdDSA") && wrongPoint jwk
  let unknown := !(["active", "retired", "revoked"].any fun name => equal status (.str name))
  let endless := equal status (.str "retired") && !truthy (get key "valid_until")
  let outside ← outsidePeriod runtime key created
  let unreadable := truthy (get key "revoked_at") && (time runtime (get key "revoked_at")).isNone
  let revoked ←
    if equal status (.str "revoked") then .ok true
    else revokedAt runtime (get key "revoked_at") current
  return codeIf (foreign || wrong || point || unknown || endless || outside || unreadable)
      "KEY_INVALID" ++ codeIf revoked "KEY_REVOKED"

/-! ### Revocations and issuers -/

/-- One target of `_check_revocations`. -/
def checkTarget (runtime : Runtime) (bundle : Bundle) (current : DateTime) (target : Value)
    (result : String) : Except Raised (List String) :=
  if !truthy target then .ok []
  else do
    if ← inSet target bundle.unavailableTargets then return ["REVOCATION_UNAVAILABLE"]
    else match bundle.revocations.filter fun item => equal (get item "target") target with
      | [] => .ok []
      | [item] =>
        if equal (get item "status") (.str "good") then .ok []
        else match time runtime (get item "effective_at") with
          | some effective => do return codeIf (!(← current.less effective)) result
          | none => .ok [result]
      | _ => .ok ["REVOCATION_UNAVAILABLE"]

/-- `_check_revocations`. -/
def checkRevocations (runtime : Runtime) (bundle : Bundle) (current : DateTime)
    (key issuer document : Value) : Except Raised (List String) := do
  let keyCodes ← checkTarget runtime bundle current key "KEY_REVOKED"
  let issuerCodes ← checkTarget runtime bundle current issuer "ISSUER_REVOKED"
  let documentCodes ← checkTarget runtime bundle current document "DOCUMENT_REVOKED"
  return keyCodes ++ issuerCodes ++ documentCodes

/-- The times of an issuer that cannot be read, or that exclude the current one. -/
def issuerClosed (runtime : Runtime) (issuer : Dict) (current : DateTime) : Except Raised Bool :=
  let unreadable := ["valid_from", "valid_until", "revoked_at"].any fun field =>
    truthy (get issuer field) && (time runtime (get issuer field)).isNone
  if !equal (get issuer "status") (.str "active") || unreadable then .ok true
  else do
    if ← revokedAt runtime (get issuer "revoked_at") current then return true
    let early ← match time runtime (get issuer "valid_from") with
      | some validFrom => do (← current.shift skew).less validFrom
      | none => .ok false
    if early then return true
    match time runtime (get issuer "valid_until") with
    | some validUntil => do validUntil.atMost (← current.shift (-skew))
    | none => .ok false

/-- The loop of `_check_chain`, for `rounds` more issuers. The identifiers that were visited are
strings, numbers or booleans, as a set has them. -/
def checkChain (runtime : Runtime) (bundle : Bundle) (current : DateTime) :
    ℕ → List Value → Value → Except Raised (List String)
  | 0, _, _ => .ok ["ISSUER_NOT_TRUSTED"]
  | rounds + 1, visited, issuerId => do
    -- a list or an object is no member of a set
    let anchored ← inSet issuerId bundle.trustAnchors
    if visited.any (equal issuerId) then return ["ISSUER_NOT_TRUSTED"]
    let issuer := bundle.issuers.find? fun item => equal (get item "id") issuerId
    let revocationCodes ← checkTarget runtime bundle current issuerId "ISSUER_REVOKED"
    if anchored then return revocationCodes
    match issuer with
    | none => return revocationCodes ++ ["ISSUER_NOT_TRUSTED"]
    | some issuer =>
      if issuer.isEmpty || !isVerified (get issuer "proof_status") then
        return revocationCodes ++ ["ISSUER_NOT_TRUSTED"]
      if ← issuerClosed runtime issuer current then return revocationCodes ++ ["ISSUER_REVOKED"]
      if !truthy (get issuer "parent") then return revocationCodes ++ ["ISSUER_NOT_TRUSTED"]
      return revocationCodes
        ++ (← checkChain runtime bundle current rounds (issuerId :: visited) (get issuer "parent"))

/-! ### The signature -/

/-- `_es256_verify`. -/
def es256Verify (runtime : Runtime) (jwk : Value) (message signature : List UInt8) :
    Except Raised Bool :=
  if signature.length ≠ 64 then .ok false
  else
    let r : ℤ := fromBig (signature.take 32)
    let s : ℤ := fromBig (signature.drop 32)
    if ¬ (0 < r ∧ r < p256Order) ∨ ¬ (0 < s ∧ s < p256Order) then .ok false
    else do
      let x ← subscript jwk "x" >>= b64
      let y ← subscript jwk "y" >>= b64
      return es256Check runtime.sha256 x y message r s

/-- The protected header names the algorithm and the key of the proof. -/
def headerMatches (header : Json String) (proof : Dict) : Except Raised Bool :=
  match header with
  | .obj members =>
    let text (key : String) := (members.lookup key).bind Json.string?
    .ok (text "alg" == (get proof "algorithm").string?
      && text "kid" == (get proof "verification_method").string?
      && (members.lookup "b64" == some (.bool false))
      && text "typ" == some "oati+jws"
      && (members.lookup "crit" == some (.arr [.str "b64"])))
  | _ => .error .attributeError

/-- The document without the signature of its proof. -/
def unsigned (document proof : Dict) : Dict :=
  JsonText.insertMember document "proof" (.obj (proof.filter fun m => m.1 ≠ "signature"))

/-- What is signed: the header, a point and the document. -/
def signedMessage (runtime : Runtime) (header : List Char) (document proof : Dict) :
    Except Raised (List UInt8) :=
  match canonicalJson runtime.digits (.obj (unsigned document proof)) with
  | .ok text => .ok (Utf8.encode (header ++ '.' :: text.toList))
  | .error .overflowError => .error .overflowError
  | .error .valueError => .error .valueError

/-- The routine of the algorithm. -/
def verifySignature (runtime : Runtime) (algorithm jwk : Value) (message signature : List UInt8) :
    Except Raised Bool :=
  match algorithm with
  | .str "EdDSA" => do
    let x ← subscript jwk "x" >>= b64
    return ed25519Verify runtime.sha512 x message signature
  | .str "ES256" => es256Verify runtime jwk message signature
  | _ => .ok false

/-- The body of the `try`, once the key is valid. -/
def checkSignature (runtime : Runtime) (document proof key : Dict) : Except Raised Bool :=
  match splitDots ((get proof "signature").string?.getD "").toList with
  | [header, encoded] => do
    let bytes ← b64Text header
    let isProtected ← headerMatches (← loads runtime bytes) proof
    if !isProtected then throw .valueError
    let message ← signedMessage runtime header document proof
    let signature ← b64Text encoded
    let jwk ← subscript (.obj key) "public_key_jwk"
    verifySignature runtime (get proof "algorithm") jwk message signature
  | _ => .error .valueError

/-- The codes of the `try`: a `KeyError` passes. -/
def signatureCodes (runtime : Runtime) (document proof key : Dict) (codes : List String) :
    List String :=
  if "KEY_INVALID" ∈ codes then []
  else match checkSignature runtime document proof key with
    | .ok valid => codeIf (!valid) "SIGNATURE_INVALID"
    | .error .keyError => []
    | .error _ => ["SIGNATURE_INVALID"]

/-! ### `verify_document` -/

/-- The claimed issuer of the document is neither the controller nor the issuer of the key. -/
def foreignClaim (document key : Dict) : Bool :=
  let claimed := (document.lookup "issuer").getD (get document "agent_id")
  truthy claimed && !(equal claimed (get key "controller") || equal claimed (get key "issuer"))

/-- The codes under a key. -/
def keyCodes (runtime : Runtime) (document proof key : Dict) (bundle : Bundle)
    (created current : DateTime) : Except Raised (List String) := do
  let invalid ← checkKey runtime key proof created current
  let chain ← checkChain runtime bundle current 9 [] (get key "issuer")
  let revoked ← checkRevocations runtime bundle current (get key "id") (get key "issuer")
    (get document "id")
  let codes := invalid ++ chain ++ revoked ++ codeIf (foreignClaim document key) "KEY_INVALID"
  return codes ++ signatureCodes runtime document proof key codes

/-- `sorted(codes)` of a set. -/
def sortedCodes (codes : List String) : List String :=
  codes.dedup.insertionSort fun a b => a.toList.map Char.toNat ≤ b.toList.map Char.toNat

/-- The key of the proof. -/
def findKey (bundle : Bundle) (proof : Dict) : Option Dict :=
  bundle.keys.find? fun item => equal (get item "id") (get proof "verification_method")

/-- The codes of a proof whose times were read. -/
def proofCodes (runtime : Runtime) (document proof : Dict) (bundle : Bundle) (audience : String)
    (created expires current : DateTime) : Except Raised (List String) := do
  let times ← checkTimes created expires current
  let foreign := !((audiences (get proof "audience")).getD []).any (equal · (.str audience))
  let codes := times ++ codeIf foreign "AUDIENCE_MISMATCH"
  match findKey bundle proof with
  | none => return codes ++ ["KEY_NOT_FOUND"]
  | some key =>
    if key.isEmpty then return codes ++ ["KEY_NOT_FOUND"]
    return codes ++ (← keyCodes runtime document proof key bundle created current)

/-- A replay cache: the keys it has accepted. -/
abbrev ReplayCache := List String

/-- The key of the proof in the replay cache. -/
def replayKey (proof : Dict) (audience : String) : String :=
  (get proof "verification_method").string?.getD "" ++ "\x00" ++ audience ++ "\x00"
    ++ (get proof "nonce").string?.getD ""

/-- The last check: the replay cache, which only sees a proof without codes. -/
def acceptOnce (replay : Option ReplayCache) (key : String) (codes : List String) :
    List String × Option ReplayCache :=
  match codes, replay with
  | [], some seen =>
    if key ∈ seen then (["REPLAY_DETECTED"], some seen) else ([], some (key :: seen))
  | codes, replay => (sortedCodes codes, replay)

/-- `verify_document`. -/
def verifyDocument (runtime : Runtime) (document : Dict) (bundle : Bundle) (audience now : String)
    (replay : Option ReplayCache) : Except Raised (List String × Option ReplayCache) :=
  match get document "proof" with
  | .null => .ok (["PROOF_MISSING"], replay)
  | .obj proof =>
    if proofMalformed runtime proof then .ok (["PROOF_MALFORMED"], replay)
    else match isoTime runtime now with
      | none => .error .valueError
      | some current =>
        match time runtime (get proof "created"), time runtime (get proof "expires") with
        | some created, some expires => do
          if ← expires.atMost created then return (["PROOF_MALFORMED"], replay)
          let codes ← proofCodes runtime document proof bundle audience created expires current
          return acceptOnce replay (replayKey proof audience) codes
        | _, _ => .ok (["PROOF_MALFORMED"], replay)
  | _ => .ok (["PROOF_MALFORMED"], replay)

end Oati.Python.Crypto

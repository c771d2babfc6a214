import Oati.Library.ExpiringSet
import Oati.TypeScript.Dpop
import Oati.TypeScript.HeaderCodec

/-!
# Replayed DPoP proofs

Calls of `verifyDpopProof` that share a store which remembers a key exactly until the instant it
was given. A proof is accepted by whole seconds, so until the end of the second in which its
window ends, and its key is stored until the beginning of that second.

* `DpopCalls`: a sequence of calls, each with its trace, whose calls of the store a set of keys
  that expire answers.
* `InWindow`, `Remembered`: a proof is still accepted, and its key is still stored.
* `proof_accepted_once`: if a proof that is still accepted is still remembered, it is valid once.
* `forgotten_iff_of_integers`: in whole seconds, the exception is the last second of the window.
* `proof_accepted_twice`: in that second a proof is valid twice.
-/

namespace Oati.TypeScript

open Prog

/-! ### Sequences of calls -/

/-- One call of a sequence: what is verified and when, what the calls were answered, and how it
ended. -/
structure DpopPresentation where
  proof : String
  request : DpopRequest
  options : DpopVerificationOptions
  now : ℤ
  trace : List (Event DpopAnswer JsError)
  outcome : Except JsError DpopVerificationResult

namespace DpopPresentation

/-- The call ended with `valid = true`. -/
def Valid (p : DpopPresentation) : Prop := ∃ result, p.outcome = .ok result ∧ result.valid = true

/-- Its instant is the one of the options, or the clock's. -/
def Timed (p : DpopPresentation) : Prop :=
  ∀ now, p.options.now = some now ∨ Answered p.trace .clock (.ok now) → now = p.now

end DpopPresentation

/-- The store's state: until when it remembers a key. -/
abbrev DpopStore := ExpiringSet.State String ℤ

/-- A store that remembers keys answers the calls of a trace at an instant, in order. One that
fails has stored the key or not; an invalid date has passed at once. -/
inductive Remembers (now : ℤ) :
    DpopStore → List (Event DpopAnswer JsError) → DpopStore → Prop where
  | nil (s : DpopStore) : Remembers now s [] s
  | other {s s' : DpopStore} {event : Event DpopAnswer JsError}
      {trace : List (Event DpopAnswer JsError)}
      (h : ∀ key expiresAt, event.call ≠ .checkAndStore key expiresAt)
      (hrest : Remembers now s trace s') : Remembers now s (event :: trace) s'
  | stored {s s' s'' : DpopStore} {key : String} {expiresAt : Option ℤ} {accepted : Bool}
      {trace : List (Event DpopAnswer JsError)}
      (h : ExpiringSet.Step s { key, clock := now, deadline := expiresAt.getD now, accepted } s')
      (hrest : Remembers now s' trace s'') :
      Remembers now s (⟨.checkAndStore key expiresAt, .ok accepted⟩ :: trace) s''
  | lost {s s' s'' : DpopStore} {key : String} {expiresAt : Option ℤ} {accepted : Bool}
      {e : JsError} {trace : List (Event DpopAnswer JsError)}
      (h : ExpiringSet.Step s { key, clock := now, deadline := expiresAt.getD now, accepted } s')
      (hrest : Remembers now s' trace s'') :
      Remembers now s (⟨.checkAndStore key expiresAt, .error e⟩ :: trace) s''
  | failed {s s' : DpopStore} {key : String} {expiresAt : Option ℤ} {e : JsError}
      {trace : List (Event DpopAnswer JsError)} (hrest : Remembers now s trace s') :
      Remembers now s (⟨.checkAndStore key expiresAt, .error e⟩ :: trace) s'

/-- A sequence of calls that share the store. -/
inductive DpopCalls (engine : Engine) (sha256 : List UInt8 → List UInt8) :
    DpopStore → List DpopPresentation → DpopStore → Prop where
  | nil (s : DpopStore) : DpopCalls engine sha256 s [] s
  | cons {s s' s'' : DpopStore} {p : DpopPresentation} {ps : List DpopPresentation}
      (hrun : Run (verifyDpopProof engine p.proof p.request p.options) p.trace p.outcome)
      (htimed : p.Timed)
      (hhash : ∀ bytes hash, Answered p.trace (.digest bytes) (.ok hash) → hash = sha256 bytes)
      (hstore : Remembers p.now s p.trace s') (hrest : DpopCalls engine sha256 s' ps s'') :
      DpopCalls engine sha256 s (p :: ps) s''

/-! ### What the store saw -/

/-- The key of a proof in the store. -/
def ReplayKeyOf (engine : Engine) (sha256 : List UInt8 → List UInt8) (proof : String)
    (key : String) : Prop :=
  ∃ parts header claims jwk text jti, splitProof proof = .ok parts ∧
    decodeObject engine parts.1 = .ok header ∧ decodeObject engine parts.2.1 = .ok claims ∧
    objectMember header "jwk" = some jwk ∧ thumbprintText engine jwk = .ok text ∧
    stringMember claims "jti" = some jti ∧
    key = dpopReplayKey (String.ofList (Base64.encode (sha256 (encodeText text)))) jti

/-- The number `iat` of a proof. -/
def ProofIat (engine : Engine) (proof : String) (iat : ℚ) : Prop :=
  ∃ parts claims, splitProof proof = .ok parts ∧
    decodeObject engine parts.2.1 = .ok claims ∧ iatOf claims = some iat

theorem ReplayKeyOf.unique {engine : Engine} {sha256 : List UInt8 → List UInt8}
    {proof key key' : String} (h : ReplayKeyOf engine sha256 proof key)
    (h' : ReplayKeyOf engine sha256 proof key') : key = key' := by
  obtain ⟨parts, header, claims, jwk, text, jti, hparts, hheader, hclaims, hjwk, htext, hjti, rfl⟩ := h
  obtain ⟨parts', header', claims', jwk', text', jti', hparts', hheader', hclaims', hjwk', htext',
    hjti', rfl⟩ := h'
  obtain rfl := Except.ok.inj (hparts.symm.trans hparts')
  obtain rfl := Except.ok.inj (hheader.symm.trans hheader')
  obtain rfl := Except.ok.inj (hclaims.symm.trans hclaims')
  obtain rfl := Option.some.inj (hjwk.symm.trans hjwk')
  obtain rfl := Except.ok.inj (htext.symm.trans htext')
  obtain rfl := Option.some.inj (hjti.symm.trans hjti')
  rfl

theorem ProofIat.unique {engine : Engine} {proof : String} {iat iat' : ℚ}
    (h : ProofIat engine proof iat) (h' : ProofIat engine proof iat') : iat = iat' := by
  obtain ⟨parts, claims, hparts, hclaims, hiat⟩ := h
  obtain ⟨parts', claims', hparts', hclaims', hiat'⟩ := h'
  obtain rfl := Except.ok.inj (hparts.symm.trans hparts')
  obtain rfl := Except.ok.inj (hclaims.symm.trans hclaims')
  exact Option.some.inj (hiat.symm.trans hiat')

theorem ProofIat.of_eq_ok {engine : Engine} {proof : String} {head body tail : List Char}
    {claims : Record} {iat : ℚ} (hparts : splitProof proof = .ok (head, body, tail))
    (hclaims : decodeObject engine body = .ok claims) (hiat : iatOf claims = some iat) :
    ProofIat engine proof iat :=
  ⟨_, _, hparts, hclaims, hiat⟩

/-- The store's part in one call: a run of an expiring set at its instant. -/
theorem Remembers.attempts {now : ℤ} {s s' : DpopStore} {trace : List (Event DpopAnswer JsError)}
    (h : Remembers now s trace s') :
    ∃ attempts, ExpiringSet.Run s attempts s' ∧ (∀ a ∈ attempts, a.clock = now) ∧
      ∀ key expiresAt, Answered trace (.checkAndStore key expiresAt) (.ok true) →
        ∃ a ∈ attempts, a.key = key ∧ a.deadline = expiresAt.getD now ∧ a.accepted = true := by
  induction h with
  | nil s => exact ⟨[], .nil _, by simp, by rintro _ _ ⟨⟩⟩
  | other h _ ih =>
    obtain ⟨attempts, hrun, hclock, hanswered⟩ := ih
    refine ⟨attempts, hrun, hclock, ?_⟩
    rintro key expiresAt (_ | ⟨_, hmem⟩)
    · exact absurd rfl (h _ _)
    · exact hanswered key expiresAt hmem
  | stored h _ ih =>
    obtain ⟨attempts, hrun, hclock, hanswered⟩ := ih
    refine ⟨_ :: attempts, .cons h hrun, List.forall_mem_cons.mpr ⟨rfl, hclock⟩, ?_⟩
    rintro key expiresAt (_ | ⟨_, hmem⟩)
    · exact ⟨_, List.mem_cons_self, rfl, rfl, rfl⟩
    · obtain ⟨a, ha, hrest⟩ := hanswered key expiresAt hmem
      exact ⟨a, List.mem_cons_of_mem _ ha, hrest⟩
  | lost h _ ih =>
    obtain ⟨attempts, hrun, hclock, hanswered⟩ := ih
    refine ⟨_ :: attempts, .cons h hrun, List.forall_mem_cons.mpr ⟨rfl, hclock⟩, ?_⟩
    rintro key expiresAt (_ | ⟨_, hmem⟩)
    obtain ⟨a, ha, hrest⟩ := hanswered key expiresAt hmem
    exact ⟨a, List.mem_cons_of_mem _ ha, hrest⟩
  | failed _ ih =>
    obtain ⟨attempts, hrun, hclock, hanswered⟩ := ih
    refine ⟨attempts, hrun, hclock, ?_⟩
    rintro key expiresAt (_ | ⟨_, hmem⟩)
    exact hanswered key expiresAt hmem

/-- What the store saw of a call. -/
structure DpopSeen (engine : Engine) (sha256 : List UInt8 → List UInt8) (p : DpopPresentation)
    (attempts : List (ExpiringSet.Attempt String ℤ)) : Prop where
  clock : ∀ a ∈ attempts, a.clock = p.now
  accepted : p.Valid → ∃ key iat, ReplayKeyOf engine sha256 p.proof key ∧
    ProofIat engine p.proof iat ∧ timely p.options iat p.now = true ∧
    ∃ a ∈ attempts, a.key = key ∧ a.deadline = (expiresAt p.options iat).getD p.now ∧
      a.accepted = true

/-- The store's part in a sequence of calls is a run of an expiring set. -/
theorem dpopCalls_attempts {engine : Engine} {sha256 : List UInt8 → List UInt8} {s s' : DpopStore}
    {ps : List DpopPresentation} (h : DpopCalls engine sha256 s ps s') :
    ∃ seen : List (DpopPresentation × List (ExpiringSet.Attempt String ℤ)),
      seen.map Prod.fst = ps ∧ (∀ x ∈ seen, DpopSeen engine sha256 x.1 x.2) ∧
      ExpiringSet.Run s (seen.flatMap Prod.snd) s' := by
  induction h with
  | nil s => exact ⟨[], rfl, by simp, .nil _⟩
  | @cons s s' s'' p ps hrun htimed hhash hstore _ ih =>
    obtain ⟨seen, rfl, hseen, hattempts⟩ := ih
    obtain ⟨as, has, hclock, hanswered⟩ := hstore.attempts
    refine ⟨(p, as) :: seen, rfl, List.forall_mem_cons.mpr ⟨⟨hclock, ?_⟩, hseen⟩, ?_⟩
    · rintro ⟨result, houtcome, hvalid⟩
      rw [houtcome] at hrun
      obtain ⟨claims, jwk, text, hash, now, iat, jti, haccepted⟩ :=
        verifyDpopProof_valid hrun hvalid
      obtain ⟨parts, header, hparts, hheader, hclaims, hjwk⟩ := haccepted.decoded
      obtain rfl := hhash _ _ haccepted.hashed
      obtain rfl := htimed now haccepted.clock
      obtain ⟨a, ha, hkey, hdeadline, hadded⟩ := hanswered _ _ haccepted.stored
      exact ⟨_, iat, ⟨parts, header, claims, jwk, text, jti, hparts, hheader, hclaims, hjwk,
        haccepted.text_eq, haccepted.jti_eq, rfl⟩, ⟨parts, claims, hparts, hclaims,
        haccepted.iat_eq⟩, haccepted.timely, a, ha, hkey, hdeadline, hadded⟩
    · rw [List.flatMap_cons]
      exact has.append hattempts

/-! ### Valid once -/

/-- The same options, but for the instant. -/
def SameOptions (p q : DpopPresentation) : Prop :=
  { p.options with now := none } = { q.options with now := none }

/-- If the proof of the call is still accepted at its instant, its key is still stored. -/
def Remembered (engine : Engine) (p : DpopPresentation) : Prop :=
  ∀ iat, ProofIat engine p.proof iat → timely p.options iat p.now = true →
    ∃ e, expiresAt p.options iat = some e ∧ p.now < e

theorem SameOptions.expiresAt_eq {p q : DpopPresentation} (h : SameOptions p q) (iat : ℚ) :
    expiresAt p.options iat = expiresAt q.options iat := by
  have hlifetime : ∀ options : DpopVerificationOptions,
      expiresAt options iat = expiresAt { options with now := none } iat := fun _ => rfl
  rw [hlifetime p.options, hlifetime q.options, h]

/-- If proofs that are still accepted are remembered, no proof is valid twice. -/
theorem proof_accepted_once {engine : Engine} {sha256 : List UInt8 → List UInt8} {s s' : DpopStore}
    {ps : List DpopPresentation} (h : DpopCalls engine sha256 s ps s')
    (hclock : ps.Pairwise fun p q => p.now ≤ q.now) (hremembered : ∀ p ∈ ps, Remembered engine p) :
    ps.Pairwise fun p q => p.proof = q.proof → SameOptions p q → ¬ (p.Valid ∧ q.Valid) := by
  obtain ⟨seen, rfl, hseen, hrun⟩ := dpopCalls_attempts h
  rw [List.pairwise_map] at hclock ⊢
  have hmono : (seen.flatMap Prod.snd).Pairwise (·.clock ≤ ·.clock) := by
    refine List.pairwise_flatMap.mpr ⟨fun x hx => ?_, ?_⟩
    · refine List.pairwise_of_forall_mem_list fun a ha b hb => ?_
      rw [(hseen x hx).clock a ha, (hseen x hx).clock b hb]
    · refine hclock.imp_of_mem fun {x y} hx hy hle a ha b hb => ?_
      rw [(hseen x hx).clock a ha, (hseen y hy).clock b hb]
      exact hle
  have hdeadlines := (List.pairwise_flatMap.mp (hrun.deadline_le hmono)).2
  refine hdeadlines.imp_of_mem fun {x y} hx hy hdeadline hproof hoptions hboth => ?_
  obtain ⟨key, iat, hkey, hiat, -, a, ha, hakey, hadeadline, haccepted⟩ :=
    (hseen x hx).accepted hboth.1
  obtain ⟨key', iat', hkey', hiat', htimely, b, hb, hbkey, -, hbaccepted⟩ :=
    (hseen y hy).accepted hboth.2
  rw [hproof] at hkey hiat
  obtain rfl := hkey.unique hkey'
  obtain rfl := hiat.unique hiat'
  obtain ⟨e, he, hlt⟩ := hremembered y.1 (List.mem_map_of_mem hy) iat hiat' htimely
  have hle := hdeadline a ha b hb (hbkey.trans hakey.symm) haccepted hbaccepted
  rw [hadeadline, hoptions.expiresAt_eq, he, Option.getD_some, (hseen y hy).clock b hb] at hle
  exact absurd hlt (not_lt.mpr hle)

/-! ### Whole seconds -/

section Integers

variable {options : DpopVerificationOptions} {iat skew maxAge now : ℤ}

/-- Sums of whole numbers of this size are exact. -/
theorem round_intCast_of_le {z : ℤ} (h : z.natAbs ≤ 9007199254740992) :
    Double.round (z : ℚ) = z :=
  Double.round_intCast_of_natAbs_le (by rw [Double.exactBound]; omega)

theorem timely_iff_of_integers (hskew : options.skew = skew) (hmaxAge : options.maxAge = maxAge)
    (hskew_le : skew.natAbs ≤ 10 ^ 12) (hmaxAge_le : maxAge.natAbs ≤ 10 ^ 12)
    (hnow : now.natAbs ≤ 8640000000000000) :
    timely options iat now = true ↔
      iat ≤ now / 1000 + skew ∧ now / 1000 - maxAge - skew ≤ iat := by
  have hlatest : plus (now / 1000) options.skew = ((now / 1000 + skew : ℤ) : ℚ) := by
    rw [plus, hskew, ← Int.cast_add, round_intCast_of_le (by omega)]
  have hearliest : Double.round (minus (now / 1000) options.maxAge - options.skew)
      = ((now / 1000 - maxAge - skew : ℤ) : ℚ) := by
    rw [minus, hskew, hmaxAge, ← Int.cast_sub, round_intCast_of_le (by omega), ← Int.cast_sub,
      round_intCast_of_le (by omega)]
  rw [timely, hlatest, hearliest, Bool.and_eq_true, decide_eq_true_eq, decide_eq_true_eq,
    Int.cast_le, Int.cast_le]

theorem expiresAt_of_integers (hskew : options.skew = skew) (hmaxAge : options.maxAge = maxAge)
    (hskew_le : skew.natAbs ≤ 10 ^ 12) (hmaxAge_le : maxAge.natAbs ≤ 10 ^ 12)
    (hiat : iat.natAbs ≤ 10 ^ 12) :
    expiresAt options iat = some ((iat + maxAge + skew) * 1000) := by
  have hrounded : Double.round (Double.round (Double.round (iat + options.maxAge)
      + options.skew) * 1000) = (((iat + maxAge + skew) * 1000 : ℤ) : ℚ) := by
    rw [hskew, hmaxAge, ← Int.cast_add, round_intCast_of_le (by omega), ← Int.cast_add,
      round_intCast_of_le (by omega), show (1000 : ℚ) = ((1000 : ℤ) : ℚ) from rfl,
      ← Int.cast_mul, round_intCast_of_le (by omega)]
  have hrange : |(((iat + maxAge + skew) * 1000 : ℤ) : ℚ)| ≤ 8640000000000000 := by
    rw [← Int.cast_abs]
    have habs : |(iat + maxAge + skew) * 1000| ≤ (8640000000000000 : ℤ) :=
      abs_le.mpr ⟨by omega, by omega⟩
    exact_mod_cast habs
  rw [expiresAt, hrounded, timeClip, if_pos hrange]
  split_ifs
  · rw [Int.floor_intCast]
  · rw [Int.ceil_intCast]

/-- With whole seconds, a proof is accepted and forgotten exactly in the second that begins when
its key expires. -/
theorem forgotten_iff_of_integers (hskew : options.skew = skew) (hmaxAge : options.maxAge = maxAge)
    (hskew_nonneg : 0 ≤ skew) (hmaxAge_pos : 0 < maxAge) (hskew_le : skew.natAbs ≤ 10 ^ 12)
    (hmaxAge_le : maxAge.natAbs ≤ 10 ^ 12) (hiat : iat.natAbs ≤ 10 ^ 12)
    (hnow : now.natAbs ≤ 8640000000000000) :
    (timely options iat now = true ∧ ¬ ∃ e, expiresAt options iat = some e ∧ now < e) ↔
      (iat + maxAge + skew) * 1000 ≤ now ∧ now < (iat + maxAge + skew) * 1000 + 1000 := by
  rw [timely_iff_of_integers hskew hmaxAge hskew_le hmaxAge_le hnow,
    expiresAt_of_integers hskew hmaxAge hskew_le hmaxAge_le hiat]
  simp only [Option.some.injEq, exists_eq_left']
  omega

end Integers

/-! ### A proof that is valid twice -/

/-- A proof of these documents, with a signature. -/
def proofText (header claims : Record) (signature : List UInt8) : String :=
  String.ofList (Base64.encode (encodeText (stringify plainEngine (.obj header))) ++ '.' ::
    (Base64.encode (encodeText (stringify plainEngine (.obj claims))) ++ '.' ::
      Base64.encode signature))

/-- The documents of such a proof are read back. -/
theorem decodeObject_encode {members : Record} (hdistinct : (Json.obj members : Value).Distinct)
    (hnumbers : PrintsNumbers plainEngine (.obj members)) :
    decodeObject plainEngine
      (Base64.encode (encodeText (stringify plainEngine (.obj members)))) = .ok members := by
  have hread := read_encoded hdistinct hnumbers
  rw [bind_eq_ok] at hread
  obtain ⟨bytes, hbytes, hparse⟩ := hread
  rw [decodeObject, hbytes]
  change (jsonParse plainEngine (decodeText bytes) >>= _) = _
  rw [hparse]
  rfl

theorem splitProof_proofText {header claims : Record} {signature : List UInt8}
    (hheader : PrintsNumbers plainEngine (.obj header))
    (hclaims : PrintsNumbers plainEngine (.obj claims)) (hsignature : signature ≠ []) :
    splitProof (proofText header claims signature)
      = .ok (Base64.encode (encodeText (stringify plainEngine (.obj header))),
          Base64.encode (encodeText (stringify plainEngine (.obj claims))),
          Base64.encode signature) := by
  have hparts : Base64.encode (encodeText (stringify plainEngine (.obj header))) ≠ []
      ∧ Base64.encode (encodeText (stringify plainEngine (.obj claims))) ≠ []
      ∧ Base64.encode signature ≠ [] :=
    ⟨mt Base64.encode_eq_nil.mp (encodeText_stringify_ne_nil hheader),
      mt Base64.encode_eq_nil.mp (encodeText_stringify_ne_nil hclaims),
      mt Base64.encode_eq_nil.mp hsignature⟩
  rw [splitProof, proofText, String.toList_ofList,
    List.splitOn_append_cons_self_of_not_mem (dot_notMem_encode _),
    List.splitOn_append_cons_self_of_not_mem (dot_notMem_encode _),
    List.splitOn_eq_singleton (dot_notMem_encode _)]
  simp only [if_pos hparts]

/-- The base point of P-256, as a key. -/
def shopKey : Record :=
  [("crv", .str "P-256"), ("kty", .str "EC"),
    ("x", .str "axfR8uEsQkf4vOblY6RA8ncDfYEt6zOg9KE5RdiYwpY"),
    ("y", .str "T-NC4v4af5uO5-tKfA-eFivOM1drMV7Oy7ZAaDe_UfU")]

def orderHeader : Record :=
  [("typ", .str "dpop+jwt"), ("alg", .str "ES256"), ("jwk", .obj shopKey)]

/-- The claims of a proof that was issued at the second `1784000000`. -/
def orderClaims : Record :=
  [("jti", .str "order-1"), ("htm", .str "POST"), ("htu", .str "https://api.example/orders"),
    ("iat", .num 1784000000), ("ath", .str "PEaenWxYddN6Q_NT1PiOYfz4EsZu7jRXRlpAsNpBU-A")]

def orderProof : String := proofText orderHeader orderClaims (List.replicate 64 1)

/-- The text of the key that is hashed. -/
def orderKeyText : String :=
  "\x7b\"crv\":\"P-256\",\"kty\":\"EC\",\"x\":\"axfR8uEsQkf4vOblY6RA8ncDfYEt6zOg9KE5RdiYwpY\"," ++
    "\"y\":\"T-NC4v4af5uO5-tKfA-eFivOM1drMV7Oy7ZAaDe_UfU\"\x7d"

/-- SHA-256 of the access token `token`, and of the text of the key. -/
def orderSha256 (bytes : List UInt8) : List UInt8 :=
  if bytes = encodeText "token" then
    [60, 70, 158, 157, 108, 88, 117, 211, 122, 67, 243, 83, 212, 248, 142, 97, 252, 248, 18, 198,
      110, 238, 52, 87, 70, 90, 64, 176, 218, 65, 83, 224]
  else
    [199, 29, 1, 112, 15, 176, 50, 136, 112, 241, 171, 88, 12, 147, 158, 234, 151, 134, 50, 135,
      100, 148, 109, 176, 68, 112, 101, 92, 115, 47, 151, 67]

theorem numbers_orderHeader : PrintsNumbers plainEngine (.obj orderHeader) := by
  intro q hq
  cases hq

theorem numbers_orderClaims : PrintsNumbers plainEngine (.obj orderClaims) := by
  intro q hq
  obtain rfl : q = 1784000000 := List.mem_singleton.mp hq
  decide

/-- The thumbprint of the key, in base64url. -/
def orderThumbprint : String := "xx0BcA-wMohw8atYDJOe6peGModklG2wRHBlXHMvl0M"

theorem distinct_orderHeader : (Json.obj orderHeader : Value).Distinct :=
  ⟨by decide, trivial, trivial, ⟨by decide, trivial, trivial, trivial, trivial, trivial⟩, trivial⟩

theorem distinct_orderClaims : (Json.obj orderClaims : Value).Distinct :=
  ⟨by decide, trivial, trivial, trivial, trivial, trivial, trivial⟩

/-- A call with this proof at an instant, and the store's answer to it. -/
def orderPresentation (now : ℤ) (stored : Bool) : DpopPresentation where
  proof := orderProof
  request := { method := "POST", htu := "https://api.example/orders" }
  options := { accessToken := "token", now := some now }
  now := now
  trace :=
    [⟨.digest (encodeText orderKeyText), .ok (orderSha256 (encodeText orderKeyText))⟩,
      ⟨.digest (encodeText "token"), .ok (orderSha256 (encodeText "token"))⟩,
      ⟨.importKey shopKey .es256, .ok 0⟩,
      ⟨.verify .es256 0 (List.replicate 64 1) (Utf8.encode
        (Base64.encode (encodeText (stringify plainEngine (.obj orderHeader))) ++ '.' ::
          Base64.encode (encodeText (stringify plainEngine (.obj orderClaims))))), .ok true⟩,
      ⟨.checkAndStore (dpopReplayKey orderThumbprint "order-1")
        (some 1784000330000), .ok stored⟩]
  outcome := .ok
    { valid := stored, jkt := some orderThumbprint
      claims := some orderClaims, issues := if stored then [] else ["DPOP_REPLAY"] }

theorem thumbprint_order (bytes : List UInt8) (h : bytes ≠ encodeText "token") :
    String.ofList (Base64.encode (orderSha256 bytes)) = orderThumbprint := by
  rw [orderSha256, if_neg h]
  decide

theorem run_hashText (text : String) (hash : List UInt8) :
    Run (hashText text) [⟨.digest (encodeText text), .ok hash⟩]
      (.ok (String.ofList (Base64.encode hash))) :=
  (run_perform (A := DpopAnswer) (.digest (encodeText text)) (.ok hash)).bind
    (run_pure_iff.mpr ⟨rfl, rfl⟩)

/-- The proof has no issues before its signature is looked at, if it is in its window. -/
theorem dpopIssues_order {options : DpopVerificationOptions} {now : ℤ}
    (hjkt : options.expectedJkt = none) (htimely : timely options 1784000000 now = true) :
    dpopIssues orderHeader orderClaims { method := "POST", htu := "https://api.example/orders" }
      options (some orderThumbprint) "PEaenWxYddN6Q_NT1PiOYfz4EsZu7jRXRlpAsNpBU-A" now = [] := by
  have hiat : iatOf orderClaims = some 1784000000 := rfl
  simp only [dpopIssues, pushIf_eq_nil]
  refine ⟨⟨⟨⟨⟨⟨⟨⟨⟨trivial, ?_⟩, ?_⟩, ?_⟩, ?_⟩, ?_⟩, ?_⟩, ?_⟩, ?_⟩, ?_⟩
  · decide
  · decide
  · decide
  · rw [hjkt]
    rfl
  · decide
  · decide
  · decide
  · rw [hiat, Option.any_some, htimely]
    rfl
  · decide

theorem run_dpopSignature_order {signature : List UInt8} {head body tail : List Char}
    (hmalformed : signatureMalformed orderHeader signature = false)
    (hread : fromBase64url tail = .ok signature) :
    Run (dpopSignature orderHeader shopKey (head, body, tail))
      [⟨.importKey shopKey .es256, .ok 0⟩,
        ⟨.verify .es256 0 signature (Utf8.encode (head ++ '.' :: body)), .ok true⟩]
      (.ok []) := by
  have hnone : pushIf [] (signatureMalformed orderHeader signature) "DPOP_SIGNATURE_INVALID" = [] :=
    pushIf_eq_nil.mpr ⟨rfl, hmalformed⟩
  refine Run.bind (t := []) (run_ofExcept_iff.mpr ⟨rfl, hread.symm⟩) ?_
  simp only [hnone, if_true]
  refine Run.bind (t := [⟨DpopCall.importKey shopKey .es256, .ok 0⟩, _]) (a := .ok true)
    (Run.attempt ?_) (run_pure_iff.mpr ⟨rfl, rfl⟩)
  exact (run_perform (A := DpopAnswer) (.importKey shopKey .es256) (.ok 0)).bind
    (run_perform (A := DpopAnswer) (.verify .es256 0 signature _) (.ok true))

/-- The calls of a proof without issues, to the answer of the store. -/
theorem run_verifyDpopProof {engine : Engine} {proof jkt ath : String} {request : DpopRequest}
    {options : DpopVerificationOptions} {head body tail : List Char}
    {header claims jwk : Record} {now : ℤ} {issues : List String}
    {t₁ t₂ t₃ t₄ : List (Event DpopAnswer JsError)} (htoken : options.accessToken ≠ "")
    (hpolicy : options.policyInvalid = false) (hnow : options.now = some now)
    (hparts : splitProof proof = .ok (head, body, tail)) (hheader : decodeObject engine head = .ok header)
    (hclaims : decodeObject engine body = .ok claims)
    (hkey : objectMember header "jwk" = some jwk)
    (hjkt : Run (headerThumbprint engine header) t₁ (.ok (some jkt)))
    (hath : Run (accessTokenHash options.accessToken) t₂ (.ok ath))
    (hissues : dpopIssues header claims request options (some jkt) ath now = [])
    (hsignature : Run (dpopSignature header jwk (head, body, tail)) t₃ (.ok []))
    (hreplay : Run (dpopReplay claims options jkt) t₄ (.ok issues)) :
    Run (verifyDpopProof engine proof request options) (t₁ ++ (t₂ ++ (t₃ ++ t₄)))
      (.ok { valid := issues.isEmpty, jkt := some jkt, claims := some claims, issues }) := by
  have hfinish : Run (dpopFinish header claims (head, body, tail) options (some jkt) []) (t₃ ++ t₄)
      (.ok issues) := by
    unfold dpopFinish
    simp only [hkey]
    exact hsignature.bind hreplay
  have htime : Run (dpopNow options) [] (.ok now) := by
    rw [dpopNow, hnow]
    exact run_pure_iff.mpr ⟨rfl, rfl⟩
  rw [← hissues] at hfinish
  have hresult : Run (pure { valid := issues.isEmpty, jkt := some jkt, claims := some claims, issues } :
      DpopProg DpopVerificationResult) [] (.ok
        { valid := issues.isEmpty, jkt := some jkt, claims := some claims, issues }) :=
    run_pure_iff.mpr ⟨rfl, rfl⟩
  have htry : Run (verifyProofParts engine proof request options) (t₁ ++ (t₂ ++ (t₃ ++ t₄)))
      (.ok { valid := issues.isEmpty, jkt := some jkt, claims := some claims, issues }) := by
    rw [← List.append_nil (t₃ ++ t₄)]
    refine Run.bind (t := []) (run_ofExcept_iff.mpr ⟨rfl, hparts.symm⟩) ?_
    refine Run.bind (t := []) (run_ofExcept_iff.mpr ⟨rfl, hheader.symm⟩) ?_
    refine Run.bind (t := []) (run_ofExcept_iff.mpr ⟨rfl, hclaims.symm⟩) ?_
    exact hjkt.bind (hath.bind (Run.bind (t := []) htime (hfinish.bind hresult)))
  rw [verifyDpopProof, if_neg htoken, hpolicy, if_neg Bool.false_ne_true,
    ← List.append_nil (t₁ ++ _)]
  exact (Run.attempt htry).bind hresult

theorem run_dpopReplay {claims : Record} {options : DpopVerificationOptions} {jkt jti : String}
    {iat : ℚ} {e : Option ℤ} (hiat : iatOf claims = some iat)
    (hjti : stringMember claims "jti" = some jti) (hexpires : expiresAt options iat = e)
    (stored : Bool) :
    Run (dpopReplay claims options jkt) [⟨.checkAndStore (dpopReplayKey jkt jti) e, .ok stored⟩]
      (.ok (if stored then [] else ["DPOP_REPLAY"])) := by
  have hissues : pushIf [] (!stored) "DPOP_REPLAY" = if stored then [] else ["DPOP_REPLAY"] := by
    cases stored <;> rfl
  subst hexpires
  have hid : (stringMember claims "jti").getD "" = jti := by rw [hjti, Option.getD_some]
  have htime : (iatOf claims).getD 0 = iat := by rw [hiat, Option.getD_some]
  rw [dpopReplay, hid, htime, ← hissues]
  exact (Run.attempt (run_perform (A := DpopAnswer)
    (.checkAndStore (dpopReplayKey jkt jti) (expiresAt options iat)) (.ok stored))).bind
    (run_pure_iff.mpr ⟨rfl, rfl⟩)

/-- Inside the window of the proof the call ends as the store answers. -/
theorem run_orderPresentation {now : ℤ} (hearliest : 1783999970000 ≤ now)
    (hlatest : now < 1784000331000) (stored : Bool) :
    Run (verifyDpopProof plainEngine orderProof (orderPresentation now stored).request
        (orderPresentation now stored).options) (orderPresentation now stored).trace
      (orderPresentation now stored).outcome := by
  have hskew : (orderPresentation now stored).options.skew = ((30 : ℤ) : ℚ) := rfl
  have hmaxAge : (orderPresentation now stored).options.maxAge = ((300 : ℤ) : ℚ) := rfl
  have htimely : timely (orderPresentation now stored).options 1784000000 now = true :=
    (@timely_iff_of_integers _ 1784000000 _ _ _ hskew hmaxAge (by decide) (by decide)
      (by omega)).mpr (by omega)
  have hexpires : expiresAt (orderPresentation now stored).options 1784000000
      = some 1784000330000 :=
    @expiresAt_of_integers _ 1784000000 _ _ hskew hmaxAge (by decide) (by decide) (by decide)
  have hsplit := @splitProof_proofText _ _ (List.replicate 64 1) numbers_orderHeader
    numbers_orderClaims (by decide)
  have hheader := decodeObject_encode distinct_orderHeader numbers_orderHeader
  have hclaims := decodeObject_encode distinct_orderClaims numbers_orderClaims
  have htext : thumbprintText plainEngine shopKey = .ok orderKeyText := by decide +kernel
  have hthumbprint := thumbprint_order (encodeText orderKeyText) (by decide +kernel)
  have htoken : String.ofList (Base64.encode (orderSha256 (encodeText "token")))
      = "PEaenWxYddN6Q_NT1PiOYfz4EsZu7jRXRlpAsNpBU-A" := by decide +kernel
  have hjkt : Run (headerThumbprint plainEngine orderHeader)
      [⟨.digest (encodeText orderKeyText), .ok (orderSha256 (encodeText orderKeyText))⟩]
      (.ok (some orderThumbprint)) := by
    rw [← hthumbprint]
    exact Run.bind (Run.bind (t := []) (run_ofExcept_iff.mpr ⟨rfl, htext.symm⟩)
      (run_hashText _ _)) (run_pure_iff.mpr ⟨rfl, rfl⟩)
  have hath : Run (accessTokenHash (orderPresentation now stored).options.accessToken)
      [⟨.digest (encodeText "token"), .ok (orderSha256 (encodeText "token"))⟩]
      (.ok "PEaenWxYddN6Q_NT1PiOYfz4EsZu7jRXRlpAsNpBU-A") := by
    rw [← htoken]
    exact run_hashText "token" _
  have hne : (orderPresentation now stored).options.accessToken ≠ "" := by
    have htext : "token" ≠ "" := by decide
    exact htext
  have hissues := @dpopIssues_order (orderPresentation now stored).options now rfl htimely
  have hsignature := @run_dpopSignature_order (List.replicate 64 1)
    (Base64.encode (encodeText (stringify plainEngine (.obj orderHeader))))
    (Base64.encode (encodeText (stringify plainEngine (.obj orderClaims))))
    (Base64.encode (List.replicate 64 1)) (by decide) (fromBase64url_encode (by decide))
  have hiat : iatOf orderClaims = some 1784000000 := rfl
  have hjti : stringMember orderClaims "jti" = some "order-1" := by decide
  have hreplay := @run_dpopReplay _ _ orderThumbprint _ _ _ hiat hjti hexpires stored
  have hrun := run_verifyDpopProof hne rfl rfl hsplit hheader hclaims rfl hjkt hath hissues
    hsignature hreplay
  cases stored
  · exact hrun
  · exact hrun

/-- The store's part in such a call. -/
theorem Remembers.orderPresentation {now : ℤ} {stored : Bool} {s s' : DpopStore}
    (h : ExpiringSet.Step s { key := dpopReplayKey orderThumbprint "order-1", clock := now
                              deadline := 1784000330000, accepted := stored } s') :
    Remembers now s (Oati.TypeScript.orderPresentation now stored).trace s' := by
  refine .other (by rintro _ _ ⟨⟩) (.other (by rintro _ _ ⟨⟩) (.other (by rintro _ _ ⟨⟩)
    (.other (by rintro _ _ ⟨⟩) (.stored ?_ (.nil s')))))
  exact h

theorem orderPresentation_timed (now : ℤ) (stored : Bool) :
    (orderPresentation now stored).Timed := by
  rintro instant (hoption | hanswered)
  · exact (Option.some.inj hoption).symm
  · obtain _ | ⟨_, _ | ⟨_, _ | ⟨_, _ | ⟨_, _ | ⟨_, ⟨⟩⟩⟩⟩⟩⟩ := hanswered

/-- What two hashed texts and calls that hash nothing answer. -/
theorem answered_digest {sha256 : List UInt8 → List UInt8} {x y bytes hash : List UInt8}
    {trace : List (Event DpopAnswer JsError)} (h : ∀ event ∈ trace, ∀ z, event.call ≠ .digest z)
    (hanswered : Answered (⟨.digest x, .ok (sha256 x)⟩ :: ⟨.digest y, .ok (sha256 y)⟩ :: trace)
      (.digest bytes) (.ok hash)) : hash = sha256 bytes := by
  obtain _ | ⟨_, _ | ⟨_, hmem⟩⟩ := hanswered
  · rfl
  · rfl
  · exact absurd rfl (h _ hmem bytes)

theorem orderPresentation_hashed (now : ℤ) (stored : Bool) {bytes hash : List UInt8}
    (h : Answered (orderPresentation now stored).trace (.digest bytes) (.ok hash)) :
    hash = orderSha256 bytes := by
  refine answered_digest ?_ h
  rintro event (_ | ⟨_, _ | ⟨_, _ | ⟨_, ⟨⟩⟩⟩⟩) z heq <;> cases heq

/-- A call with this proof inside its window, and calls after it. -/
theorem DpopCalls.orderPresentation {now : ℤ} {stored : Bool} {s s' s'' : DpopStore}
    {ps : List DpopPresentation} (hearliest : 1783999970000 ≤ now) (hlatest : now < 1784000331000)
    (hstep : ExpiringSet.Step s { key := dpopReplayKey orderThumbprint "order-1", clock := now
                                  deadline := 1784000330000, accepted := stored } s')
    (hrest : DpopCalls plainEngine orderSha256 s' ps s'') :
    DpopCalls plainEngine orderSha256 s (Oati.TypeScript.orderPresentation now stored :: ps) s'' :=
  .cons (run_orderPresentation hearliest hlatest stored) (orderPresentation_timed now stored)
    (fun _ _ h => orderPresentation_hashed now stored h) (.orderPresentation hstep) hrest

/-- A store that remembers one key. -/
def onlyKey (key : String) (deadline : ℤ) : DpopStore :=
  fun k => if k = key then some deadline else none

/-- A key that is not stored, or whose time has come, is stored. -/
theorem step_onlyKey {s : DpopStore} {key : String} {clock deadline : ℤ}
    (hkey : ¬ ExpiringSet.Live s clock key) (hother : ∀ k ≠ key, s k = none) :
    ExpiringSet.Step s { key, clock, deadline, accepted := true } (onlyKey key deadline) := by
  refine .accepted hkey rfl (.inl (if_pos rfl)) fun k hk => .inl ?_
  rw [hother k hk]
  exact if_neg hk

theorem proofIat_orderProof {iat : ℚ} (h : ProofIat plainEngine orderProof iat) :
    iat = 1784000000 := by
  have hclaims := decodeObject_encode distinct_orderClaims numbers_orderClaims
  have hsplit := @splitProof_proofText _ _ (List.replicate 64 1) numbers_orderHeader
    numbers_orderClaims (by decide)
  have hiat : iatOf orderClaims = some 1784000000 := rfl
  rw [orderProof] at h
  exact h.unique (.of_eq_ok hsplit hclaims hiat)

/-- Until its last second the proof is remembered, and its second call is refused. -/
theorem proof_accepted_once_order :
    (orderPresentation 1784000329000 true).Valid ∧
      ¬ (orderPresentation 1784000329500 false).Valid := by
  have hcalls : DpopCalls plainEngine orderSha256 (fun _ => none)
      [orderPresentation 1784000329000 true, orderPresentation 1784000329500 false]
      (onlyKey (dpopReplayKey orderThumbprint "order-1") 1784000330000) := by
    refine .orderPresentation (by decide) (by decide)
      (step_onlyKey (fun ⟨d, hd, _⟩ => Option.some_ne_none d hd.symm) fun _ _ => rfl) ?_
    refine .orderPresentation (by decide) (by decide) (.refused ?_ rfl) (.nil _)
    exact ⟨1784000330000, if_pos rfl, by decide⟩
  have hremembered : ∀ (now : ℤ) (stored : Bool), now < 1784000330000 →
      Remembered plainEngine (orderPresentation now stored) := by
    intro now stored hnow iat hiat _
    have hskew : (orderPresentation now stored).options.skew = ((30 : ℤ) : ℚ) := rfl
    have hmaxAge : (orderPresentation now stored).options.maxAge = ((300 : ℤ) : ℚ) := rfl
    rw [proofIat_orderProof hiat]
    exact ⟨_, expiresAt_of_integers hskew hmaxAge (by decide) (by decide)
      (by decide), hnow⟩
  have hclock : [orderPresentation 1784000329000 true,
      orderPresentation 1784000329500 false].Pairwise fun p q => p.now ≤ q.now :=
    List.pairwise_pair.mpr (by decide)
  have honce := proof_accepted_once hcalls hclock (List.forall_mem_cons.mpr
    ⟨hremembered _ _ (by decide), List.forall_mem_singleton.mpr (hremembered _ _ (by decide))⟩)
  have hvalid : (orderPresentation 1784000329000 true).Valid := ⟨_, rfl, rfl⟩
  exact ⟨hvalid, fun hagain => List.pairwise_pair.mp honce rfl rfl ⟨hvalid, hagain⟩⟩

/-- In the second that begins when its key expires, the proof is valid again. -/
theorem proof_accepted_twice :
    ∃ (p q : DpopPresentation) (s' : DpopStore),
      DpopCalls plainEngine orderSha256 (fun _ => none) [p, q] s' ∧ p.now ≤ q.now ∧
      p.proof = q.proof ∧ SameOptions p q ∧ p.Valid ∧ q.Valid := by
  refine ⟨orderPresentation 1784000329000 true, orderPresentation 1784000330500 true,
    onlyKey (dpopReplayKey orderThumbprint "order-1") 1784000330000, ?_, by decide, rfl, rfl,
    ⟨_, rfl, rfl⟩, _, rfl, rfl⟩
  refine .orderPresentation (by decide) (by decide)
    (step_onlyKey (fun ⟨d, hd, _⟩ => Option.some_ne_none d hd.symm) fun _ _ => rfl) ?_
  refine .orderPresentation (by decide) (by decide) (step_onlyKey ?_ ?_) (.nil _)
  · rintro ⟨d, hd, hlt⟩
    obtain rfl := Option.some.inj ((if_pos rfl).symm.trans hd)
    exact absurd hlt (by decide)
  · exact fun _ hk => if_neg hk

end Oati.TypeScript

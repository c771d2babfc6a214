import Oati.Cli.Verification
import Oati.Library.Walk

/-!
# What the command line verifies

Every check adds its issues to those before it, so a report without issues says that each of them
added none. `Acceptance` collects what that means; the chain of issuers is a path of at most nine
distinct issuers to an anchor, none of which is revoked.
-/

namespace Oati.Cli

open Go (Value Object str parseTime)

variable {runtime : VerifierRuntime} {bundle : TrustBundle} {value : Object} {issues : Issues}
  {p : Proof} {key : VerificationKey} {now maxAge skew created : ℤ}

/-! ### The proof and the document -/

/-- The proof has begun and not ended, and is not too old. -/
structure ProofTimely (runtime : VerifierRuntime) (p : Proof) (now maxAge skew created expires : ℤ) :
    Prop where
  created_eq : parseTime runtime.times p.created = some created
  expires_eq : parseTime runtime.times p.expires = some expires
  ordered : created < expires
  begun : created ≤ now + skew
  lasting : now + Go.wrap (-skew) < expires
  age : Go.subTime now created ≤ Go.wrap (maxAge + skew)

theorem checkProofTimes_eq_nil : checkProofTimes runtime p now maxAge skew issues = [] ↔
    issues = [] ∧ ∃ created expires, ProofTimely runtime p now maxAge skew created expires := by
  unfold checkProofTimes
  split
  · next created expires hcreated hexpires =>
    split_ifs with hordered
    · refine iff_of_false (addIssue_ne_nil _ _ _) ?_
      rintro ⟨-, _, _, h⟩
      obtain rfl := Option.some.inj (hcreated.symm.trans h.created_eq)
      obtain rfl := Option.some.inj (hexpires.symm.trans h.expires_eq)
      exact absurd h.ordered (not_lt.mpr hordered)
    · simp only [addIssueIf_eq_nil, decide_eq_false_iff_not, not_lt, not_le, and_assoc]
      refine and_congr_right fun _ => ⟨?_, ?_⟩
      · rintro ⟨hbegun, hlasting, hage⟩
        exact ⟨created, expires, hcreated, hexpires, not_le.mp hordered, hbegun, hlasting, hage⟩
      · rintro ⟨_, _, h⟩
        obtain rfl := Option.some.inj (hcreated.symm.trans h.created_eq)
        obtain rfl := Option.some.inj (hexpires.symm.trans h.expires_eq)
        exact ⟨h.begun, h.lasting, h.age⟩
  · next hother =>
    refine iff_of_false (addIssue_ne_nil _ _ _) ?_
    rintro ⟨-, created, expires, h⟩
    exact hother created expires h.created_eq h.expires_eq

/-- The time the document is active from. -/
def documentStart (value : Object) : String :=
  if str (value.lookup "not_before") = "" then str (value.lookup "issued_at")
  else str (value.lookup "not_before")

/-- The document is active, give or take the clock skew. -/
structure DocumentTimely (runtime : VerifierRuntime) (value : Object) (now skew : ℤ) : Prop where
  started : documentStart value ≠ "" →
    ∃ start, parseTime runtime.times (documentStart value) = some start ∧ start ≤ now + skew
  lasting : str (value.lookup "expires_at") ≠ "" → ∃ expires,
    parseTime runtime.times (str (value.lookup "expires_at")) = some expires ∧
      now + Go.wrap (-skew) < expires

/-- A time that is given has to be read, and to pass a test. -/
theorem given_and_all_eq_false {s : String} {time : Option ℤ} {test : ℤ → Bool} :
    (s != "" && time.all test) = false ↔ (s ≠ "" → ∃ t, time = some t ∧ test t = false) := by
  by_cases hs : s = ""
  · simp [hs]
  · cases time <;> simp [hs]

theorem checkDocumentTimes_eq_nil : checkDocumentTimes runtime value now skew issues = [] ↔
    issues = [] ∧ DocumentTimely runtime value now skew := by
  unfold checkDocumentTimes
  rw [addIssueIf_eq_nil, addIssueIf_eq_nil, given_and_all_eq_false, given_and_all_eq_false, and_assoc]
  simp only [decide_eq_false_iff_not, not_lt, not_le]
  exact and_congr_right fun _ => ⟨fun h => ⟨h.1, h.2⟩, fun h => ⟨h.started, h.lasting⟩⟩

/-! ### The key -/

/-- The key is the one the proof names, and its state is known. -/
structure KeyMatches (key : VerificationKey) (p : Proof) : Prop where
  id_eq : key.id = p.verificationMethod
  algorithm_eq : key.algorithm = p.algorithm
  verified : key.proofStatus = "" ∨ key.proofStatus = "verified"
  point : key.algorithm = "EdDSA" →
    ∃ bytes, decodeString key.publicKeyJwk.x.toList = some bytes ∧
      validEd25519PublicKey bytes = true
  status : key.status ∈ ["active", "retired", "revoked"]
  retired : key.status = "retired" → key.validUntil ≠ ""

theorem checkKeyMetadata_eq_nil :
    checkKeyMetadata key p issues = [] ↔ issues = [] ∧ KeyMatches key p := by
  unfold checkKeyMetadata
  simp only [addIssueIf_eq_nil, and_assoc]
  refine and_congr_right fun _ => ?_
  simp only [Bool.or_eq_false_iff, bne_eq_false_iff_eq, Bool.and_eq_false_iff, Bool.not_eq_false',
    Option.any_eq_true, beq_eq_false_iff_ne, List.contains_iff_mem]
  constructor
  · rintro ⟨⟨⟨hid, halgorithm⟩, hverified⟩, hpoint, hstatus, hretired⟩
    exact ⟨hid, halgorithm, hverified, fun h => hpoint.resolve_left fun hne => hne h, hstatus,
      fun h => hretired.resolve_left fun hne => hne h⟩
  · rintro ⟨hid, halgorithm, hverified, hpoint, hstatus, hretired⟩
    exact ⟨⟨⟨hid, halgorithm⟩, hverified⟩, or_iff_not_imp_left.mpr fun h => hpoint (not_not.mp h),
      hstatus, or_iff_not_imp_left.mpr fun h => hretired (not_not.mp h)⟩

/-- The key was valid when the proof was created, and it is not revoked. -/
structure KeyLive (runtime : VerifierRuntime) (key : VerificationKey) (created now skew : ℤ) :
    Prop where
  from_eq : ∃ start, parseTime runtime.times key.validFrom = some start ∧
    start + Go.wrap (-skew) ≤ created
  until_eq : key.validUntil ≠ "" → ∃ until', parseTime runtime.times key.validUntil = some until' ∧
    created < until' + skew
  status : key.status ≠ "revoked"
  revoked_eq : key.revokedAt ≠ "" → ∃ revoked, parseTime runtime.times key.revokedAt = some revoked ∧
    now < revoked

theorem parseOptionalTime_eq {s : String} (hs : s ≠ "") :
    parseOptionalTime runtime s = parseTime runtime.times s := if_neg hs

theorem option_all_eq_false {time : Option ℤ} {test : ℤ → Bool} :
    time.all test = false ↔ ∃ t, time = some t ∧ test t = false := by
  cases time <;> simp

theorem checkKeyLifecycle_eq_nil : checkKeyLifecycle runtime key created now skew issues = [] ↔
    issues = [] ∧ KeyLive runtime key created now skew := by
  have huntil : (key.validUntil != ""
      && (parseOptionalTime runtime key.validUntil).all fun until' => until' + skew ≤ created) = false ↔
      (key.validUntil ≠ "" → ∃ until', parseTime runtime.times key.validUntil = some until' ∧
        created < until' + skew) := by
    rw [given_and_all_eq_false]
    refine forall_congr' fun hne => ?_
    simp only [parseOptionalTime_eq hne, decide_eq_false_iff_not, not_le]
  have hfrom : ((parseTime runtime.times key.validFrom).all fun start =>
      created < start + Go.wrap (-skew)) = false ↔ ∃ start,
        parseTime runtime.times key.validFrom = some start ∧ start + Go.wrap (-skew) ≤ created := by
    simp only [option_all_eq_false, decide_eq_false_iff_not, not_lt]
  unfold checkKeyLifecycle
  dsimp only
  by_cases hrevoked : key.revokedAt = ""
  · rw [if_pos hrevoked, addIssueIf_eq_nil, addIssueIf_eq_nil, addIssueIf_eq_nil, hfrom, huntil,
      beq_eq_false_iff_ne, and_assoc, and_assoc]
    exact and_congr_right fun _ => ⟨fun h => ⟨h.1, h.2.1, h.2.2, fun hne => absurd hrevoked hne⟩,
      fun h => ⟨h.from_eq, h.until_eq, h.status⟩⟩
  · rw [if_neg hrevoked, parseOptionalTime_eq hrevoked]
    rcases htime : parseTime runtime.times key.revokedAt with _ | revoked
    · refine iff_of_false (addIssue_ne_nil _ _ _) ?_
      rintro ⟨-, h⟩
      obtain ⟨revoked, heq, -⟩ := h.revoked_eq hrevoked
      rw [htime] at heq
      cases heq
    · dsimp only
      rw [addIssueIf_eq_nil, addIssueIf_eq_nil, addIssueIf_eq_nil, addIssueIf_eq_nil, hfrom, huntil,
        beq_eq_false_iff_ne, decide_eq_false_iff_not, not_le, and_assoc, and_assoc, and_assoc]
      refine and_congr_right fun _ => ⟨?_, ?_⟩
      · rintro ⟨hstart, hend, hstatus, hlate⟩
        exact ⟨hstart, hend, hstatus, fun _ => ⟨revoked, htime, hlate⟩⟩
      · rintro ⟨hstart, hend, hstatus, hlate⟩
        obtain ⟨revoked', heq, hlate⟩ := hlate hrevoked
        obtain rfl := Option.some.inj (htime.symm.trans heq)
        exact ⟨hstart, hend, hstatus, hlate⟩

/-! ### Revocations and issuers -/

/-- Nothing is said of the target, or one status that is good or not yet effective. -/
def Clear (runtime : VerifierRuntime) (statuses : List RevocationStatus) (now : ℤ)
    (target : String) : Prop :=
  target = "" ∨ (statuses.filter fun status => status.target == target) = [] ∨
    ∃ found, (statuses.filter fun status => status.target == target) = [found] ∧
      (found.status = "good" ∨ (found.status = "revoked" ∨ found.status = "suspended") ∧
        found.effectiveAt ≠ "" ∧ ∃ effective,
          parseTime runtime.times found.effectiveAt = some effective ∧ now < effective)

theorem checkRevocationTarget_eq_nil {target code : String} {statuses : List RevocationStatus} :
    checkRevocationTarget runtime target code statuses now issues = [] ↔
      issues = [] ∧ Clear runtime statuses now target := by
  unfold checkRevocationTarget Clear
  by_cases htarget : target = ""
  · simp [htarget]
  rw [if_neg htarget]
  generalize (statuses.filter fun status => status.target == target) = matching
  rcases matching with _ | ⟨found, _ | ⟨other, rest⟩⟩
  · simp
  · dsimp only
    have hlist : ([found] : List RevocationStatus) ≠ [] := List.cons_ne_nil _ _
    simp only [htarget, hlist, false_or, List.cons.injEq, and_true, exists_eq_left']
    by_cases hgood : found.status = "good"
    · simp [hgood]
    rw [if_neg hgood]
    by_cases hknown : found.status = "revoked" ∨ found.status = "suspended"
    swap
    · rw [if_pos (not_or.mp hknown)]
      exact iff_of_false (addIssue_ne_nil _ _ _) fun h =>
        h.2.elim hgood fun h => hknown h.1
    rw [if_neg fun h => hknown.elim h.1 h.2]
    by_cases heffective : found.effectiveAt = ""
    · rw [if_pos heffective]
      exact iff_of_false (addIssue_ne_nil _ _ _) fun h =>
        h.2.elim hgood fun h => h.2.1 heffective
    rw [if_neg heffective, parseOptionalTime_eq heffective]
    rcases parseTime runtime.times found.effectiveAt with _ | effective
    · simp [addIssue_ne_nil, hgood]
    · simp [addIssueIf_eq_nil, hgood, hknown, heffective]
  · simp [addIssue_ne_nil, htarget]

theorem checkRevocations_eq_nil :
    checkRevocations runtime value key bundle.revocations now issues = [] ↔ issues = [] ∧
      Clear runtime bundle.revocations now key.id ∧
      Clear runtime bundle.revocations now key.issuer ∧
      Clear runtime bundle.revocations now (str (value.lookup "id")) := by
  unfold checkRevocations
  simp only [List.foldl_cons, List.foldl_nil, checkRevocationTarget_eq_nil, and_assoc]

/-- The parent of an issuer that is verified and open. -/
def parentOf (runtime : VerifierRuntime) (bundle : TrustBundle) (now skew : ℤ) (id : String) :
    Option String :=
  (bundle.issuers.find? fun issuer => issuer.id == id).bind fun found =>
    if (found.proofStatus = "" ∨ found.proofStatus = "verified") ∧
        issuerIssue runtime found now skew = none ∧ found.parent ≠ "" then some found.parent
    else none

/-- The issues of a walk contain those it began with. -/
theorem eq_nil_of_validateIssuerChain {skew : ℤ} : ∀ {rounds : ℕ} {visited : List String}
    {current : String} {issues : Issues},
    (validateIssuerChain runtime bundle now skew rounds visited current issues).2 = [] →
      issues = [] := by
  intro rounds
  induction rounds with
  | zero =>
    intro visited current issues h
    exact absurd h (addIssue_ne_nil _ _ _)
  | succ rounds ih =>
    intro visited current issues h
    have hchecked : checkRevocationTarget runtime current "ISSUER_REVOKED" bundle.revocations now
        issues = [] := by
      unfold validateIssuerChain at h
      dsimp only at h
      repeat' split at h
      all_goals first
        | exact absurd h (addIssue_ne_nil _ _ _)
        | exact ih h
        | exact h
    exact (checkRevocationTarget_eq_nil.mp hchecked).1

/-- No round is left. -/
theorem validateIssuerChain_zero {visited : List String} {current : String} :
    (validateIssuerChain runtime bundle now skew 0 visited current issues).2 ≠ [] := by
  rw [validateIssuerChain]
  exact addIssue_ne_nil _ _ _

/-- One round of the walk. -/
theorem validateIssuerChain_succ {rounds : ℕ} {visited : List String} {current : String} :
    (validateIssuerChain runtime bundle now skew (rounds + 1) visited current []).2 = [] ↔
      Clear runtime bundle.revocations now current ∧ (current ∈ bundle.trustAnchors ∨
        current ∉ bundle.trustAnchors ∧ current ∉ visited ∧ ∃ parent,
          parentOf runtime bundle now skew current = some parent ∧
          (validateIssuerChain runtime bundle now skew rounds (current :: visited) parent []).2
            = []) := by
  have hchecked := @checkRevocationTarget_eq_nil runtime [] now current "ISSUER_REVOKED"
    bundle.revocations
  rw [eq_self_iff_true, true_and] at hchecked
  rw [validateIssuerChain, parentOf]
  by_cases hanchor : current ∈ bundle.trustAnchors
  · rw [if_pos (List.contains_iff_mem.mpr hanchor), hchecked]
    exact ⟨fun h => ⟨h, .inl hanchor⟩, fun h => h.1⟩
  rw [if_neg (mt List.contains_iff_mem.mp hanchor)]
  by_cases hvisited : current ∈ visited
  · rw [if_pos (List.contains_iff_mem.mpr hvisited)]
    exact iff_of_false (addIssue_ne_nil _ _ _) fun h =>
      h.2.elim hanchor fun h => h.2.1 hvisited
  rw [if_neg (mt List.contains_iff_mem.mp hvisited)]
  generalize (bundle.issuers.find? fun issuer => issuer.id == current) = issuer
  rcases issuer with _ | found
  · simp [addIssue_ne_nil, hanchor]
  dsimp only
  by_cases hverified : found.proofStatus = "" ∨ found.proofStatus = "verified"
  swap
  · rw [if_pos (not_or.mp hverified)]
    simp [addIssue_ne_nil, hanchor, hverified]
  rw [if_neg fun h => hverified.elim h.1 h.2]
  rcases hissue : issuerIssue runtime found now skew with _ | message
  swap
  · simp [addIssue_ne_nil, hanchor, hissue]
  dsimp only
  by_cases hparent : found.parent = ""
  · rw [if_pos hparent]
    simp [addIssue_ne_nil, hanchor, hparent]
  rw [if_neg hparent]
  simp only [Option.bind_some, hverified, hissue, hparent, ne_eq, not_false_eq_true, and_self,
    if_true, Option.some.injEq, exists_eq_left', hanchor, hvisited, false_or, true_and]
  constructor
  · intro h
    have hclear := eq_nil_of_validateIssuerChain h
    rw [hclear] at h
    exact ⟨hchecked.mp hclear, h⟩
  · rintro ⟨hclear, h⟩
    rwa [hchecked.mpr hclear]

/-- The chain of issuers of a key: at most nine of them, to an anchor. -/
def IssuerPath (runtime : VerifierRuntime) (bundle : TrustBundle) (now skew : ℤ) (start : String)
    (path : List String) : Prop :=
  Walk.Path (· ∈ bundle.trustAnchors) (Clear runtime bundle.revocations now)
    (parentOf runtime bundle now skew) Eq 9 [] start path

theorem validateIssuerChain_eq_nil {start : String} :
    (validateIssuerChain runtime bundle now skew 9 [] start issues).2 = [] ↔
      issues = [] ∧ ∃ path, IssuerPath runtime bundle now skew start path := by
  have hwalk := @Walk.succeeds_iff String (· ∈ bundle.trustAnchors)
    (Clear runtime bundle.revocations now) (parentOf runtime bundle now skew) Eq
    (fun rounds visited current =>
      (validateIssuerChain runtime bundle now skew rounds visited current []).2 = [])
    (fun visited current => validateIssuerChain_zero) ?_
  · constructor
    · intro h
      obtain rfl := eq_nil_of_validateIssuerChain h
      exact ⟨rfl, (hwalk 9 [] start (by simp)).mp h⟩
    · rintro ⟨rfl, hpath⟩
      exact (hwalk 9 [] start (by simp)).mpr hpath
  · intro rounds visited current hvisited
    rw [validateIssuerChain_succ]
    have hfresh : (∀ v ∈ visited, ¬ current = v) ↔ current ∉ visited :=
      ⟨fun h hmem => h current hmem rfl, fun h v hv heq => h (heq ▸ hv)⟩
    rw [hfresh]
    refine and_congr_right fun _ => ?_
    constructor
    · rintro (hanchor | ⟨hanchor, hnew, hparent⟩)
      · exact ⟨fun hmem => hvisited current hmem hanchor, .inl hanchor⟩
      · exact ⟨hnew, .inr ⟨hanchor, hparent⟩⟩
    · rintro ⟨hnew, hanchor | ⟨hanchor, hparent⟩⟩
      · exact .inl hanchor
      · exact .inr ⟨hanchor, hnew, hparent⟩

/-! ### Whole reports -/

/-- Everything a report without issues has established. -/
structure Acceptance (runtime : VerifierRuntime) (value : Object) (bundle : TrustBundle)
    (audience : String) (now maxAge skew : ℤ) (p : Proof) (key : VerificationKey)
    (created expires : ℤ) (path : List String) : Prop where
  proof_eq : parseProof (value.lookup "proof") = .ok p
  allowed : p.algorithm = "EdDSA" ∨ p.algorithm = "ES256"
  proofTimely : ProofTimely runtime p now maxAge skew created expires
  documentTimely : DocumentTimely runtime value now skew
  heard : audienceContains p.audience audience = true
  key_eq : findKey bundle.keys p.verificationMethod = some key
  keyMatches : KeyMatches key p
  keyLive : KeyLive runtime key created now skew
  issuerPath : IssuerPath runtime bundle now skew key.issuer path
  keyClear : Clear runtime bundle.revocations now key.id
  documentClear : Clear runtime bundle.revocations now (str (value.lookup "id"))
  bound : foreignClaim value key = false
  signed : verifySignature runtime.primitives value p key.publicKeyJwk = true

theorem verifyWithKey_verified {issues : Issues} :
    (verifyWithKey runtime value bundle p key now skew issues).verified = true ↔
      issues = [] ∧ KeyMatches key p ∧
      KeyLive runtime key ((parseTime runtime.times p.created).getD Go.zeroTime) now skew ∧
      (∃ path, IssuerPath runtime bundle now skew key.issuer path) ∧
      Clear runtime bundle.revocations now key.id ∧
      Clear runtime bundle.revocations now (str (value.lookup "id")) ∧
      foreignClaim value key = false ∧
      verifySignature runtime.primitives value p key.publicKeyJwk = true := by
  have hissuer : (∃ path, IssuerPath runtime bundle now skew key.issuer path) →
      Clear runtime bundle.revocations now key.issuer := by
    rintro ⟨path, h⟩
    exact h.clear _ (List.mem_of_mem_head? h.head)
  unfold verifyWithKey
  simp only [List.isEmpty_iff]
  rw [addIssueIf_eq_nil]
  constructor
  · rintro ⟨hall, hsigned⟩
    rw [hall] at hsigned
    rw [addIssueIf_eq_nil, checkRevocations_eq_nil, validateIssuerChain_eq_nil,
      checkKeyLifecycle_eq_nil, checkKeyMetadata_eq_nil] at hall
    obtain ⟨⟨⟨⟨⟨hissues, hmatches⟩, hlive⟩, hpath⟩, hkey, -, hdocument⟩, hbound⟩ := hall
    exact ⟨hissues, hmatches, hlive, hpath, hkey, hdocument, hbound, by simpa [hasIssue] using hsigned⟩
  · rintro ⟨hissues, hmatches, hlive, hpath, hkey, hdocument, hbound, hsigned⟩
    rw [addIssueIf_eq_nil, checkRevocations_eq_nil, validateIssuerChain_eq_nil,
      checkKeyLifecycle_eq_nil, checkKeyMetadata_eq_nil]
    exact ⟨⟨⟨⟨⟨⟨hissues, hmatches⟩, hlive⟩, hpath⟩, hkey, hissuer hpath, hdocument⟩, hbound⟩,
      by simp [hsigned]⟩

/-- The checks before the key. -/
theorem checkUnkeyed_eq_nil {audience : String} :
    checkDocumentTimes runtime value now skew (addIssueIf (!audienceContains p.audience audience)
      (checkProofTimes runtime p now maxAge skew (addIssueIf
        (p.algorithm != "EdDSA" && p.algorithm != "ES256") [] "ALGORITHM_NOT_ALLOWED"
        "proof algorithm is not allowed"))
      "AUDIENCE_MISMATCH" "proof does not contain the expected audience") = [] ↔
    (p.algorithm = "EdDSA" ∨ p.algorithm = "ES256") ∧
      (∃ created expires, ProofTimely runtime p now maxAge skew created expires) ∧
      audienceContains p.audience audience = true ∧ DocumentTimely runtime value now skew := by
  rw [checkDocumentTimes_eq_nil, addIssueIf_eq_nil, checkProofTimes_eq_nil, addIssueIf_eq_nil,
    Bool.not_eq_false', Bool.and_eq_false_iff, bne_eq_false_iff_eq, bne_eq_false_iff_eq]
  simp only [true_and, and_assoc]

/-- A report verifies exactly if every check passes. -/
theorem verifyObject_verified_iff_acceptance {audience : String} :
    (verifyObject runtime value bundle audience now maxAge skew).verified = true ↔
      ∃ p key created expires path,
        Acceptance runtime value bundle audience now maxAge skew p key created expires path := by
  constructor
  · intro h
    unfold verifyObject at h
    split at h
    · cases h
    · cases h
    · split at h
      · cases h
      · next p hp =>
        split at h
        · cases h
        · next key hkey =>
          obtain ⟨hissues, hmatches, hlive, ⟨path, hpath⟩, hclear, hdocument, hbound, hsigned⟩ :=
            verifyWithKey_verified.mp h
          obtain ⟨hallowed, ⟨created, expires, htimely⟩, hheard, hactive⟩ :=
            checkUnkeyed_eq_nil.mp hissues
          rw [htimely.created_eq, Option.getD_some] at hlive
          exact ⟨p, key, created, expires, path, hp, hallowed, htimely, hactive, hheard, hkey,
            hmatches, hlive, hpath, hclear, hdocument, hbound, hsigned⟩
  · rintro ⟨p, key, created, expires, path, h⟩
    have hkeyed : (verifyWithKey runtime value bundle p key now skew []).verified = true := by
      refine verifyWithKey_verified.mpr ⟨rfl, h.keyMatches, ?_, ⟨path, h.issuerPath⟩, h.keyClear,
        h.documentClear, h.bound, h.signed⟩
      rw [h.proofTimely.created_eq, Option.getD_some]
      exact h.keyLive
    have hunkeyed := checkUnkeyed_eq_nil.mpr
      ⟨h.allowed, ⟨created, expires, h.proofTimely⟩, h.heard, h.documentTimely⟩
    have hproof := h.proof_eq
    unfold verifyObject
    split
    · next hnone =>
      rw [hnone] at hproof
      cases hproof
    · next hnull =>
      rw [hnull] at hproof
      cases hproof
    · rw [hproof]
      dsimp only
      rw [h.key_eq, hunkeyed]
      exact hkeyed

/-! ### More revocations -/

/-- The bundle with statuses added to those it has. -/
def TrustBundle.withRevocations (bundle : TrustBundle) (added : List RevocationStatus) :
    TrustBundle :=
  { bundle with revocations := added ++ bundle.revocations }

/-- A target that is clear stays so without some of the statuses. -/
theorem Clear.of_append {added statuses : List RevocationStatus} {target : String}
    (h : Clear runtime (added ++ statuses) now target) : Clear runtime statuses now target := by
  rcases h with hempty | hnone | ⟨found, hfound, hstatus⟩
  · exact .inl hempty
  · rw [List.filter_append, List.append_eq_nil_iff] at hnone
    exact .inr (.inl hnone.2)
  · rw [List.filter_append, List.append_eq_singleton_iff] at hfound
    rcases hfound with ⟨-, hfound⟩ | ⟨-, hnone⟩
    · exact .inr (.inr ⟨found, hfound, hstatus⟩)
    · exact .inr (.inl hnone)

theorem Acceptance.of_withRevocations {added : List RevocationStatus} {audience : String}
    {expires : ℤ} {path : List String} (h : Acceptance runtime value (bundle.withRevocations added)
      audience now maxAge skew p key created expires path) :
    Acceptance runtime value bundle audience now maxAge skew p key created expires path where
  proof_eq := h.proof_eq
  allowed := h.allowed
  proofTimely := h.proofTimely
  documentTimely := h.documentTimely
  heard := h.heard
  key_eq := h.key_eq
  keyMatches := h.keyMatches
  keyLive := h.keyLive
  issuerPath := h.issuerPath.of_clear fun _ => Clear.of_append
  keyClear := h.keyClear.of_append
  documentClear := h.documentClear.of_append
  bound := h.bound
  signed := h.signed

/-- Statuses that are added to a bundle, also good ones, only take reports away: no object is
verified because of one. -/
theorem verified_le_of_withRevocations (added : List RevocationStatus) {audience : String} :
    (verifyObject runtime value (bundle.withRevocations added) audience now maxAge skew).verified ≤
      (verifyObject runtime value bundle audience now maxAge skew).verified := by
  rw [Bool.le_iff_imp]
  intro h
  obtain ⟨p, key, created, expires, path, haccepted⟩ := verifyObject_verified_iff_acceptance.mp h
  exact verifyObject_verified_iff_acceptance.mpr
    ⟨p, key, created, expires, path, haccepted.of_withRevocations⟩

/-! ### The sample of the signatures -/

def sampleVerificationKey : VerificationKey where
  id := "oati:key:1"
  issuer := "oati:issuer:root"
  algorithm := "ES256"
  publicKeyJwk := sampleKey
  status := "active"
  validFrom := "2026-01-01T00:00:00Z"

def sampleBundle : TrustBundle where
  trustAnchors := ["oati:issuer:root"]
  keys := [sampleVerificationKey]

def sampleVerifier : VerifierRuntime where
  times := Go.plainRuntime
  primitives := sampleRuntime
  signatureMessage := fun _ _ _ => ""

/-- The sample verifies a minute after it was signed. -/
theorem verifyObject_sample (note : String) :
    (verifyObject sampleVerifier (sampleDocument note) sampleBundle "shop" 1785153660000000000
      300000000000 30000000000).verified = true := by
  have hverifies := verifies_sampleDocument note
  refine verifyObject_verified_iff_acceptance.mpr ⟨sampleProof, sampleVerificationKey,
    1785153600000000000, 1785153900000000000, ["oati:issuer:root"], ?_⟩
  refine ⟨hverifies.1, .inr rfl, ⟨rfl, rfl, by decide, by decide, by decide, by decide⟩, ⟨?_, ?_⟩, rfl,
    rfl, ⟨rfl, rfl, .inl rfl, ?_, by decide, ?_⟩, ⟨⟨1767225600000000000, rfl, by decide⟩, ?_, by decide,
    ?_⟩, ?_, .inr (.inl rfl), .inr (.inl rfl), rfl, hverifies.2⟩
  · exact fun hne => absurd rfl hne
  · exact fun hne => absurd rfl hne
  · intro heddsa
    exact absurd heddsa (by decide)
  · intro hretired
    exact absurd hretired (by decide)
  · exact fun hne => absurd rfl hne
  · exact fun hne => absurd rfl hne
  · exact (Walk.Path.goal_iff (List.mem_singleton.mpr rfl)).mpr ⟨rfl, .inr (.inl rfl), by simp⟩

end Oati.Cli

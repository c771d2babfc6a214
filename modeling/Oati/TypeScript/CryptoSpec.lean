import Oati.TypeScript.Crypto

/-!
# What an accepted document satisfies

Each check of `verifyDocument` leaves the list of issues empty exactly if its condition holds
(`checkProofTime_eq_nil`, `checkKey_eq_nil`, …); the checks that make calls are characterised on
their traces.

* `TrustPath`: a path of issuers to an anchor, as the answers of a trace describe it.
* `chainLoop_iff`: the walk reaches an anchor exactly if there is such a path of distinct issuers
  within the depth.
* `Acceptance`: everything a verification without issues has established.
* `verifyDocument_sound`: a verified document is accepted, and the walk is exact.
-/

namespace Oati.TypeScript

open Prog

/-- A trace of a verification. -/
abbrev TrustTrace := List (Event TrustAnswer JsError)

/-! ### Times -/

/-- The proof is inside its window, with the clock skew, and not too old. -/
def ProofTimely (engine : Engine) (proof : OatiJwsProof) (now : ℤ) (skew maxAge : ℚ) : Prop :=
  ∃ created expires, dateParse engine proof.created = some created ∧
    dateParse engine proof.expires = some expires ∧ created < expires ∧
    created ≤ plus now skew ∧ minus now skew < expires ∧
    minus now created ≤ Double.round (maxAge + skew)

theorem checkProofTime_eq_nil {engine : Engine} {proof : OatiJwsProof} {now : ℤ}
    {skew maxAge : ℚ} {issues : Issues} :
    checkProofTime engine proof now skew maxAge issues = [] ↔
      issues = [] ∧ ProofTimely engine proof now skew maxAge := by
  rw [checkProofTime, ProofTimely]
  rcases dateParse engine proof.created with _ | created
  · simp
  · rcases dateParse engine proof.expires with _ | expires
    · simp
    · by_cases h : expires ≤ created
      · simp [h]
      · simp [h, and_assoc, not_le.mp h]

theorem violates_parseDate_eq_false {engine : Engine} {value : Option String}
    {condition : ℤ → Bool} : (parseDate engine value).violates condition = false ↔
      ∀ s, value = some s → ∃ time, dateParse engine s = some time ∧ condition time = false := by
  rcases value with _ | s
  · simp [parseDate, ParsedDate.violates]
  · rcases h : dateParse engine s with _ | time
    · simp [parseDate, ParsedDate.violates, h]
    · simp [parseDate, ParsedDate.violates, h]

/-- The document is inside its window, with the clock skew. -/
structure DocumentTimely (engine : Engine) (document : Record) (now : ℤ) (skew : ℚ) : Prop where
  start : ∀ s, documentStart document = some s →
    ∃ start, dateParse engine s = some start ∧ start ≤ plus now skew
  expires : ∀ s, stringMember document "expires_at" = some s →
    ∃ expires, dateParse engine s = some expires ∧ minus now skew < expires

theorem checkDocumentTime_eq_nil {engine : Engine} {document : Record} {now : ℤ} {skew : ℚ}
    {issues : Issues} : checkDocumentTime engine document now skew issues = [] ↔
      issues = [] ∧ DocumentTimely engine document now skew := by
  rw [checkDocumentTime, Issues.addIf_eq_nil, Issues.addIf_eq_nil, violates_parseDate_eq_false,
    violates_parseDate_eq_false, and_assoc]
  simp only [decide_eq_false_iff_not, not_lt, not_le]
  exact and_congr_right' ⟨fun h => ⟨h.1, h.2⟩, fun h => ⟨h.1, h.2⟩⟩

/-! ### The key -/

/-- The key is the one the proof names, it was valid when the proof was created, and it is not
revoked. -/
structure KeyValid (engine : Engine) (key : VerificationKey) (proof : OatiJwsProof) (now : ℤ)
    (skew : ℚ) : Prop where
  algorithm : key.algorithm = proof.algorithm.name
  id : key.id = proof.verificationMethod
  verified : unverifiedStatus key.proofStatus = false
  jwk : jwkMatches key.publicKeyJwk proof.algorithm = .ok true
  status : key.status = "active" ∨ key.status = "retired"
  retired : key.status = "retired" → nonEmpty key.validUntil ≠ none
  validFrom : ∃ start, dateParse engine key.validFrom = some start ∧
    ∀ created, dateParse engine proof.created = some created → minus start skew ≤ created
  validUntil : ∀ s, nonEmpty key.validUntil = some s → ∃ until', dateParse engine s = some until' ∧
    ∀ created, dateParse engine proof.created = some created → created < plus until' skew
  revokedAt : ∀ s, nonEmpty key.revokedAt = some s →
    ∃ revoked, dateParse engine s = some revoked ∧ now < revoked

theorem keyMismatch_eq_ok {key : VerificationKey} {proof : OatiJwsProof} :
    keyMismatch key proof = .ok false ↔ key.algorithm = proof.algorithm.name ∧
      key.id = proof.verificationMethod ∧ unverifiedStatus key.proofStatus = false ∧
      jwkMatches key.publicKeyJwk proof.algorithm = .ok true := by
  rw [keyMismatch]
  split_ifs with h
  · simp only [Except.ok.injEq, Bool.true_eq_false, false_iff, not_and]
    intro halgorithm hid hverified
    simp [halgorithm, hid, hverified] at h
  · simp only [not_or, not_not, Bool.not_eq_true] at h
    rcases jwkMatches key.publicKeyJwk proof.algorithm with e | b
    · simp [Functor.map, Except.map]
    · cases b <;> simp [Functor.map, Except.map, h]

theorem keyOutsideValidity_eq_false {engine : Engine} {key : VerificationKey}
    {proof : OatiJwsProof} {skew : ℚ} : keyOutsideValidity engine key proof skew = false ↔
      (∃ start, dateParse engine key.validFrom = some start ∧
        ∀ created, dateParse engine proof.created = some created → minus start skew ≤ created) ∧
      ∀ s, nonEmpty key.validUntil = some s → ∃ until', dateParse engine s = some until' ∧
        ∀ created, dateParse engine proof.created = some created → created < plus until' skew := by
  rw [keyOutsideValidity, Bool.or_eq_false_iff, violates_parseDate_eq_false,
    violates_parseDate_eq_false]
  simp [Option.any_eq_false]

/-- The date of a revocation: it is a date, and it has not come. -/
theorem revokedAt_iff {engine : Engine} {value : Option String} {now : ℤ} :
    ((parseDate engine value == .invalid) = false ∧
      (match parseDate engine value with
        | .date time => decide (time ≤ now)
        | _ => false) = false) ↔
    ∀ s, value = some s → ∃ revoked, dateParse engine s = some revoked ∧ now < revoked := by
  rcases value with _ | s
  · simp [parseDate]
  · rcases h : dateParse engine s with _ | time
    · simp [parseDate, h]
    · simp [parseDate, h]

theorem checkKey_eq_nil {engine : Engine} {key : VerificationKey} {proof : OatiJwsProof} {now : ℤ}
    {skew : ℚ} {issues : Issues} : checkKey engine key proof now skew issues = .ok [] ↔
      issues = [] ∧ KeyValid engine key proof now skew := by
  have hstatus : (!keyStatuses.contains key.status) = false ∧
      (key.status == "revoked") = false ↔ key.status = "active" ∨ key.status = "retired" := by
    simp only [keyStatuses, List.contains_cons, List.contains_nil, Bool.or_false, Bool.not_eq_false',
      Bool.or_eq_true, beq_iff_eq, beq_eq_false_iff_ne]
    constructor
    · rintro ⟨h | h | h, hne⟩
      · exact .inl h
      · exact .inr h
      · exact absurd h hne
    · rintro (h | h)
      · exact ⟨.inl h, by rw [h]; decide⟩
      · exact ⟨.inr (.inl h), by rw [h]; decide⟩
  have hretired : (key.status == "retired" && (nonEmpty key.validUntil).isNone) = false ↔
      (key.status = "retired" → nonEmpty key.validUntil ≠ none) := by
    simp [Option.isSome_iff_ne_none]
  simp only [checkKey, bind_eq_ok, pure_eq_ok, Issues.addIf_eq_nil, Bool.or_eq_false_iff,
    keyOutsideValidity_eq_false, hretired]
  constructor
  · rintro ⟨mismatch, hmismatch, ⟨⟨⟨⟨⟨rfl, rfl⟩, hs⟩, hret⟩, hvalid⟩, hinv⟩, hrev, hdate⟩
    obtain ⟨halgorithm, hid, hverified, hjwk⟩ := keyMismatch_eq_ok.mp hmismatch
    exact ⟨rfl, halgorithm, hid, hverified, hjwk, hstatus.mp ⟨hs, hrev⟩, hret, hvalid.1, hvalid.2,
      revokedAt_iff.mp ⟨hinv, hdate⟩⟩
  · rintro ⟨rfl, h⟩
    obtain ⟨hs, hrev⟩ := hstatus.mpr h.status
    obtain ⟨hinv, hdate⟩ := revokedAt_iff.mpr h.revokedAt
    exact ⟨false, keyMismatch_eq_ok.mpr ⟨h.algorithm, h.id, h.verified, h.jwk⟩,
      ⟨⟨⟨⟨⟨rfl, rfl⟩, hs⟩, h.retired⟩, h.validFrom, h.validUntil⟩, hinv⟩, hrev, hdate⟩

/-! ### Revocation -/

/-- An answer that does not stand in the way: no status, a good one, or one that is not effective
yet. -/
def IsClear (engine : Engine) (now : ℤ) (answer : Except JsError (Option RevocationStatus)) :
    Prop :=
  match answer with
  | .error _ => False
  | .ok none => True
  | .ok (some status) =>
    effectiveDate engine status ≠ .invalid ∧ isEffective engine status now = false

/-- No revocation answer of the trace is effective or unavailable. -/
def RevocationsClear (engine : Engine) (now : ℤ) (trace : TrustTrace) : Prop :=
  ∀ target answer, Answered trace (.resolveRevocation target) answer → IsClear engine now answer

/-- The revocation status of the target was asked for. -/
def RevocationAsked (trace : TrustTrace) (target : String) : Prop :=
  ∃ answer, Answered trace (.resolveRevocation target) answer

theorem RevocationAsked.mono {t u : TrustTrace} {target : String} (h : RevocationAsked t target)
    (hsub : t ⊆ u) : RevocationAsked u target := by
  obtain ⟨answer, hanswer⟩ := h
  exact ⟨answer, hanswer.mono hsub⟩

theorem revocationsClear_append {engine : Engine} {now : ℤ} {t u : TrustTrace} :
    RevocationsClear engine now (t ++ u) ↔
      RevocationsClear engine now t ∧ RevocationsClear engine now u := by
  simp only [RevocationsClear, answered_append, or_imp, forall_and]

theorem revocationsClear_nil {engine : Engine} {now : ℤ} : RevocationsClear engine now [] := by
  intro target answer h
  cases h

theorem revocationIssues_eq_nil {engine : Engine} {index : ℕ} {target : String}
    {answer : Except JsError (Option RevocationStatus)} {now : ℤ} {issues : Issues} :
    revocationIssues engine index target answer now issues = [] ↔
      issues = [] ∧ IsClear engine now answer := by
  rcases answer with e | _ | status
  · simp [revocationIssues, IsClear]
  · simp [revocationIssues, IsClear]
  · rw [revocationIssues, IsClear]
    split_ifs with h
    · simp [h]
    · simp [h]

/-- Every target that is not empty is asked for, and no issue is added exactly if all answers are
clear. -/
theorem checkRevocationFrom_run {engine : Engine} {targets : List String} {now : ℤ} :
    ∀ {index : ℕ} {issues issues' : Issues} {trace : TrustTrace},
      Run (checkRevocationFrom engine index targets now issues) trace (.ok issues') →
      (issues' = [] ↔ issues = [] ∧ RevocationsClear engine now trace) ∧
        ∀ target ∈ targets, target ≠ "" → RevocationAsked trace target := by
  induction targets with
  | nil =>
    intro index issues issues' trace h
    obtain ⟨rfl, hissues⟩ := run_pure_iff.mp h
    cases hissues
    exact ⟨by simp [revocationsClear_nil], by simp⟩
  | cons target rest ih =>
    intro index issues issues' trace h
    rw [checkRevocationFrom] at h
    split_ifs at h with hempty
    · obtain ⟨hclear, hasked⟩ := ih h
      refine ⟨hclear, ?_⟩
      rintro t (_ | ⟨_, ht⟩) hne
      · exact absurd hempty hne
      · exact hasked t ht hne
    · obtain ⟨answer, t, u, rfl, ht, hu⟩ := run_bind_ok_iff.mp h
      obtain ⟨_, rfl, hanswer⟩ := run_attempt_perform_iff.mp ht
      cases hanswer
      obtain ⟨hclear, hasked⟩ := ih hu
      constructor
      · rw [hclear, revocationIssues_eq_nil, revocationsClear_append, and_assoc]
        refine and_congr_right' (and_congr_left' ?_)
        constructor
        · rintro hc t' answer' hmem
          cases List.mem_singleton.mp hmem
          exact hc
        · intro hc
          exact hc target answer (answered_singleton.mpr rfl)
      · rintro t' (_ | ⟨_, ht'⟩) hne
        · exact ⟨answer, answered_append.mpr (.inl (answered_singleton.mpr rfl))⟩
        · obtain ⟨answer', h'⟩ := hasked t' ht' hne
          exact ⟨answer', answered_append.mpr (.inr h')⟩

theorem checkRevocationFrom_avoids {engine : Engine} {targets : List String} {now : ℤ}
    {P : TrustCall → Prop} (hP : ∀ target, ¬ P (.resolveRevocation target)) :
    ∀ {index : ℕ} {issues : Issues},
      Avoids P (checkRevocationFrom engine index targets now issues) := by
  induction targets with
  | nil => exact avoids_pure _
  | cons target rest ih =>
    intro index issues
    rw [checkRevocationFrom]
    exact Avoids.ite ih ((avoids_perform (hP target)).attempt.bind fun _ => ih)

/-! ### The chain of issuers -/

/-- An issuer that passes authority on to its parent. -/
structure IssuerTrusted (engine : Engine) (issuer : TrustedIssuer) (now : ℤ) (skew : ℚ) :
    Prop where
  verified : unverifiedStatus issuer.proofStatus = false
  active : issuer.status = "active"
  revokedAt : ∀ s, nonEmpty issuer.revokedAt = some s →
    ∃ revoked, dateParse engine s = some revoked ∧ now < revoked
  validFrom : ∀ s, nonEmpty issuer.validFrom = some s →
    ∃ start, dateParse engine s = some start ∧ start ≤ plus now skew
  validUntil : ∀ s, nonEmpty issuer.validUntil = some s →
    ∃ until', dateParse engine s = some until' ∧ minus now skew < until'

theorem issuerTrusted_iff {engine : Engine} {issuer : TrustedIssuer} {now : ℤ} {skew : ℚ} :
    IssuerTrusted engine issuer now skew ↔ unverifiedStatus issuer.proofStatus = false ∧
      issuerRevoked engine issuer now = false ∧
      issuerOutsideValidity engine issuer now skew = false := by
  simp only [issuerRevoked, issuerOutsideValidity, Bool.or_eq_false_iff,
    violates_parseDate_eq_false, decide_eq_false_iff_not, not_lt, not_le, bne_eq_false_iff_eq]
  constructor
  · rintro ⟨hverified, hactive, hrevoked, hfrom, huntil⟩
    exact ⟨hverified, ⟨hactive, hrevoked⟩, hfrom, huntil⟩
  · rintro ⟨hverified, ⟨hactive, hrevoked⟩, hfrom, huntil⟩
    exact ⟨hverified, hactive, hrevoked, hfrom, huntil⟩

/-- The walk goes on exactly with the parent of a trusted issuer. -/
theorem chainStep_eq_parent_iff {engine : Engine} {current : String}
    {answer : Except JsError (Option TrustedIssuer)} {now : ℤ} {skew : ℚ} {parent : String} :
    chainStep engine current answer now skew = .parent parent ↔
      ∃ issuer, answer = .ok (some issuer) ∧ IssuerTrusted engine issuer now skew ∧
        nonEmpty issuer.parent = some parent := by
  rcases answer with e | _ | issuer
  · simp [chainStep]
  · simp [chainStep]
  · simp only [chainStep, Except.ok.injEq, Option.some.injEq, exists_eq_left', issuerTrusted_iff]
    rcases unverifiedStatus issuer.proofStatus
    · rcases issuerRevoked engine issuer now
      · rcases issuerOutsideValidity engine issuer now skew
        · rcases nonEmpty issuer.parent with _ | p
          · simp
          · simp
        · simp
      · simp
    · simp

/-- A path of issuers to an anchor: each one before the anchor was resolved to a trusted issuer
whose parent is the next. -/
inductive TrustPath (engine : Engine) (trustAnchors : List String) (now : ℤ) (skew : ℚ)
    (trace : TrustTrace) : List String → Prop where
  | anchor {id : String} (h : id ∈ trustAnchors) : TrustPath engine trustAnchors now skew trace [id]
  | hop {id parent : String} {rest : List String} {issuer : TrustedIssuer}
      (hid : id ∉ trustAnchors)
      (hanswer : Answered trace (.resolveIssuer id) (.ok (some issuer)))
      (hissuer : IssuerTrusted engine issuer now skew)
      (hparent : nonEmpty issuer.parent = some parent)
      (h : TrustPath engine trustAnchors now skew trace (parent :: rest)) :
      TrustPath engine trustAnchors now skew trace (id :: parent :: rest)

/-- A path is one of every trace with its answers. -/
theorem TrustPath.mono {engine : Engine} {trustAnchors : List String} {now : ℤ} {skew : ℚ}
    {t u : TrustTrace} {path : List String} (h : TrustPath engine trustAnchors now skew t path)
    (hsub : ∀ id ∈ path, ∀ answer, Answered t (.resolveIssuer id) answer →
      Answered u (.resolveIssuer id) answer) :
    TrustPath engine trustAnchors now skew u path := by
  induction h with
  | anchor h => exact .anchor h
  | hop hid hanswer hissuer hparent _ ih =>
    exact .hop hid (hsub _ (by simp) _ hanswer) hissuer hparent
      (ih fun id' hid' => hsub id' (by simp [hid']))

section Chain

variable {engine : Engine} {trustAnchors : List String} {now : ℤ} {skew : ℚ} {start : String}

/-- One round of the walk that is not cut short: the revocation status of the current issuer is
looked at, and then it is an anchor, or it is resolved. -/
theorem chainLoop_succ_run {rounds : ℕ} {current : String} {visited : List String}
    {issues : Issues} {trace : TrustTrace} {r : Option String × Issues}
    (hcurrent : current ∉ visited) :
    Run (chainLoop engine trustAnchors now skew start (rounds + 1) current visited issues) trace
      (.ok r) ↔
    ∃ issues' t u, trace = t ++ u ∧
      Run (checkRevocation engine ["", current] now issues) t (.ok issues') ∧
      (current ∈ trustAnchors ∧ u = [] ∧ r = (some current, issues') ∨
        current ∉ trustAnchors ∧ ∃ answer u', u = ⟨.resolveIssuer current, answer⟩ :: u' ∧
          Run (match chainStep engine current answer now skew with
            | .stop => pure (chainEnd start issues')
            | .reject code message => pure (none, issues'.add code message)
            | .parent parent => chainLoop engine trustAnchors now skew start rounds parent
                (current :: visited) issues') u' (.ok r)) := by
  rw [chainLoop, if_neg hcurrent, run_bind_ok_iff]
  constructor
  · rintro ⟨issues', t, u, rfl, ht, hu⟩
    refine ⟨issues', t, u, rfl, ht, ?_⟩
    split_ifs at hu with hanchor
    · obtain ⟨rfl, hr⟩ := run_pure_iff.mp hu
      cases hr
      exact .inl ⟨hanchor, rfl, rfl⟩
    · obtain ⟨answer, t', u', rfl, ht', hu'⟩ := run_bind_ok_iff.mp hu
      obtain ⟨_, rfl, hanswer⟩ := run_attempt_perform_iff.mp ht'
      cases hanswer
      exact .inr ⟨hanchor, answer, u', rfl, hu'⟩
  · rintro ⟨issues', t, u, rfl, ht, (⟨hanchor, rfl, rfl⟩ | ⟨hanchor, answer, u', rfl, hu'⟩)⟩
    · exact ⟨issues', t, [], rfl, ht, by rw [if_pos hanchor]; exact run_pure_iff.mpr ⟨rfl, rfl⟩⟩
    · refine ⟨issues', t, _, rfl, ht, ?_⟩
      rw [if_neg hanchor]
      exact run_bind_ok_iff.mpr ⟨answer, [⟨_, answer⟩], u', rfl,
        run_attempt_perform_iff.mpr ⟨answer, rfl, rfl⟩, hu'⟩

/-- An issuer that was visited is not resolved again. -/
theorem chainLoop_avoids {id : String} : ∀ {rounds : ℕ} {current : String}
    {visited : List String} {issues : Issues}, id ∈ visited →
      Avoids (· = .resolveIssuer id)
        (chainLoop engine trustAnchors now skew start rounds current visited issues) := by
  intro rounds
  induction rounds with
  | zero => intro current visited issues _; exact avoids_pure _
  | succ rounds ih =>
    intro current visited issues hid
    rw [chainLoop]
    by_cases hcurrent : current ∈ visited
    · rw [if_pos hcurrent]
      exact avoids_pure _
    · have hne : ¬ TrustCall.resolveIssuer current = .resolveIssuer id := by
        rintro ⟨⟩
        exact hcurrent hid
      rw [if_neg hcurrent]
      refine (checkRevocationFrom_avoids fun _ => by simp).bind fun issues' =>
        Avoids.ite (avoids_pure _) (Avoids.bind (Avoids.attempt ?_) fun answer => ?_)
      · exact avoids_perform hne
      rcases chainStep engine current answer now skew with parent | _ | ⟨code, message⟩
      · exact ih (List.mem_cons_of_mem _ hid)
      · exact avoids_pure _
      · exact avoids_pure _

/-- A walk without issues found an anchor, and only clear revocation answers. -/
theorem chainLoop_issues : ∀ {rounds : ℕ} {current : String} {visited : List String}
    {issues : Issues} {trace : TrustTrace} {anchor : Option String},
    Run (chainLoop engine trustAnchors now skew start rounds current visited issues) trace
      (.ok (anchor, [])) →
    issues = [] ∧ anchor ≠ none ∧ RevocationsClear engine now trace := by
  intro rounds
  induction rounds with
  | zero =>
    intro current visited issues trace anchor h
    have hr := Except.ok.inj (run_pure_iff.mp h).2
    exact absurd (congrArg Prod.snd hr).symm (Issues.add_ne_nil _ _ _)
  | succ rounds ih =>
    intro current visited issues trace anchor h
    by_cases hcurrent : current ∈ visited
    · rw [chainLoop, if_pos hcurrent] at h
      have hr := Except.ok.inj (run_pure_iff.mp h).2
      exact absurd (congrArg Prod.snd hr).symm (Issues.add_ne_nil _ _ _)
    · obtain ⟨issues', t, u, rfl, ht, h⟩ := (chainLoop_succ_run hcurrent).mp h
      have hclear := (checkRevocationFrom_run ht).1
      rcases h with ⟨-, rfl, hr⟩ | ⟨-, answer, u', rfl, hu⟩
      · obtain ⟨rfl, rfl⟩ := Prod.mk.inj hr
        obtain ⟨rfl, hclear⟩ := hclear.mp rfl
        exact ⟨rfl, by simp, by rwa [List.append_nil]⟩
      · rcases hstep : chainStep engine current answer now skew with parent | _ | ⟨code, message⟩
        · rw [hstep] at hu
          obtain ⟨rfl, hanchor, hu⟩ := ih hu
          obtain ⟨rfl, hfirst⟩ := hclear.mp rfl
          refine ⟨rfl, hanchor, revocationsClear_append.mpr ⟨hfirst, ?_⟩⟩
          rintro target answer' (_ | ⟨_, hmem⟩)
          exact hu target answer' hmem
        · rw [hstep] at hu
          have hr := Except.ok.inj (run_pure_iff.mp hu).2
          exact absurd (congrArg Prod.snd hr).symm (Issues.add_ne_nil _ _ _)
        · rw [hstep] at hu
          have hr := Except.ok.inj (run_pure_iff.mp hu).2
          exact absurd (congrArg Prod.snd hr).symm (Issues.add_ne_nil _ _ _)

/-- A path that a walk from `current` may take: distinct issuers that were not visited, at most
one for each round. -/
structure WalkPath (engine : Engine) (trustAnchors : List String) (now : ℤ) (skew : ℚ)
    (trace : TrustTrace) (rounds : ℕ) (current : String) (visited path : List String) : Prop where
  trust : TrustPath engine trustAnchors now skew trace path
  head : path.head? = some current
  nodup : path.Nodup
  fresh : ∀ id ∈ path, id ∉ visited
  length : path.length ≤ rounds

/-- The walk that returns an anchor followed a path to it, and asked for the revocation status of
every issuer on it. -/
theorem chainLoop_path : ∀ {rounds : ℕ} {current : String} {visited : List String}
    {issues issues' : Issues} {trace : TrustTrace} {anchor : String},
    Run (chainLoop engine trustAnchors now skew start rounds current visited issues) trace
      (.ok (some anchor, issues')) →
    ∃ path, WalkPath engine trustAnchors now skew trace rounds current visited path ∧
      path.getLast? = some anchor ∧ ∀ id ∈ path, id ≠ "" → RevocationAsked trace id := by
  intro rounds
  induction rounds with
  | zero =>
    intro current visited issues issues' trace anchor h
    cases (run_pure_iff.mp h).2
  | succ rounds ih =>
    intro current visited issues issues' trace anchor h
    by_cases hcurrent : current ∈ visited
    · rw [chainLoop, if_pos hcurrent] at h
      cases (run_pure_iff.mp h).2
    · obtain ⟨issues₁, t, u, rfl, ht, h⟩ := (chainLoop_succ_run hcurrent).mp h
      have hasked := (checkRevocationFrom_run ht).2 current (by simp)
      rcases h with ⟨hanchor, rfl, hr⟩ | ⟨hanchor, answer, u', rfl, hu⟩
      · cases hr
        refine ⟨[current], ⟨.anchor hanchor, rfl, List.nodup_singleton _, ?_, by simp⟩, rfl, ?_⟩
        · intro id hid
          rwa [List.mem_singleton.mp hid]
        · intro id hid hne
          rw [List.append_nil]
          cases List.mem_singleton.mp hid
          exact hasked hne
      · rcases hstep : chainStep engine current answer now skew with parent | _ | ⟨code, message⟩
        · rw [hstep] at hu
          obtain ⟨issuer, rfl, hissuer, hparent⟩ := chainStep_eq_parent_iff.mp hstep
          obtain ⟨path, hpath, hlast, hrest⟩ := ih hu
          obtain ⟨rest, rfl⟩ : ∃ rest, path = parent :: rest := List.head?_eq_some_iff.mp hpath.head
          have hnotMem : current ∉ parent :: rest := fun hmem =>
            hpath.fresh current hmem (List.mem_cons_self ..)
          refine ⟨current :: parent :: rest, ⟨.hop hanchor ?_ hissuer hparent ?_, rfl,
            List.nodup_cons.mpr ⟨hnotMem, hpath.nodup⟩, ?_, ?_⟩, ?_, ?_⟩
          · exact answered_append.mpr (.inr (List.mem_cons_self ..))
          · refine hpath.trust.mono fun id _ answer hanswer => ?_
            exact answered_append.mpr (.inr (List.mem_cons_of_mem _ hanswer))
          · rintro id (_ | ⟨_, hid⟩)
            · exact hcurrent
            · exact fun hmem => hpath.fresh id hid (List.mem_cons_of_mem _ hmem)
          · exact Nat.succ_le_succ hpath.length
          · rw [List.getLast?_cons_cons]
            exact hlast
          · rintro id (_ | ⟨_, hid⟩) hne
            · obtain ⟨answer', h'⟩ := hasked hne
              exact ⟨answer', answered_append.mpr (.inl h')⟩
            · obtain ⟨answer', h'⟩ := hrest id hid hne
              exact ⟨answer', answered_append.mpr (.inr (List.mem_cons_of_mem _ h'))⟩
        · rw [hstep] at hu
          cases (run_pure_iff.mp hu).2
        · rw [hstep] at hu
          cases (run_pure_iff.mp hu).2

/-- The walk follows a path there is: the trace holds one answer for each issuer, so it cannot
turn elsewhere. -/
theorem chainLoop_follows : ∀ {rounds : ℕ} {current : String} {visited path : List String}
    {issues : Issues} {trace : TrustTrace} {r : Option String × Issues},
    Run (chainLoop engine trustAnchors now skew start rounds current visited issues) trace
      (.ok r) →
    WalkPath engine trustAnchors now skew trace rounds current visited path →
    r.1 = path.getLast? := by
  intro rounds
  induction rounds with
  | zero =>
    intro current visited path issues trace r h hpath
    obtain ⟨rest, rfl⟩ : ∃ rest, path = current :: rest := List.head?_eq_some_iff.mp hpath.head
    exact absurd hpath.length (by simp)
  | succ rounds ih =>
    intro current visited path issues trace r h hpath
    obtain ⟨rest, rfl⟩ : ∃ rest, path = current :: rest := List.head?_eq_some_iff.mp hpath.head
    have hcurrent : current ∉ visited := hpath.fresh current (by simp)
    obtain ⟨issues₁, t, u, rfl, ht, h⟩ := (chainLoop_succ_run hcurrent).mp h
    have hno : ∀ id answer, ¬ Answered t (.resolveIssuer id) answer := fun id answer =>
      (checkRevocationFrom_avoids (P := (· = .resolveIssuer id)) fun _ => by simp).not_answered ht
        rfl answer
    rcases h with ⟨hanchor, rfl, rfl⟩ | ⟨hanchor, answer, u', rfl, hu⟩
    · -- the current issuer is an anchor, and no path goes beyond one
      cases hpath.trust with
      | anchor => rfl
      | hop hid => exact absurd hanchor hid
    · cases hpath.trust with
      | anchor h => exact absurd h hanchor
      | @hop _ parent rest issuer hid hanswer hissuer hparent htrust =>
        -- the only answer for the current issuer is the one the walk got
        have havoids : ¬ Answered u' (.resolveIssuer current) (.ok (some issuer)) := by
          rcases hstep : chainStep engine current answer now skew with p | _ | ⟨code, message⟩
          · rw [hstep] at hu
            exact (chainLoop_avoids (List.mem_cons_self ..)).not_answered hu rfl _
          · rw [hstep] at hu
            exact (avoids_pure (P := (· = .resolveIssuer current)) _).not_answered hu rfl _
          · rw [hstep] at hu
            exact (avoids_pure (P := (· = .resolveIssuer current)) _).not_answered hu rfl _
        obtain rfl : answer = .ok (some issuer) := by
          rcases answered_append.mp hanswer with h' | h'
          · exact absurd h' (hno _ _)
          · rcases List.mem_cons.mp h' with heq | hmem
            · cases heq
              rfl
            · exact absurd hmem havoids
        have hstep : chainStep engine current (.ok (some issuer)) now skew = .parent parent :=
          chainStep_eq_parent_iff.mpr ⟨issuer, rfl, hissuer, hparent⟩
        rw [hstep] at hu
        have hnotMem := (List.nodup_cons.mp hpath.nodup).1
        have hwalk : WalkPath engine trustAnchors now skew u' rounds parent (current :: visited)
            (parent :: rest) := by
          refine ⟨htrust.mono ?_, rfl, (List.nodup_cons.mp hpath.nodup).2, ?_, ?_⟩
          · intro id hid' answer hanswer'
            rcases answered_append.mp hanswer' with h' | h'
            · exact absurd h' (hno _ _)
            · rcases List.mem_cons.mp h' with heq | hmem
              · cases heq
                exact absurd hid' hnotMem
              · exact hmem
          · rintro id hid' (_ | ⟨_, hmem⟩)
            · exact hnotMem hid'
            · exact hpath.fresh id (List.mem_cons_of_mem _ hid') hmem
          · exact Nat.succ_le_succ_iff.mp hpath.length
        rw [ih hu hwalk, List.getLast?_cons_cons]

end Chain

/-! ### The signature -/

/-- The protected header is the one of the proof's algorithm and key. -/
structure HeaderMatches (header : Json String) (proof : OatiJwsProof) : Prop where
  alg : header.member "alg" = some (.str proof.algorithm.name)
  kid : header.member "kid" = some (.str proof.verificationMethod)
  b64 : header.member "b64" = some (.bool false)
  typ : header.member "typ" = some (.str "oati+jws")
  crit : header.member "crit" = some (.arr [.str "b64"])

theorem bind_string?_eq_some {N : Type} {v : Option (Json N)} {s : String} :
    v.bind Json.string? = some s ↔ v = some (.str s) := by
  rcases v with _ | v
  · simp
  · cases v <;> simp [Json.string?]

theorem isFalse_iff {v : Option (Json String)} : isFalse v = true ↔ v = some (.bool false) := by
  rcases v with _ | v
  · simp [isFalse]
  · cases v <;> simp [isFalse]

theorem isB64List_iff {v : Option (Json String)} :
    isB64List v = true ↔ v = some (.arr [.str "b64"]) := by
  rcases v with _ | v
  · simp [isB64List]
  · rcases v with _ | b | n | s | items | members
    · simp [isB64List]
    · simp [isB64List]
    · simp [isB64List]
    · simp [isB64List]
    · rcases items with _ | ⟨item, _ | ⟨item', rest⟩⟩
      · simp [isB64List]
      · cases item <;> simp [isB64List]
      · cases item <;> simp [isB64List]
    · simp [isB64List]

theorem headerMatches_iff {header : Json String} {proof : OatiJwsProof} :
    headerMatches header proof = true ↔ HeaderMatches header proof := by
  simp only [headerMatches, Bool.and_eq_true, beq_iff_eq, bind_string?_eq_some, isFalse_iff,
    isB64List_iff]
  constructor
  · rintro ⟨⟨⟨⟨halg, hkid⟩, hb64⟩, htyp⟩, hcrit⟩
    exact ⟨halg, hkid, hb64, htyp, hcrit⟩
  · rintro ⟨halg, hkid, hb64, htyp, hcrit⟩
    exact ⟨⟨⟨⟨halg, hkid⟩, hb64⟩, htyp⟩, hcrit⟩

theorem checkHeader_eq_ok {header : Json String} {proof : OatiJwsProof} {u : Unit} :
    checkHeader header proof = .ok u ↔ HeaderMatches header proof := by
  rw [← headerMatches_iff]
  rcases header with _ | b | n | s | items | members
  · simp [checkHeader, headerMatches, Json.member, isFalse]
  all_goals
    simp only [checkHeader]
    split_ifs with h
    · simp [h]
    · simp [h]

/-- Web Crypto verified the signature over the protected header and the canonical form of the
document without its signature, and the header is the proof's. -/
def Signed (engine : Engine) (document : Record) (proof : OatiJwsProof) (key : VerificationKey)
    (trace : TrustTrace) : Prop :=
  ∃ protectedHeader encodedSignature header canonical signature publicKey,
    splitJws proof.signature = .ok (protectedHeader, encodedSignature) ∧
    parseHeader engine protectedHeader = .ok header ∧ HeaderMatches header proof ∧
    canonicalJson engine (unsignedDocument document proof) = .ok canonical ∧
    fromBase64url encodedSignature = .ok signature ∧
    Answered trace (.importKey key.publicKeyJwk proof.algorithm) (.ok publicKey) ∧
    Answered trace (.verify proof.algorithm publicKey signature
      (joinSigningInput protectedHeader (encodeText canonical))) (.ok true)

theorem Signed.mono {engine : Engine} {document : Record} {proof : OatiJwsProof}
    {key : VerificationKey} {t u : TrustTrace} (h : Signed engine document proof key t)
    (hsub : t ⊆ u) : Signed engine document proof key u := by
  obtain ⟨protectedHeader, encodedSignature, header, canonical, signature, publicKey, hsplit,
    hheader, hmatches, hcanonical, hsignature, himport, hverify⟩ := h
  exact ⟨protectedHeader, encodedSignature, header, canonical, signature, publicKey, hsplit,
    hheader, hmatches, hcanonical, hsignature, himport.mono hsub, hverify.mono hsub⟩

theorem verifySignature_run_true {engine : Engine} {document : Record} {proof : OatiJwsProof}
    {key : VerificationKey} {trace : TrustTrace}
    (h : Run (verifySignature engine document proof key) trace (.ok true)) :
    Signed engine document proof key trace := by
  obtain ⟨⟨encodedSignature, input⟩, _, u, rfl, ht, hu⟩ := run_bind_ok_iff.mp h
  obtain ⟨rfl, hinput⟩ := run_ofExcept_iff.mp ht
  obtain ⟨publicKey, _, v, rfl, himport, hv⟩ := run_bind_ok_iff.mp hu
  obtain rfl := run_perform_iff.mp himport
  obtain ⟨signature, _, w, rfl, hdecode, hw⟩ := run_bind_ok_iff.mp hv
  obtain ⟨rfl, hsignature⟩ := run_ofExcept_iff.mp hdecode
  obtain rfl := run_perform_iff.mp hw
  have hinput := hinput.symm
  simp only [signingInput, bind_eq_ok, pure_eq_ok, Prod.mk.injEq, Prod.exists] at hinput
  obtain ⟨protectedHeader, encoded, hsplit, header, hheader, _, hmatches, canonical, hcanonical,
    rfl, rfl⟩ := hinput
  exact ⟨protectedHeader, encoded, header, canonical, signature, publicKey, hsplit,
    hheader, checkHeader_eq_ok.mp hmatches, hcanonical, hsignature.symm,
    answered_append.mpr (.inr (answered_append.mpr (.inl (answered_singleton.mpr rfl)))),
    answered_append.mpr (.inr (answered_append.mpr (.inr (answered_append.mpr
      (.inr (answered_singleton.mpr rfl))))))⟩

/-- The signature check adds no issue exactly if it is made and succeeds, or is skipped. -/
theorem checkSignature_run_nil {engine : Engine} {document : Record} {proof : OatiJwsProof}
    {key : VerificationKey} {issues : Issues} {trace : TrustTrace}
    (h : Run (checkSignature engine document proof key issues) trace (.ok [])) :
    issues = [] ∧ Signed engine document proof key trace := by
  rw [checkSignature] at h
  split_ifs at h with hskip
  · cases Except.ok.inj (run_pure_iff.mp h).2
    simp at hskip
  · obtain ⟨outcome, t, u, rfl, ht, hu⟩ := run_bind_ok_iff.mp h
    obtain ⟨_, hrun, houtcome⟩ := run_attempt_iff.mp ht
    cases houtcome
    obtain ⟨rfl, hissues⟩ := run_pure_iff.mp hu
    rw [List.append_nil]
    rcases outcome with e | valid
    · exact absurd (Except.ok.inj hissues).symm (Issues.add_ne_nil _ _ _)
    · obtain ⟨rfl, hvalid⟩ := Issues.addIf_eq_nil.mp (Except.ok.inj hissues).symm
      obtain rfl : valid = true := by simpa using hvalid
      exact ⟨rfl, verifySignature_run_true hrun⟩

theorem checkReplay_run_nil {engine : Engine} {proof : OatiJwsProof} {policy : VerificationPolicy}
    {now : ℤ} {issues : Issues} {trace : TrustTrace}
    (h : Run (checkReplay engine proof policy now issues) trace (.ok [])) :
    issues = [] ∧ trace = [⟨.checkAndStore (replayKey proof policy)
      (dateParse engine proof.expires) now, .ok true⟩] := by
  rw [checkReplay] at h
  split_ifs at h with hissues
  · obtain ⟨stored, t, u, rfl, ht, hu⟩ := run_bind_ok_iff.mp h
    obtain rfl := run_perform_iff.mp ht
    obtain ⟨rfl, hnil⟩ := run_pure_iff.mp hu
    obtain ⟨-, hstored⟩ := Issues.addIf_eq_nil.mp (Except.ok.inj hnil).symm
    obtain rfl : stored = true := by simpa using hstored
    exact ⟨hissues, rfl⟩
  · exact absurd (Except.ok.inj (run_pure_iff.mp h).2).symm hissues

/-! ### The verification -/

/-- The signer a document claims is bound to the key. -/
def SignerBound (document : Record) (key : VerificationKey) : Prop :=
  ∀ claimed, (stringMember document "issuer").or (stringMember document "agent_id") = some claimed →
    claimed ≠ "" → claimed = key.controller ∨ claimed = key.issuer

theorem checkSignerBinding_eq_nil {document : Record} {key : VerificationKey} {issues : Issues} :
    checkSignerBinding document key issues = [] ↔ issues = [] ∧ SignerBound document key := by
  rw [checkSignerBinding, SignerBound]
  rcases (stringMember document "issuer").or (stringMember document "agent_id") with _ | claimed
  · simp
  · rw [Issues.addIf_eq_nil]
    refine and_congr_right' ?_
    simp only [Bool.and_eq_false_iff, bne_eq_false_iff_eq, Option.some.injEq, forall_eq']
    tauto

/-- The rounds the walk of a policy may take. -/
def VerificationPolicy.rounds (policy : VerificationPolicy) : ℕ :=
  (policy.maxTrustDepth.getD 8 + 1).toNat

/-- A path of issuers from `start` to an anchor within the depth of the policy. -/
def IssuerPath (engine : Engine) (policy : VerificationPolicy) (now : ℤ) (skew : ℚ)
    (trace : TrustTrace) (start : String) (path : List String) : Prop :=
  WalkPath engine policy.trustAnchors now skew trace policy.rounds start [] path

theorem IssuerPath.mono {engine : Engine} {policy : VerificationPolicy} {now : ℤ} {skew : ℚ}
    {t u : TrustTrace} {start : String} {path : List String}
    (h : IssuerPath engine policy now skew t start path) (hsub : t ⊆ u) :
    IssuerPath engine policy now skew u start path :=
  ⟨h.trust.mono fun _ _ _ hanswer => hanswer.mono hsub, h.head, h.nodup, h.fresh, h.length⟩

/-- The walk returns an anchor exactly if a path leads to it. -/
theorem validateTrustChain_iff {engine : Engine} {start : String} {policy : VerificationPolicy}
    {now : ℤ} {skew : ℚ} {issues : Issues} {trace : TrustTrace} {r : Option String × Issues}
    (h : Run (validateTrustChain engine start policy now skew issues) trace (.ok r))
    (anchor : String) :
    r.1 = some anchor ↔ ∃ path, IssuerPath engine policy now skew trace start path ∧
      path.getLast? = some anchor := by
  obtain ⟨found, issues'⟩ := r
  constructor
  · rintro rfl
    obtain ⟨path, hpath, hlast, -⟩ := chainLoop_path h
    exact ⟨path, hpath, hlast⟩
  · rintro ⟨path, hpath, hlast⟩
    rw [chainLoop_follows h hpath, hlast]

/-- Everything a verification without issues has established. -/
structure Acceptance (engine : Engine) (document : Record) (policy : VerificationPolicy)
    (trace : TrustTrace) (proof : OatiJwsProof) (key : VerificationKey) (now : ℤ)
    (path : List String) : Prop where
  proof_eq : document.lookup "proof" = some (.obj proof.members)
  now_eq : ∀ time, policy.now = some time → now = time
  allowed : proof.algorithm ∈ policy.allowed
  proofTimely : ProofTimely engine proof now policy.skew policy.maxAge
  documentTimely : DocumentTimely engine document now policy.skew
  audience : policy.expectedAudience ∈ normalizeAudience proof.audience
  resolved : Answered trace (.resolveKey proof.verificationMethod) (.ok (some key))
  keyValid : KeyValid engine key proof now policy.skew
  signerBound : SignerBound document key
  issuerPath : IssuerPath engine policy now policy.skew trace key.issuer path
  revocationsClear : RevocationsClear engine now trace
  revocationAsked : ∀ target ∈ key.id :: documentId document :: path, target ≠ "" →
    RevocationAsked trace target
  signed : Signed engine document proof key trace
  replay : Answered trace (.checkAndStore (replayKey proof policy)
    (dateParse engine proof.expires) now) (.ok true)

theorem checkDocument_eq_nil {engine : Engine} {document : Record} {proof : OatiJwsProof}
    {policy : VerificationPolicy} {now : ℤ} :
    checkDocument engine document proof policy now = [] ↔ proof.algorithm ∈ policy.allowed ∧
      ProofTimely engine proof now policy.skew policy.maxAge ∧
      DocumentTimely engine document now policy.skew ∧
      policy.expectedAudience ∈ normalizeAudience proof.audience := by
  simp only [checkDocument, Issues.addIf_eq_nil, checkDocumentTime_eq_nil, checkProofTime_eq_nil,
    true_and, Bool.not_eq_false', List.contains_iff_mem, and_assoc]

/-- A trace without revocation calls is clear. -/
theorem revocationsClear_of_avoids {α : Type} {engine : Engine} {now : ℤ} {p q : TrustProg α}
    {trace : TrustTrace} (hp : Avoids (fun c => ∃ target, c = .resolveRevocation target) p)
    (h : Steps p trace q) : RevocationsClear engine now trace := by
  intro target answer hanswer
  exact absurd hanswer (hp.not_answered h ⟨target, rfl⟩ answer)

theorem checkSignature_avoids {engine : Engine} {document : Record} {proof : OatiJwsProof}
    {key : VerificationKey} {issues : Issues} :
    Avoids (fun c => ∃ target, c = .resolveRevocation target)
      (checkSignature engine document proof key issues) := by
  refine Avoids.ite (avoids_pure _) (Avoids.bind (Avoids.attempt ?_) fun _ => avoids_pure _)
  refine (avoids_ofExcept _).bind fun _ => Avoids.bind (avoids_perform (by simp)) fun _ =>
    (avoids_ofExcept _).bind fun _ => avoids_perform (by simp)

/-- What `verifyWithKey` establishes. -/
theorem verifyWithKey_run_nil {engine : Engine} {document : Record} {proof : OatiJwsProof}
    {policy : VerificationPolicy} {key : VerificationKey} {now : ℤ} {issues : Issues}
    {trace : TrustTrace} {result : VerificationResult}
    (h : Run (verifyWithKey engine document proof policy key now issues) trace (.ok result))
    (hresult : result.verified = true) :
    issues = [] ∧ KeyValid engine key proof now policy.skew ∧ SignerBound document key ∧
      RevocationsClear engine now trace ∧ Signed engine document proof key trace ∧
      Answered trace (.checkAndStore (replayKey proof policy) (dateParse engine proof.expires) now)
        (.ok true) ∧
      ∃ path, IssuerPath engine policy now policy.skew trace key.issuer path ∧
        ∀ target ∈ key.id :: documentId document :: path, target ≠ "" →
          RevocationAsked trace target := by
  rw [verifyWithKey] at h
  obtain ⟨issues₁, _, _, rfl, h₁, g₁⟩ := run_bind_ok_iff.mp h
  obtain ⟨rfl, hkey⟩ := run_ofExcept_iff.mp h₁
  obtain ⟨⟨anchor, issues₂⟩, t₂, _, rfl, h₂, g₂⟩ := run_bind_ok_iff.mp g₁
  obtain ⟨issues₃, t₃, _, rfl, h₃, g₃⟩ := run_bind_ok_iff.mp g₂
  obtain ⟨issues₄, t₄, _, rfl, h₄, g₄⟩ := run_bind_ok_iff.mp g₃
  obtain ⟨issues₅, t₅, _, rfl, h₅, g₅⟩ := run_bind_ok_iff.mp g₄
  obtain ⟨rfl, hr⟩ := run_pure_iff.mp g₅
  obtain rfl := Except.ok.inj hr
  -- backwards from the empty list, each check added nothing
  obtain rfl : issues₅ = [] := List.isEmpty_iff.mp hresult
  obtain ⟨rfl, rfl⟩ := checkReplay_run_nil h₅
  obtain ⟨hbinding, hsigned⟩ := checkSignature_run_nil h₄
  obtain ⟨rfl, hbound⟩ := checkSignerBinding_eq_nil.mp hbinding
  obtain ⟨hiff, hasked⟩ := checkRevocationFrom_run h₃
  obtain ⟨rfl, hclear₃⟩ := hiff.mp rfl
  obtain ⟨rfl, hanchor, hclear₂⟩ := chainLoop_issues h₂
  obtain ⟨rfl, hvalid⟩ := checkKey_eq_nil.mp hkey.symm
  have hclear₄ : RevocationsClear engine now t₄ :=
    revocationsClear_of_avoids checkSignature_avoids h₄
  obtain ⟨a, rfl⟩ := Option.ne_none_iff_exists'.mp hanchor
  obtain ⟨path, hpath, -, hpathAsked⟩ := chainLoop_path h₂
  refine ⟨rfl, hvalid, hbound, ?_, ?_, ?_, path, ?_, ?_⟩
  · simp only [List.nil_append, revocationsClear_append]
    refine ⟨hclear₂, hclear₃, hclear₄, ?_, revocationsClear_nil⟩
    rintro target answer (_ | ⟨_, ⟨⟩⟩)
  · exact hsigned.mono fun _ hx => by simp [hx]
  · simp [Answered]
  · exact IssuerPath.mono hpath fun _ hx => by simp [hx]
  · intro target htarget hne
    rw [List.mem_cons, List.mem_cons] at htarget
    rcases htarget with rfl | rfl | htarget
    · exact (hasked _ (by simp) hne).mono fun _ hx => by simp [hx]
    · exact (hasked _ (by simp) hne).mono fun _ hx => by simp [hx]
    · exact (hpathAsked target htarget hne).mono fun _ hx => by simp [hx]

/-- A verified document with a proof is accepted. -/
theorem verifyProof_accepted {engine : Engine} {document : Record} {proof : OatiJwsProof}
    {policy : VerificationPolicy} {trace : TrustTrace} {result : VerificationResult}
    (hproof : document.lookup "proof" = some (.obj proof.members))
    (h : Run (verifyProof engine document proof policy) trace (.ok result))
    (hresult : result.verified = true) :
    ∃ key now path, Acceptance engine document policy trace proof key now path ∧
      (policy.now = none → Answered trace .clock (.ok now)) := by
  rw [verifyProof] at h
  obtain ⟨now, t₁, _, rfl, h₁, g₁⟩ := run_bind_ok_iff.mp h
  obtain ⟨answer, t₂, t₃, rfl, h₂, g₂⟩ := run_bind_ok_iff.mp g₁
  obtain ⟨_, rfl, hanswer⟩ := run_attempt_perform_iff.mp h₂
  cases hanswer
  have hnow : (∀ time, policy.now = some time → now = time) ∧
      RevocationsClear engine now t₁ ∧ (policy.now = none → Answered t₁ .clock (.ok now)) := by
    rw [currentTime] at h₁
    split at h₁
    · next time htime =>
      obtain ⟨rfl, hr⟩ := run_pure_iff.mp h₁
      cases hr
      refine ⟨fun time' htime' => ?_, revocationsClear_nil, fun hnone => ?_⟩
      · exact Option.some.inj (htime.symm.trans htime')
      · cases htime.symm.trans hnone
    · next htime =>
      obtain rfl := run_perform_iff.mp h₁
      refine ⟨fun time' htime' => absurd (htime.symm.trans htime') (by simp), ?_, fun _ =>
        answered_singleton.mpr rfl⟩
      rintro target answer' (_ | ⟨_, ⟨⟩⟩)
  rcases answer with e | _ | key
  · obtain ⟨rfl, hr⟩ := run_pure_iff.mp g₂
    cases hr
    exact absurd (List.isEmpty_iff.mp hresult) (Issues.add_ne_nil _ _ _)
  · obtain ⟨rfl, hr⟩ := run_pure_iff.mp g₂
    cases hr
    exact absurd (List.isEmpty_iff.mp hresult) (Issues.add_ne_nil _ _ _)
  · obtain ⟨hissues, hkey, hbound, hclear, hsigned, hreplay, path, hpath, hasked⟩ :=
      verifyWithKey_run_nil g₂ hresult
    obtain ⟨hallowed, hproofTime, hdocumentTime, haudience⟩ := checkDocument_eq_nil.mp hissues
    refine ⟨key, now, path, ⟨hproof, hnow.1, hallowed, hproofTime, hdocumentTime, haudience, ?_,
      hkey, hbound, hpath.mono fun _ hx => by simp [hx], ?_, ?_,
      hsigned.mono fun _ hx => by simp [hx], hreplay.mono fun _ hx => by simp [hx]⟩,
      fun hnone => (hnow.2.2 hnone).mono fun _ hx => by simp [hx]⟩
    · exact answered_append.mpr (.inr (answered_append.mpr (.inl (answered_singleton.mpr rfl))))
    · refine revocationsClear_append.mpr ⟨hnow.2.1, revocationsClear_append.mpr ⟨?_, hclear⟩⟩
      rintro target answer' (_ | ⟨_, ⟨⟩⟩)
    · intro target htarget hne
      exact (hasked target htarget hne).mono fun _ hx => by simp [hx]

theorem algorithmOf_name (algorithm : OatiAlgorithm) :
    algorithmOf algorithm.name = some algorithm := by
  cases algorithm <;> rfl

/-- A well-formed proof is parsed. -/
theorem parseProof_of_wellFormed {members : Record} {algorithm : OatiAlgorithm}
    {created expires verificationMethod nonce signature : String}
    (h : WellFormedProof members algorithm created expires verificationMethod nonce signature) :
    parseProof (some (.obj members))
      = .ok ⟨members, algorithm, created, expires, verificationMethod, nonce, signature, h⟩ := by
  have hproof : proofOf members
      = some ⟨members, algorithm, created, expires, verificationMethod, nonce, signature, h⟩ := by
    simp only [proofOf, h.algorithm_eq, h.created_eq, h.expires_eq, h.method_eq, h.nonce_eq,
      h.signature_eq, Option.bind_some, algorithmOf_name, Option.bind_eq_bind, dif_pos h]
  rw [parseProof, hproof]

/-- The proof `parseProof` returns is that of the document. -/
theorem parseProof_eq_ok {value : Option Value} {proof : OatiJwsProof}
    (h : parseProof value = .ok proof) : value = some (.obj proof.members) := by
  have hproof : ∀ members, proofOf members = some proof → proof.members = members := by
    intro members hmembers
    simp only [proofOf, Option.bind_eq_bind, Option.bind_eq_some_iff] at hmembers
    obtain ⟨algorithm, -, created, -, expires, -, method, -, nonce, -, signature, -, h⟩ := hmembers
    split_ifs at h with hwell
    cases h
    rfl
  rcases value with _ | v
  · cases h
  · rcases v with _ | b | n | s | items | members
    case obj =>
      simp only [parseProof] at h
      split at h
      · next proof' hmembers =>
        cases h
        rw [hproof members hmembers]
      · cases h
    all_goals cases h

/-- A verified document is accepted, at the time of the clock if the policy names none. -/
theorem verifyDocument_accepted_clock {engine : Engine} {document : Record}
    {policy : VerificationPolicy} {trace : TrustTrace} {result : VerificationResult}
    (h : Run (verifyDocument engine document policy) trace (.ok result))
    (hresult : result.verified = true) :
    ∃ proof key now path, Acceptance engine document policy trace proof key now path ∧
      (policy.now = none → Answered trace .clock (.ok now)) := by
  rw [verifyDocument] at h
  split at h
  · obtain ⟨-, hr⟩ := run_pure_iff.mp h
    cases hr
    cases hresult
  · next proof hproof =>
    exact ⟨proof, verifyProof_accepted (parseProof_eq_ok hproof) h hresult⟩

theorem verifyDocument_accepted {engine : Engine} {document : Record}
    {policy : VerificationPolicy} {trace : TrustTrace} {result : VerificationResult}
    (h : Run (verifyDocument engine document policy) trace (.ok result))
    (hresult : result.verified = true) :
    ∃ proof key now path, Acceptance engine document policy trace proof key now path := by
  obtain ⟨proof, key, now, path, haccepted, -⟩ := verifyDocument_accepted_clock h hresult
  exact ⟨proof, key, now, path, haccepted⟩

/-! ### What a signer writes is read back -/

theorem fromBase64url_encode {bytes : List UInt8} (h : bytes ≠ []) :
    fromBase64url (Base64.encode bytes) = .ok bytes := by
  have hne : (Base64.encode bytes).isEmpty = false := by
    rw [List.isEmpty_eq_false_iff]
    exact mt Base64.encode_eq_nil.mp h
  have hall : (Base64.encode bytes).all Base64.isDigit = true :=
    List.all_eq_true.mpr fun _ hc => Base64.isDigit_of_mem_encode hc
  rw [fromBase64url, hne, hall, Base64.decode_encode]
  rfl

theorem dot_notMem_encode (bytes : List UInt8) : '.' ∉ Base64.encode bytes := fun h =>
  absurd (Base64.isDigit_of_mem_encode h) (by decide)

/-- `${protectedHeader}..${signature}`. -/
def detachedJws (header signature : List UInt8) : String :=
  String.ofList (Base64.encode header ++ '.' :: '.' :: Base64.encode signature)

theorem splitJws_detachedJws {header signature : List UInt8} (hheader : header ≠ [])
    (hsignature : signature ≠ []) :
    splitJws (detachedJws header signature)
      = .ok (Base64.encode header, Base64.encode signature) := by
  have hsplit : (detachedJws header signature).toList.splitOn '.'
      = [Base64.encode header, [], Base64.encode signature] := by
    rw [detachedJws, String.toList_ofList,
      List.splitOn_append_cons_self_of_not_mem (dot_notMem_encode header)]
    rw [← List.nil_append ('.' :: Base64.encode signature),
      List.splitOn_append_cons_self_of_not_mem (by simp),
      List.splitOn_eq_singleton (dot_notMem_encode signature)]
  rw [splitJws, hsplit]
  simp only [ne_eq, Base64.encode_eq_nil, hheader, not_false_eq_true, hsignature, and_self,
    if_true]

theorem isDetachedJws_detachedJws {header signature : List UInt8} (hheader : header ≠ [])
    (hsignature : signature ≠ []) :
    isDetachedJws (detachedJws header signature).toList = true := by
  have hall : ∀ bytes, ∀ c ∈ Base64.encode bytes, Base64.isDigit c = true := fun _ _ hc =>
    Base64.isDigit_of_mem_encode hc
  have hdot : Base64.isDigit '.' = false := by decide
  rw [detachedJws, String.toList_ofList, isDetachedJws, List.takeWhile_append_of_pos (hall header),
    List.dropWhile_append_of_pos (hall header), List.takeWhile_cons_of_neg (by simp [hdot]),
    List.dropWhile_cons_of_neg (by simp [hdot])]
  simp [Base64.encode_eq_nil, hheader, hsignature, List.all_eq_true.mpr (hall signature)]

/-- A header without numbers is read back from its encoding. -/
theorem parseHeader_encode {engine : Engine} {members : List (String × Json String)}
    (hnumbers : (Json.obj members).numbers = []) (hdistinct : (Json.obj members).Distinct) :
    parseHeader engine
        (Base64.encode (Utf8.encode (JsonText.render String.toList (.obj members))))
      = .ok (JsonText.asText String.toList (.obj members)) := by
  have hliterals : JsonText.Literals String.toList (.obj members) := by
    rw [JsonText.Literals, hnumbers]
    simp
  obtain ⟨cs, hcs⟩ : ∃ cs, JsonText.render String.toList (.obj members) = '{' :: cs := by
    cases members <;> exact ⟨_, rfl⟩
  have hne : Utf8.encode ('{' :: cs) ≠ [] := by
    intro h
    have hdecode := Utf8.decode_encode ('{' :: cs)
    rw [h] at hdecode
    cases hdecode
  have htext : decodeText (Utf8.encode ('{' :: cs)) = '{' :: cs := by
    rw [decodeText, Utf8.decode_encode]
    rfl
  have hparse := JsonText.parse_render hliterals hdistinct
  rw [hcs] at hparse ⊢
  rw [parseHeader, fromBase64url_encode hne]
  refine bind_eq_ok.mpr ⟨_, rfl, ?_⟩
  simp only [htext, hparse]
  rfl

/-! ### A key of an anchor -/

section Anchor

variable (document : Record) (proof : OatiJwsProof) (policy : VerificationPolicy)
  (key : VerificationKey) (engine : Engine) (now : ℤ) (publicKey : ℕ)
  (signature input : List UInt8) (stored : Bool)

/-- The answers under which a document is verified with a key of an anchor: the key, no
revocations, a valid signature, and whether the nonce is fresh. -/
def anchorTrace : TrustTrace :=
  [⟨.resolveKey proof.verificationMethod, .ok (some key)⟩,
    ⟨.resolveRevocation key.issuer, .ok none⟩, ⟨.resolveRevocation key.id, .ok none⟩,
    ⟨.resolveRevocation key.issuer, .ok none⟩,
    ⟨.resolveRevocation (documentId document), .ok none⟩,
    ⟨.importKey key.publicKeyJwk proof.algorithm, .ok publicKey⟩,
    ⟨.verify proof.algorithm publicKey signature input, .ok true⟩,
    ⟨.checkAndStore (replayKey proof policy) (dateParse engine proof.expires) now, .ok stored⟩]

variable {document proof policy key engine now signature input}

/-- One target with a good status. -/
theorem steps_checkRevocationFrom {index : ℕ} {target : String} {rest : List String}
    {issues : Issues} (hne : target ≠ "") :
    Steps (checkRevocationFrom engine index (target :: rest) now issues)
      [⟨.resolveRevocation target, .ok none⟩]
      (checkRevocationFrom engine (index + 1) rest now issues) := by
  rw [checkRevocationFrom, if_neg hne]
  exact .step (.refl _)

/-- The issue of a nonce that is not fresh. -/
def replayIssues (stored : Bool) : Issues :=
  Issues.addIf [] (!stored) .replayDetected "proof nonce has already been accepted"

/-- A document whose checks hold, signed with a key of an anchor, is verified if its nonce is
fresh. -/
theorem run_verifyDocument_of_anchor {encoded : List Char}
    (hproof : parseProof (document.lookup "proof") = .ok proof) (hnow : policy.now = some now)
    (hdocument : checkDocument engine document proof policy now = [])
    (hkey : KeyValid engine key proof now policy.skew) (hbound : SignerBound document key)
    (hanchor : key.issuer ∈ policy.trustAnchors) (hrounds : policy.rounds ≠ 0)
    (hid : key.id ≠ "") (hissuer : key.issuer ≠ "") (hdoc : documentId document ≠ "")
    (hinput : signingInput engine document proof = .ok (encoded, input))
    (hsignature : fromBase64url encoded = .ok signature) :
    Run (verifyDocument engine document policy)
      (anchorTrace document proof policy key engine now publicKey signature input stored)
      (.ok (verificationResult proof (some key.issuer) (replayIssues stored))) := by
  have hchain : Run (validateTrustChain engine key.issuer policy now policy.skew [])
      [⟨.resolveRevocation key.issuer, .ok none⟩] (.ok (some key.issuer, [])) := by
    obtain ⟨rounds, hrounds⟩ := Nat.exists_eq_succ_of_ne_zero hrounds
    rw [validateTrustChain, ← VerificationPolicy.rounds, hrounds]
    refine (chainLoop_succ_run (by simp)).mpr ⟨[], [_], [], rfl, ?_, .inl ⟨hanchor, rfl, rfl⟩⟩
    rw [checkRevocation, checkRevocationFrom, if_pos rfl]
    exact steps_checkRevocationFrom hissuer
  have hrevocation : Run (checkRevocation engine [key.id, key.issuer, documentId document] now [])
      [⟨.resolveRevocation key.id, .ok none⟩, ⟨.resolveRevocation key.issuer, .ok none⟩,
        ⟨.resolveRevocation (documentId document), .ok none⟩] (.ok []) :=
    (steps_checkRevocationFrom hid).append
      ((steps_checkRevocationFrom hissuer).append (steps_checkRevocationFrom hdoc))
  have hverify : Run (checkSignature engine document proof key [])
      [⟨.importKey key.publicKeyJwk proof.algorithm, .ok publicKey⟩,
        ⟨.verify proof.algorithm publicKey signature input, .ok true⟩] (.ok []) := by
    rw [checkSignature, if_neg (by simp)]
    refine run_bind_ok_iff.mpr ⟨.ok true, _, [], (List.append_nil _).symm,
      run_attempt_iff.mpr ⟨_, ?_, rfl⟩, run_pure_iff.mpr ⟨rfl, rfl⟩⟩
    rw [verifySignature]
    refine run_bind_ok_iff.mpr ⟨(encoded, input), [], _, rfl,
      run_ofExcept_iff.mpr ⟨rfl, hinput.symm⟩, ?_⟩
    refine run_bind_ok_iff.mpr ⟨publicKey, [_], [_], rfl, run_perform_iff.mpr rfl, ?_⟩
    exact run_bind_ok_iff.mpr ⟨signature, [], [_], rfl,
      run_ofExcept_iff.mpr ⟨rfl, hsignature.symm⟩, run_perform_iff.mpr rfl⟩
  have hreplay : Run (checkReplay engine proof policy now [])
      [⟨.checkAndStore (replayKey proof policy) (dateParse engine proof.expires) now, .ok stored⟩]
      (.ok (replayIssues stored)) := .step (.refl _)
  have hbinding : checkSignerBinding document key [] = [] :=
    checkSignerBinding_eq_nil.mpr ⟨rfl, hbound⟩
  have hwithKey : Run (verifyWithKey engine document proof policy key now [])
      (anchorTrace document proof policy key engine now publicKey signature input stored).tail
      (.ok (verificationResult proof (some key.issuer) (replayIssues stored))) := by
    rw [verifyWithKey]
    refine run_bind_ok_iff.mpr ⟨[], [], _, rfl,
      run_ofExcept_iff.mpr ⟨rfl, (checkKey_eq_nil.mpr ⟨rfl, hkey⟩).symm⟩, ?_⟩
    refine run_bind_ok_iff.mpr ⟨_, _, _, rfl, hchain, ?_⟩
    refine run_bind_ok_iff.mpr ⟨[], _, _, rfl, hrevocation, ?_⟩
    refine run_bind_ok_iff.mpr ⟨[], _, _, rfl, by rw [hbinding]; exact hverify, ?_⟩
    exact run_bind_ok_iff.mpr ⟨replayIssues stored, _, [], rfl, hreplay,
      run_pure_iff.mpr ⟨rfl, rfl⟩⟩
  rw [verifyDocument, hproof]
  refine run_bind_ok_iff.mpr ⟨now, [], _, rfl, ?_, ?_⟩
  · rw [currentTime, hnow]
    exact run_pure_iff.mpr ⟨rfl, rfl⟩
  · refine run_bind_ok_iff.mpr ⟨.ok (some key), [_], _, rfl,
      run_attempt_perform_iff.mpr ⟨_, rfl, rfl⟩, ?_⟩
    rw [hdocument]
    exact hwithKey

end Anchor

/-! ### A signed note -/

def noteHeader : List (String × Json String) :=
  [("alg", .str "ES256"), ("b64", .bool false), ("crit", .arr [.str "b64"]),
    ("kid", .str "oati:key:1"), ("typ", .str "oati+jws")]

def noteHeaderBytes : List UInt8 := Utf8.encode (JsonText.render String.toList (.obj noteHeader))

def noteProof : Record :=
  [("type", .str "OatiJwsProof2026"), ("cryptosuite", .str "ecdsa-jcs-2019"),
    ("algorithm", .str "ES256"), ("created", .str "2026-07-27T12:00:00Z"),
    ("expires", .str "2026-07-27T12:01:00Z"), ("verification_method", .str "oati:key:1"),
    ("proof_purpose", .str "assertionMethod"), ("audience", .str "oati:org:shop"),
    ("nonce", .str "nonce-0123456789"), ("signature", .str (detachedJws noteHeaderBytes [0]))]

/-- A document without a window of its own, signed for one minute. -/
def note : Record :=
  [("id", .str "oati:note:1"), ("issuer", .str "oati:issuer:root"), ("proof", .obj noteProof)]

def noteKey : VerificationKey where
  id := "oati:key:1"
  controller := "oati:issuer:root"
  issuer := "oati:issuer:root"
  algorithm := "ES256"
  publicKeyJwk := .obj [("kty", .str "EC"), ("crv", .str "P-256")]
  status := "active"
  validFrom := "2026-01-01T00:00:00Z"

/-- The policy of a verifier that trusts the issuer, at an instant. -/
def notePolicy (now : ℤ) : VerificationPolicy where
  trustAnchors := ["oati:issuer:root"]
  expectedAudience := "oati:org:shop"
  now := some now

/-- When the proof of the note expires. -/
def noteExpires : ℤ := 1785153660000

theorem exists_noteProof : ∃ proof, parseProof (some (.obj noteProof)) = .ok proof ∧
    proof.members = noteProof ∧ proof.created = "2026-07-27T12:00:00Z" ∧
    proof.expires = "2026-07-27T12:01:00Z" ∧ proof.verificationMethod = "oati:key:1" ∧
    proof.algorithm = .es256 ∧ proof.signature = detachedJws noteHeaderBytes [0] ∧
    proof.nonce = "nonce-0123456789" := by
  have hwell : WellFormedProof noteProof .es256 "2026-07-27T12:00:00Z" "2026-07-27T12:01:00Z"
      "oati:key:1" "nonce-0123456789" (detachedJws noteHeaderBytes [0]) :=
    { type_eq := rfl, algorithm_eq := rfl, cryptosuite_eq := rfl, created_eq := rfl,
      expires_eq := rfl, method_eq := rfl, method_ne := by decide, purpose_eq := rfl,
      audience_ne := by decide, audience_valid := rfl, nonce_eq := rfl,
      nonce_length := by decide, signature_eq := rfl,
      signature_shape := isDetachedJws_detachedJws (by decide) (by decide) }
  exact ⟨_, parseProof_of_wellFormed hwell, rfl, rfl, rfl, rfl, rfl, rfl, rfl⟩

/-- Sums and differences of small integers are exact. -/
theorem plus_natCast (instant : ℤ) (duration : ℕ)
    (h : (instant + duration).natAbs ≤ Double.exactBound) :
    plus instant duration = (instant + duration : ℤ) := by
  rw [plus, ← Double.round_intCast_of_natAbs_le h]
  push_cast
  rfl

theorem minus_natCast (instant : ℤ) (duration : ℕ)
    (h : (instant - duration).natAbs ≤ Double.exactBound) :
    minus instant duration = (instant - duration : ℤ) := by
  rw [minus, ← Double.round_intCast_of_natAbs_le h]
  push_cast
  rfl

/-- What a document needs besides the note's proof, to be verified at an instant with the note's
key, under its controller and with a maximal age. -/
structure SignedLikeNote (engine : Engine) (document : Record) (controller : String)
    (maxAge : Option ℚ) (now : ℤ) : Prop where
  proof_eq : document.lookup "proof" = some (.obj noteProof)
  id_ne : documentId document ≠ ""
  timely : DocumentTimely engine document now 30000
  age : minus now (noteExpires - 60000 : ℤ) ≤ Double.round (maxAge.getD 300000 + 30000)
  bound : SignerBound document { noteKey with controller }
  canonical : ∃ canonical, canonicalJson engine (.obj (setMember document "proof"
    (.obj (noteProof.filter fun m => m.1 != "signature")))) = .ok canonical

/-- Such a document is verified from the creation of the proof until the clock skew after its
expiry. -/
theorem run_signedLikeNote {engine : Engine} {document : Record} {controller : String}
    {maxAge : Option ℚ} {now : ℤ} (h : SignedLikeNote engine document controller maxAge now)
    (stored : Bool) (hstart : noteExpires - 60000 ≤ now) (hend : now < noteExpires + 30000) :
    ∃ proof input,
      Run (verifyDocument engine document { notePolicy now with maxProofAgeMs := maxAge })
        (anchorTrace document proof { notePolicy now with maxProofAgeMs := maxAge }
          { noteKey with controller } engine now 0 [0] input stored)
        (.ok (verificationResult proof (some noteKey.issuer) (replayIssues stored))) ∧
      parseProof (document.lookup "proof") = .ok proof ∧
      dateParse engine proof.expires = some noteExpires := by
  obtain ⟨proof, hproof, hmembers, hcreated, hexpires, hmethod, halgorithm, hsignature, hnonce⟩ :=
    exists_noteProof
  rw [← h.proof_eq] at hproof
  set policy : VerificationPolicy := { notePolicy now with maxProofAgeMs := maxAge } with hpolicy
  have hskew : policy.skew = 30000 := rfl
  have hcreatedAt : dateParse engine proof.created = some (noteExpires - 60000) := by
    rw [hcreated]
    rfl
  have hexpiresAt : dateParse engine proof.expires = some noteExpires := by
    rw [hexpires]
    rfl
  have hbounds : noteExpires - 60000 ≤ now ∧ now < noteExpires + 30000 := ⟨hstart, hend⟩
  simp only [noteExpires] at hbounds
  have hplus : plus now 30000 = (now + 30000 : ℤ) :=
    plus_natCast now 30000 (by simp only [Double.exactBound]; omega)
  have hminus : minus now 30000 = (now - 30000 : ℤ) :=
    minus_natCast now 30000 (by simp only [Double.exactBound]; omega)
  have hfrom : minus 1767225600000 30000 = (1767225570000 : ℤ) :=
    minus_natCast 1767225600000 30000 (by decide)
  have hdocument : checkDocument engine document proof policy now = [] := by
    refine checkDocument_eq_nil.mpr ⟨?_, ⟨_, _, hcreatedAt, hexpiresAt, by simp, ?_, ?_, ?_⟩,
      h.timely, ?_⟩
    · rw [halgorithm]
      exact List.mem_of_elem_eq_true rfl
    · rw [hskew, hplus]
      exact_mod_cast (show noteExpires - 60000 ≤ now + 30000 by omega)
    · rw [hskew, hminus]
      exact_mod_cast (show now - 30000 < noteExpires by omega)
    · exact h.age
    · rw [OatiJwsProof.audience, hmembers]
      exact List.mem_of_elem_eq_true rfl
  have hkey : KeyValid engine { noteKey with controller } proof now policy.skew := by
    have hfromAt : dateParse engine "2026-01-01T00:00:00Z" = some 1767225600000 := rfl
    refine ⟨by rw [halgorithm]; rfl, hmethod.symm, rfl, ?_, .inl rfl, ?_, ?_, ?_, ?_⟩
    · rw [halgorithm]
      rfl
    · intro hretired
      exact absurd (show "active" = "retired" from hretired) (by decide)
    · refine ⟨1767225600000, hfromAt, fun created hc => ?_⟩
      obtain rfl := Option.some.inj (hcreatedAt.symm.trans hc)
      rw [hskew, hfrom]
      norm_num [noteExpires]
    · rintro s ⟨⟩
    · rintro s ⟨⟩
  obtain ⟨canonical, hcanonical⟩ : ∃ canonical,
      canonicalJson engine (unsignedDocument document proof) = .ok canonical := by
    rw [unsignedDocument, withoutSignature, hmembers]
    exact h.canonical
  have hheader : HeaderMatches (JsonText.asText String.toList (.obj noteHeader)) proof := by
    refine ⟨?_, ?_, rfl, rfl, rfl⟩
    · rw [halgorithm]
      rfl
    · rw [hmethod]
      rfl
  have hparse : parseHeader engine (Base64.encode noteHeaderBytes)
      = .ok (JsonText.asText String.toList (.obj noteHeader)) :=
    parseHeader_encode rfl
      (by simp [noteHeader, Json.Distinct, Json.MembersDistinct, Json.ItemsDistinct])
  have hinput : signingInput engine document proof = .ok (Base64.encode [0],
      joinSigningInput (Base64.encode noteHeaderBytes) (encodeText canonical)) := by
    rw [signingInput, hsignature, splitJws_detachedJws (by decide) (by decide)]
    refine bind_eq_ok.mpr ⟨_, rfl, bind_eq_ok.mpr ⟨_, hparse, ?_⟩⟩
    refine bind_eq_ok.mpr ⟨(), checkHeader_eq_ok.mpr hheader, ?_⟩
    exact bind_eq_ok.mpr ⟨_, hcanonical, rfl⟩
  have hkeyId : "oati:key:1" ≠ "" := by decide
  have hissuer : "oati:issuer:root" ≠ "" := by decide
  exact ⟨proof, _, run_verifyDocument_of_anchor 0 stored hproof rfl hdocument hkey h.bound
    (List.mem_singleton.mpr rfl) (Nat.succ_ne_zero 8) hkeyId hissuer h.id_ne hinput
    (fromBase64url_encode (by decide)), hproof, hexpiresAt⟩

/-- The note is verified from its creation until the clock skew after its expiry. -/
theorem run_note (engine : Engine) (now : ℤ) (stored : Bool) (hstart : noteExpires - 60000 ≤ now)
    (hend : now < noteExpires + 30000) : ∃ proof input,
      Run (verifyDocument engine note (notePolicy now))
        (anchorTrace note proof (notePolicy now) noteKey engine now 0 [0] input stored)
        (.ok (verificationResult proof (some noteKey.issuer) (replayIssues stored))) ∧
      parseProof (note.lookup "proof") = .ok proof ∧
      dateParse engine proof.expires = some noteExpires := by
  have hbounds : noteExpires - 60000 ≤ now ∧ now < noteExpires + 30000 := ⟨hstart, hend⟩
  simp only [noteExpires] at hbounds
  have hage : minus now (noteExpires - 60000 : ℤ) = (now - 1785153600000 : ℤ) :=
    minus_natCast now 1785153600000 (by simp only [Double.exactBound]; omega)
  have hmax : Double.round (300000 + 30000) = (330000 : ℤ) := plus_natCast 300000 30000 (by decide)
  refine run_signedLikeNote ⟨rfl, by decide, ⟨?_, ?_⟩, ?_, ?_, _, rfl⟩ stored
    hstart hend
  · rintro s ⟨⟩
  · rintro s ⟨⟩
  · rw [hage, Option.getD_none, hmax]
    exact_mod_cast (show now - 1785153600000 ≤ 330000 by omega)
  · rintro claimed ⟨⟩ -
    exact .inl rfl

/-! ### Soundness -/

/-- A verified document satisfies everything the profile asks for, and the walk of its issuers
ends at an anchor exactly if a path of distinct issuers within the depth leads there. -/
theorem verifyDocument_sound (engine : Engine) (document : Record) (policy : VerificationPolicy) :
    (∀ trace result, Run (verifyDocument engine document policy) trace (.ok result) →
      result.verified = true →
      ∃ proof key now path, Acceptance engine document policy trace proof key now path) ∧
    ∀ start now skew issues trace r,
      Run (validateTrustChain engine start policy now skew issues) trace (.ok r) →
      ∀ anchor, r.1 = some anchor ↔ ∃ path,
        IssuerPath engine policy now skew trace start path ∧ path.getLast? = some anchor :=
  ⟨fun _ _ => verifyDocument_accepted, fun _ _ _ _ _ _ => validateTrustChain_iff⟩

/-- The note at its expiry, and the walk from its anchor. -/
theorem verifyDocument_sound_note :
    (∃ trace proof key now path,
      Acceptance plainEngine note (notePolicy noteExpires) trace proof key now path) ∧
    ∃ trace path, IssuerPath plainEngine (notePolicy 0) 0 0 trace "oati:issuer:root" path := by
  obtain ⟨proof, input, hrun, -, -⟩ := run_note plainEngine noteExpires true (by decide)
    (by decide)
  have hchain : Run (validateTrustChain plainEngine "oati:issuer:root" (notePolicy 0) 0 0 [])
      [⟨.resolveRevocation "oati:issuer:root", .ok none⟩]
      (.ok (some "oati:issuer:root", [])) := .step (.refl _)
  obtain ⟨path, hpath, -⟩ :=
    ((verifyDocument_sound plainEngine note (notePolicy 0)).2 _ _ _ _ _ _ hchain _).mp rfl
  exact ⟨⟨_, (verifyDocument_sound plainEngine note (notePolicy noteExpires)).1 _ _ hrun rfl⟩,
    _, path, hpath⟩

end Oati.TypeScript

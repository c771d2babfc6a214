import Oati.TypeScript.GatewaySpec

/-!
# Which documents the gateway authorizes on

The public records of the mandates, of the passport and of the runtime key, along every run of the
gateway to its handler. A record of a mandate or of a passport that is not active is no obstacle of
its own: it stands for a revocation from its `issued_at` on, and a verification lets a revocation
pass that is not effective yet.

* `RecordBound`: the record is verified, and its signed document is the presented one.
* `Resolution`: the records of an allowed request, and what holds of them whatever their status.
* `Live`: in addition, they are active.
* `TakesEffect`: the revocation that stands for a record takes effect.
* `live_iff`: an allowed request is live exactly if the records that are not active take effect.
-/

namespace Oati.TypeScript

open Prog

/-! ### Records -/

/-- The record holds the signed document. -/
def HoldsDocument (engine : Engine) (record : LookupRecord) (signed : Value) : Prop :=
  record.proofStatus = "verified" ∧ ∃ text,
    record.publicAttributes.lookup "signed_document" = some (.str text) ∧
    jsonParse engine text.toList = .ok signed

/-- The record is verified, and its signed document is canonically the presented one. -/
def RecordBound (engine : Engine) (record : LookupRecord) (presented : Value) : Prop :=
  ∃ signed canonical, HoldsDocument engine record signed ∧
    canonicalJson engine signed = .ok canonical ∧ canonicalJson engine presented = .ok canonical

/-- The key record is active, verified and of the passport, and its key is that of the method. -/
structure RuntimeKey (engine : Engine) (runtime : LookupRecord) (passport method : Value) :
    Prop where
  active : runtime.status = "active"
  verified : runtime.proofStatus = "verified"
  issuer : strictEq (some (.str runtime.issuer)) (passport.member "issuer") = true
  controller : strictEq (runtime.publicAttributes.lookup "controller") (passport.member "id") = true
  key : ∃ jwk listed canonical, parseAttribute engine runtime "public_key_jwk" = .ok jwk ∧
    method.member "public_key_jwk" = some listed ∧
    canonicalJson engine jwk = .ok canonical ∧ canonicalJson engine listed = .ok canonical

/-- The method is listed in the passport, with the passport as its controller. -/
structure Listed (passport method : Value) (id : Option Value) : Prop where
  mem : ∃ methods, passport.member "verification_methods" = some (.arr methods) ∧ method ∈ methods
  id : strictEq (method.member "id") id = true
  controller : strictEq (method.member "controller") (passport.member "id") = true

theorem runtimeMatches_eq_true {engine : Engine} {runtime : LookupRecord}
    {passport method : Value} (h : runtimeMatches engine runtime passport (some method) = .ok true) :
    RuntimeKey engine runtime passport method := by
  rw [runtimeMatches] at h
  split_ifs at h with hmatches
  swap
  · cases h
  obtain ⟨hactive, hverified, hissuer, hcontroller⟩ := hmatches
  obtain ⟨jwk, hjwk, h⟩ := bind_eq_ok.mp h
  obtain ⟨key, hkey, h⟩ := bind_eq_ok.mp h
  obtain ⟨canonical, hcanonical, h⟩ := bind_eq_ok.mp h
  obtain rfl : key = canonical := by simpa using h
  refine ⟨hactive, hverified, hissuer, hcontroller, ?_⟩
  have hlisted : get (some method) "public_key_jwk" = method.member "public_key_jwk" := rfl
  rw [hlisted] at hcanonical
  cases hmember : method.member "public_key_jwk" with
  | none =>
    rw [hmember] at hcanonical
    cases hcanonical
  | some listed =>
    rw [hmember] at hcanonical
    exact ⟨jwk, listed, key, hjwk, rfl, hkey, hcanonical⟩

/-- A member that is read of a value is its member. -/
theorem readMember_eq_ok {v : Value} {key : String} {member : Option Value}
    (h : readMember (some v) key = .ok member) : v.member key = member := by
  cases v with
  | null => cases h
  | _ => exact Except.ok.inj h

theorem findCandidate_eq_some {id : Option Value} {items : List Value} {method : Value}
    (h : findCandidate id items = .ok (some method)) :
    method ∈ items ∧ strictEq (method.member "id") id = true := by
  induction items with
  | nil => cases h
  | cons candidate rest ih =>
    obtain ⟨found, hfound, h⟩ := bind_eq_ok.mp h
    split_ifs at h with hid
    · obtain rfl : candidate = method := by simpa using h
      exact ⟨List.mem_cons_self .., by rw [readMember_eq_ok hfound]; exact hid⟩
    · obtain ⟨hmem, hmethod⟩ := ih h
      exact ⟨List.mem_cons_of_mem _ hmem, hmethod⟩

theorem findMethod_eq_some {passport : Value} {id : Option Value} {method : Value}
    (h : findMethod passport id = .ok (some method)) :
    (∃ methods, passport.member "verification_methods" = some (.arr methods) ∧ method ∈ methods) ∧
      strictEq (method.member "id") id = true := by
  rw [findMethod] at h
  split at h
  · cases h
  · cases h
  · next items hitems =>
    obtain ⟨hmem, hid⟩ := findCandidate_eq_some h
    exact ⟨⟨items, hitems, hmem⟩, hid⟩
  · cases h

/-! ### The policies, on the way to the handler -/

namespace Gateway

variable {g : Gateway} {request : HttpRequest}

theorem boundPublicDocument_run {kind : LookupKind} {id presented : Option Value}
    {trace : GatewayTrace} {record : LookupRecord}
    (h : Run (g.boundPublicDocument kind id presented) trace (.ok record)) :
    trace = [⟨.lookup kind id, .ok record⟩] ∧ ∃ signed, HoldsDocument g.engine record signed ∧
      ∀ v, presented = some v → truthy presented = true → RecordBound g.engine record v := by
  obtain ⟨found, t, u, rfl, ht, hu⟩ := run_bind_ok_iff.mp h
  obtain rfl := run_perform_iff.mp ht
  by_cases hverified : found.proofStatus ≠ "verified" ∨
      ((found.publicAttributes.lookup "signed_document").bind Json.string?).isNone
  · rw [if_pos hverified] at hu
    cases (run_throw_iff.mp hu).2
  rw [if_neg hverified] at hu
  obtain ⟨signed, x, y, rfl, hx, hy⟩ := run_bind_ok_iff.mp hu
  obtain ⟨rfl, hsigned⟩ := run_ofExcept_iff.mp hx
  rw [not_or, not_not, Bool.not_eq_true, Option.isNone_eq_false_iff, Option.isSome_iff_exists]
    at hverified
  obtain ⟨hstatus, text, htext⟩ := hverified
  have hholds : HoldsDocument g.engine found signed := by
    have htext := bind_string?_eq_some.mp htext
    refine ⟨hstatus, text, htext, ?_⟩
    rw [parseAttribute, htext] at hsigned
    exact hsigned.symm
  split_ifs at hy with hpresented
  · obtain ⟨canonicalSigned, x, z, rfl, hx, hz⟩ := run_bind_ok_iff.mp hy
    obtain ⟨rfl, hcanonicalSigned⟩ := run_ofExcept_iff.mp hx
    obtain ⟨canonicalPresented, x, w, rfl, hx, hw⟩ := run_bind_ok_iff.mp hz
    obtain ⟨rfl, hcanonicalPresented⟩ := run_ofExcept_iff.mp hx
    split_ifs at hw with hequal
    · cases (run_throw_iff.mp hw).2
    obtain ⟨rfl, hrecord⟩ := run_pure_iff.mp hw
    obtain rfl := Except.ok.inj hrecord
    refine ⟨rfl, signed, hholds, ?_⟩
    rintro v rfl -
    rw [not_not] at hequal
    exact ⟨signed, canonicalSigned, hholds, hcanonicalSigned.symm, by
      rw [hequal]; exact hcanonicalPresented.symm⟩
  · obtain ⟨rfl, hrecord⟩ := run_pure_iff.mp hy
    obtain rfl := Except.ok.inj hrecord
    exact ⟨rfl, signed, hholds, fun v _ htruthy => absurd htruthy hpresented⟩

/-- The policy for a mandate comes with the resolver of its record. -/
theorem mandatePolicy_run {members : Record} {trace : GatewayTrace} {policy : VerificationPolicy}
    {resolver : PolicyResolver}
    (h : Run (g.mandatePolicy (some (.obj members))) trace (.ok (policy, resolver))) :
    ∃ record, trace = [⟨.lookup .mandate (members.lookup "id"), .ok record⟩] ∧
      policy = g.basePolicy g.config.mandateAudience ∧
      resolver = .lifecycle (members.lookup "id") record ∧ RecordBound g.engine record (.obj members) := by
  have htruthy : truthy (some (.obj members)) = true := rfl
  rw [mandatePolicy, if_pos htruthy] at h
  obtain ⟨record, t, u, rfl, ht, hu⟩ := run_bind_ok_iff.mp h
  obtain ⟨rfl, signed, -, hbound⟩ := boundPublicDocument_run ht
  obtain ⟨rfl, hresult⟩ := run_pure_iff.mp hu
  obtain ⟨rfl, rfl⟩ := Prod.mk.inj (Except.ok.inj hresult)
  exact ⟨record, by simp, rfl, rfl, hbound _ rfl htruthy⟩

/-- The passport was verified under its policy, in its part of a trace. -/
def PassportVerified (g : Gateway) (record : LookupRecord) (passport : Value)
    (trace : GatewayTrace) : Prop :=
  ∃ result, result.verified = true ∧
    Run ((verifyDocument g.engine (passport.members?.getD []) g.passportPolicy).interpret
      (passportCalls (.lifecycle (passport.member "id") record))) trace (.ok result)

/-- A resolver that resolves the key of the envelope is made for a passport that was verified, and
that lists the key as its own and as its record has it. -/
theorem envelopePolicy_run {members : Record} {trace : GatewayTrace}
    {policy : VerificationPolicy} {resolver : PolicyResolver}
    (h : Run (g.envelopePolicy (some (.obj members))) trace (.ok (policy, resolver)))
    (hresolver : resolver ≠
      .unavailable (get (get (some (.obj members)) "proof") "verification_method")) :
    ∃ record passport method runtime verified, trace =
        ⟨.lookup .passport (members.lookup "agent_id"), .ok record⟩ ::
          (verified ++ [⟨.lookup .key (method.member "id"), .ok runtime⟩]) ∧
      HoldsDocument g.engine record passport ∧ g.PassportVerified record passport verified ∧
      Listed passport method
        (get (get (some (.obj members)) "proof") "verification_method") ∧
      RuntimeKey g.engine runtime passport method := by
  obtain ⟨agentID, t, u, rfl, ht, hu⟩ := run_bind_ok_iff.mp h
  obtain ⟨rfl, hagent⟩ := run_ofExcept_iff.mp ht
  obtain rfl := Except.ok.inj hagent
  obtain ⟨record, t, w, rfl, ht, hw⟩ := run_bind_ok_iff.mp hu
  obtain ⟨rfl, signed, ⟨hstatus, text, htext, hparse⟩, -⟩ := boundPublicDocument_run ht
  obtain ⟨passport, t, x, rfl, ht, hx⟩ := run_bind_ok_iff.mp hw
  obtain ⟨rfl, hpassport⟩ := run_ofExcept_iff.mp ht
  obtain rfl : signed = passport := by
    rw [parseAttribute, htext] at hpassport
    exact Except.ok.inj (hparse.symm.trans hpassport.symm)
  obtain ⟨passportID, t, y, rfl, ht, hy⟩ := run_bind_ok_iff.mp hx
  obtain ⟨rfl, hid⟩ := run_ofExcept_iff.mp ht
  obtain rfl := readMember_eq_ok hid.symm
  obtain ⟨result, verified, z, rfl, hverified, hz⟩ := run_bind_ok_iff.mp hy
  obtain ⟨resolver', k, l, rfl, hk, hl⟩ := run_bind_ok_iff.mp hz
  obtain ⟨rfl, hresult⟩ := run_pure_iff.mp hl
  obtain ⟨rfl, rfl⟩ := Prod.mk.inj (Except.ok.inj hresult)
  -- the resolver is the upstream one, so all three of its conditions held
  obtain ⟨method, t, m, rfl, ht, hm⟩ := run_bind_ok_iff.mp hk
  obtain ⟨rfl, hmethod⟩ := run_ofExcept_iff.mp ht
  obtain ⟨isRuntime, n, o, rfl, hn, ho⟩ := run_bind_ok_iff.mp hm
  split_ifs at ho with hconditions
  swap
  · cases (run_pure_iff.mp ho).2
    exact absurd rfl hresolver
  obtain ⟨rfl, -⟩ := run_pure_iff.mp ho
  simp only [Bool.and_eq_true] at hconditions
  obtain ⟨⟨hpassportVerified, hcontroller⟩, rfl⟩ := hconditions
  rw [isRuntimeKey] at hn
  split_ifs at hn with htruthy
  swap
  · cases (run_pure_iff.mp hn).2
  obtain ⟨method, rfl⟩ : ∃ m, method = some m := by
    rcases method with _ | m
    · cases htruthy
    · exact ⟨m, rfl⟩
  obtain ⟨runtime, t, p, rfl, ht, hp⟩ := run_bind_ok_iff.mp hn
  obtain rfl := run_perform_iff.mp ht
  obtain ⟨rfl, hruntime⟩ := run_ofExcept_iff.mp hp
  obtain ⟨hmem, hlisted⟩ := findMethod_eq_some hmethod.symm
  refine ⟨record, signed, method, runtime, verified, by simp [get], ⟨hstatus, text, htext, hparse⟩,
    ⟨result, hpassportVerified, hverified⟩, ⟨hmem, hlisted, hcontroller⟩,
    runtimeMatches_eq_true hruntime.symm⟩

end Gateway

/-! ### Revocations that stand for records -/

/-- The document whose revocation stands for a record that is not active. -/
def revokedDocument (engine : Engine) (kind : LookupKind) (id : Option Value)
    (record : LookupRecord) : Option Value :=
  match kind, parseAttribute engine record "signed_document" with
  | .mandate, _ => id
  | .passport, .ok passport => passport.member "id"
  | _, _ => none

/-- The document has an identifier that is asked for, and on no clock of the trace does the record
begin later. -/
def Effective (engine : Engine) (trace : GatewayTrace) (document : Option Value)
    (record : LookupRecord) : Prop :=
  (∃ target, target ≠ "" ∧ document = some (.str target)) ∧
    ∀ now time, Answered trace (.trust .clock) (.ok now) →
      (nonEmpty record.issuedAt).bind (dateParse engine) = some time → time ≤ now

/-- Every record of a mandate or a passport that is not active has the effect of a revocation. -/
def TakesEffect (engine : Engine) (trace : GatewayTrace) : Prop :=
  ∀ kind id record, (kind, id, record) ∈ lookups trace → kind ≠ .key → record.status ≠ "active" →
    Effective engine trace (revokedDocument engine kind id record) record

/-- The synthetic revocation of a record passes only if it begins later. -/
theorem isClear_syntheticRevocation {engine : Engine} {record : LookupRecord} {target : String}
    {now : ℤ} (h : IsClear engine now (.ok (some (syntheticRevocation record target)))) :
    ∃ time, (nonEmpty record.issuedAt).bind (dateParse engine) = some time ∧ now < time := by
  obtain ⟨hvalid, hlater⟩ := h
  have hbad : ((syntheticRevocation record target).status != "good") = true := by
    rw [syntheticRevocation]
    split_ifs
    · rfl
    · rfl
  rw [isEffective, hbad, Bool.true_and] at hlater
  rw [effectiveDate, syntheticRevocation] at hvalid hlater
  rcases hissued : nonEmpty record.issuedAt with _ | s
  · rw [hissued] at hlater
    cases hlater
  · rw [hissued] at hvalid hlater
    rcases htime : dateParse engine s with _ | time
    · rw [parseDate, htime] at hvalid
      exact absurd rfl hvalid
    · rw [parseDate, htime] at hlater
      exact ⟨time, htime, not_le.mp (of_decide_eq_false hlater)⟩

/-- A verification under the resolver of a record that is not active passes only if the revocation
has no effect. -/
theorem active_of_effective {engine : Engine} {members : Record} {policy : VerificationPolicy}
    {t : TrustTrace} {trace whole : GatewayTrace} {result : VerificationResult}
    {record : LookupRecord} (hnow : policy.now = none)
    (hrun : Run (verifyDocument engine members policy) t (.ok result))
    (hverified : result.verified = true)
    (hanswered : AnsweredBy (.lifecycle (members.lookup "id") record) t trace)
    (hsub : trace ⊆ whole)
    (heffective : record.status ≠ "active" →
      Effective engine whole (members.lookup "id") record) : record.status = "active" := by
  by_contra hstatus
  obtain ⟨⟨target, hne, hid⟩, hclock⟩ := heffective hstatus
  obtain ⟨proof, key, now, path, haccepted, hasked⟩ :=
    verifyDocument_accepted_clock hrun hverified
  have hdocument : documentId members = target := by
    rw [documentId, stringMember, hid]
    rfl
  -- the identifier was asked for, and the resolver answered with the revocation of the record
  obtain ⟨answer, hanswer⟩ := haccepted.revocationAsked target
    (List.mem_cons_of_mem _ (by rw [hdocument]; exact List.mem_cons_self ..)) hne
  obtain ⟨x, -, hresolved⟩ := hanswered.answered hanswer (by simp)
  have hmatches : (strictEq (some (.str target)) (members.lookup "id")
      && record.status != "active") = true := by
    rw [hid, Bool.and_eq_true]
    exact ⟨by simp [strictEq], bne_iff_ne.mpr hstatus⟩
  rw [resolverCalls, if_pos hmatches] at hresolved
  obtain ⟨-, rfl⟩ := run_pure_iff.mp hresolved
  obtain ⟨time, htime, hlater⟩ :=
    isClear_syntheticRevocation (haccepted.revocationsClear _ _ hanswer)
  -- the time of the verification is one of the clock
  obtain ⟨y, hy, hread⟩ := hanswered.answered (hasked hnow) (by simp)
  obtain rfl := run_perform_iff.mp hread
  exact absurd (hclock now time (hsub (hy (List.mem_singleton_self _))) htime)
    (not_le.mpr hlater)

/-! ### Live documents -/

/-- What is looked up for a parent mandate. -/
def parentLookups (parent : Option (Conforming AgentMandate)) (record : Option LookupRecord) :
    List (LookupKind × Option Value × LookupRecord) :=
  match parent, record with
  | some parent, some record => [(.mandate, parent.members.lookup "id", record)]
  | _, _ => []

namespace Gateway

variable (g : Gateway)

/-- The records of an allowed request: the trace resolved these and no others, the mandates are
those presented, and the passport was verified and lists the key of the envelope as its record has
it. -/
structure Resolution (context : OatiMiddlewareContext) (trace : GatewayTrace)
    (mandate : LookupRecord) (parent : Option LookupRecord) (passport key : LookupRecord) :
    Prop where
  mandate_bound : RecordBound g.engine mandate (.obj context.mandate.members)
  parent_bound : Option.Rel (fun presented record =>
    RecordBound g.engine record (.obj presented.members)) context.parentMandate parent
  passport_lists : ∃ document method verified, HoldsDocument g.engine passport document ∧
    verified <:+: trace ∧ g.PassportVerified passport document verified ∧
    Listed document method
      (get (context.envelope.members.lookup "proof") "verification_method") ∧
    RuntimeKey g.engine key document method ∧
    lookups trace = (.mandate, context.mandate.members.lookup "id", mandate) ::
      (parentLookups context.parentMandate parent ++
        [(.passport, context.envelope.members.lookup "agent_id", passport),
          (.key, method.member "id", key)])

/-- The records of an allowed request, all of them active. The record of the key is active in
every resolution. -/
def Live (context : OatiMiddlewareContext) (trace : GatewayTrace) : Prop :=
  ∃ mandate parent passport key, g.Resolution context trace mandate parent passport key ∧
    mandate.status = "active" ∧ (∀ record ∈ parent, record.status = "active") ∧
    passport.status = "active"

variable {g} {request : HttpRequest}

/-- The policy for a document that was extracted. -/
def policyFor (g : Gateway) (values : ExtractedValues) :
    OatiDocumentKind → GatewayProg (VerificationPolicy × PolicyResolver)
  | .mandate => g.mandatePolicy values.mandate
  | .parentMandate => g.mandatePolicy values.parentMandate
  | .envelope => g.envelopePolicy values.envelope

/-- The policies of the gateway read the documents that the middleware verifies. -/
theorem verificationPolicy_eq {values : ExtractedValues}
    (hvalues : extractOatiHeaders g.engine request (some g.config.maxHeaderBytes) = .ok values)
    (kind : OatiDocumentKind) : g.verificationPolicy kind request = g.policyFor values kind := by
  rw [verificationPolicy, hvalues]
  cases kind <;> rfl

/-- A mandate that was verified in the gateway: its record, and that the record is active if it
takes effect. -/
theorem verified_mandate {kind : OatiDocumentKind} {members : Record}
    (hpolicy : g.verificationPolicy kind request = g.mandatePolicy (some (.obj members)))
    {trace : GatewayTrace} {result : VerificationResult}
    (h : g.Verified request kind reusableDocumentPolicy members trace result) :
    ∃ record, RecordBound g.engine record (.obj members) ∧
      lookups trace = [(.mandate, members.lookup "id", record)] ∧
      ∀ whole, trace ⊆ whole → (record.status ≠ "active" →
        Effective g.engine whole (members.lookup "id") record) → record.status = "active" := by
  obtain ⟨hverified, policy, resolver, t, u, w, rfl, hrun, hverify, hanswered⟩ := h
  rw [hpolicy] at hrun
  obtain ⟨record, rfl, rfl, rfl, hbound⟩ := mandatePolicy_run hrun
  refine ⟨record, hbound, ?_, fun whole hsub heffective => ?_⟩
  · rw [lookups_append, hanswered.lookups]
    rfl
  exact active_of_effective rfl hverify hverified hanswered
    (fun event hevent => hsub (List.mem_append_right _ hevent)) heffective

/-- The envelope that was verified in the gateway: the records of the passport and of its key, and
that the passport's is active if it takes effect. -/
theorem verified_envelope {values : ExtractedValues} {members : Record}
    (hvalues : extractOatiHeaders g.engine request (some g.config.maxHeaderBytes) = .ok values)
    (henvelope : values.envelope = some (.obj members)) {trace : GatewayTrace}
    {result : VerificationResult} (h : g.Verified request .envelope id members trace result) :
    ∃ passport document method key verified, HoldsDocument g.engine passport document ∧
      verified <:+: trace ∧ g.PassportVerified passport document verified ∧
      Listed document method (get (members.lookup "proof") "verification_method") ∧
      RuntimeKey g.engine key document method ∧
      lookups trace = [(.passport, members.lookup "agent_id", passport),
        (.key, method.member "id", key)] ∧
      ∀ whole, trace ⊆ whole → (passport.status ≠ "active" →
        Effective g.engine whole (document.member "id") passport) → passport.status = "active" := by
  obtain ⟨hverified, policy, resolver, t, u, w, rfl, hrun, hverify, hanswered⟩ := h
  rw [verificationPolicy_eq hvalues, policyFor, henvelope] at hrun
  obtain ⟨proof, key, now, path, haccepted⟩ := verifyDocument_accepted hverify hverified
  -- the key of the proof was resolved, so its resolver is not the one without it
  have hresolver : resolver ≠
      .unavailable (get (get (some (.obj members)) "proof") "verification_method") := by
    rintro rfl
    have hmethod : get (get (some (.obj members)) "proof") "verification_method"
        = some (.str proof.verificationMethod) := by
      rw [get_obj, haccepted.proof_eq, get_obj]
      exact bind_string?_eq_some.mp proof.wellFormed.method_eq
    obtain ⟨x, -, hx⟩ := hanswered.answered haccepted.resolved (by simp)
    rw [hmethod, resolverCalls, if_pos (by simp [strictEq])] at hx
    cases (run_pure_iff.mp hx).2
  obtain ⟨record, passport, method, runtime, verified, rfl, hholds, hpassport, hlisted, hruntime⟩ :=
    envelopePolicy_run hrun hresolver
  obtain ⟨result', hresult', hinterpret⟩ := hpassport
  obtain ⟨t', hrun', himplements⟩ := run_interpret_iff.mp hinterpret
  have hcalls : ∀ c, (∀ key expiresAt now, c ≠ .checkAndStore key expiresAt now) →
      passportCalls (.lifecycle (passport.member "id") record) c
        = resolverCalls (.lifecycle (passport.member "id") record) c := by
    intro c hc
    cases c with
    | checkAndStore key expiresAt now => exact absurd rfl (hc key expiresAt now)
    | _ => rfl
  have hlookups : lookups verified = [] :=
    lookups_of_avoids (Avoids.interpret
      (avoids_passportCalls fun _ => Bool.false_ne_true) _) hinterpret
  have hpassportAnswered :
      AnsweredBy (.lifecycle (passport.member "id") record) t' verified := by
    refine ⟨fun event hevent hc => ?_, hlookups⟩
    obtain ⟨x, hx, hcall⟩ := himplements.run_of_mem hevent
    rw [hcalls _ hc] at hcall
    exact ⟨x, hx, hcall⟩
  refine ⟨record, passport, method, runtime, verified, hholds, ?_, ⟨result', hresult', hinterpret⟩,
    hlisted, hruntime, ?_, fun whole hsub heffective => ?_⟩
  · exact ⟨[⟨.lookup .passport (members.lookup "agent_id"), .ok record⟩],
      [⟨.lookup .key (method.member "id"), .ok runtime⟩] ++ w, by simp⟩
  · rw [lookups_append, hanswered.lookups, List.append_nil, lookups_lookup, lookups_append, hlookups]
    rfl
  · have hmembers : passport.member "id" = (passport.members?.getD []).lookup "id" := by
      cases passport <;> rfl
    rw [hmembers] at hpassportAnswered heffective
    refine active_of_effective rfl hrun' hresult' hpassportAnswered (fun event hevent => ?_)
      heffective
    exact hsub (by simp [hevent])

/-- The parent mandate, if there is one, that was verified in the gateway. -/
theorem verified_parent {values : ExtractedValues} {extracted : ExtractedOatiRequest}
    (hvalues : extractOatiHeaders g.engine request (some g.config.maxHeaderBytes) = .ok values)
    (hconforming : conforming g.schemas values = .ok extracted) {trace : GatewayTrace}
    {result : Option VerificationResult}
    (h : g.ParentVerified request extracted.parentMandate trace result) :
    ∃ parent, Option.Rel (fun presented record =>
        RecordBound g.engine record (.obj presented.members)) extracted.parentMandate parent ∧
      lookups trace = parentLookups extracted.parentMandate parent ∧
      ∀ whole, trace ⊆ whole → TakesEffect g.engine whole →
        lookups trace ⊆ lookups whole → ∀ record ∈ parent, record.status = "active" := by
  have hparent := (conforming_eq_ok hconforming).2.2
  cases hpresented : extracted.parentMandate with
  | none =>
    rw [hpresented] at h
    obtain ⟨rfl, -⟩ := h
    exact ⟨none, .none, rfl, fun whole _ _ _ record hrecord => by cases hrecord⟩
  | some presented =>
    have hparent := hparent presented hpresented
    rw [hpresented] at h
    obtain ⟨r, -, hverified⟩ := h
    have hpolicy : g.verificationPolicy .parentMandate request
        = g.mandatePolicy (some (.obj presented.members)) := by
      rw [verificationPolicy_eq hvalues, policyFor, hparent]
    obtain ⟨record, hbound, hlookups, hactive⟩ := verified_mandate hpolicy hverified
    refine ⟨some record, .some hbound, hlookups, fun whole hsub heffect hincluded => ?_⟩
    rintro _ ⟨⟩
    have hmem : (.mandate, presented.members.lookup "id", record) ∈ lookups whole :=
      hincluded (by rw [hlookups]; exact List.mem_singleton_self _)
    exact hactive whole hsub fun hstatus => heffect _ _ _ hmem (by decide) hstatus

/-- The records of an allowed request; those of the mandates and of the passport are active if
they take effect. -/
theorem Decision.resolution {extracted : ExtractedOatiRequest} {correlationId : String}
    {v : Handling.Verifications} {evaluation : EvaluationResult}
    {trace before mandate parent envelope after : GatewayTrace}
    (hdecision : g.Decision request (g.handling request extracted correlationId) v evaluation trace
      before mandate parent envelope after) :
    ∃ m p q k, g.Resolution ((g.handling request extracted correlationId).context v evaluation)
        trace m p q k ∧
      (TakesEffect g.engine trace → m.status = "active" ∧ (∀ record ∈ p, record.status = "active") ∧
        q.status = "active") := by
  obtain ⟨values, hvalues, hconforming⟩ : ∃ values,
      extractOatiHeaders g.engine request (some g.config.maxHeaderBytes) = .ok values ∧
      conforming g.schemas values = .ok extracted := hdecision.extracted
  obtain ⟨hmandate, henvelope, -⟩ := conforming_eq_ok hconforming
  have hpolicy : g.verificationPolicy .mandate request
      = g.mandatePolicy (some (.obj extracted.mandate.members)) := by
    rw [verificationPolicy_eq hvalues, policyFor, hmandate]
  obtain ⟨m, hm, hmLookups, hmActive⟩ := verified_mandate hpolicy hdecision.mandate
  obtain ⟨p, hp, hpLookups, hpActive⟩ := verified_parent hvalues hconforming hdecision.parent
  obtain ⟨q, document, method, k, verified, hholds, hinfix, hpassport, hlisted, hruntime, hqLookups,
    hqActive⟩ := verified_envelope hvalues henvelope hdecision.envelope
  have hsub : mandate ⊆ trace ∧ parent ⊆ trace ∧ envelope ⊆ trace := by
    rw [hdecision.trace_eq]
    exact ⟨fun _ hx => by simp [hx], fun _ hx => by simp [hx], fun _ hx => by simp [hx]⟩
  have hlookups : lookups trace = (.mandate, extracted.mandate.members.lookup "id", m) ::
      (parentLookups extracted.parentMandate p ++
        [(.passport, extracted.envelope.members.lookup "agent_id", q),
          (.key, method.member "id", k)]) := by
    rw [hdecision.trace_eq, lookups_append, lookups_append, lookups_append, lookups_append,
      hdecision.before_eq, hdecision.after_eq, hmLookups, hpLookups, hqLookups, List.append_nil]
    rfl
  have hverified : verified <:+: trace := by
    refine hinfix.trans ?_
    rw [hdecision.trace_eq]
    exact ⟨before ++ (mandate ++ parent), after, by simp [List.append_assoc]⟩
  refine ⟨m, p, q, k, ⟨hm, hp, document, method, verified, hholds, hverified, hpassport, hlisted,
    hruntime, hlookups⟩, fun heffect => ⟨?_, ?_, ?_⟩⟩
  · have hmem : (.mandate, extracted.mandate.members.lookup "id", m) ∈ lookups trace := by
      rw [hlookups]
      exact List.mem_cons_self ..
    exact hmActive trace hsub.1 fun hstatus => heffect _ _ _ hmem (by decide) hstatus
  · refine hpActive trace hsub.2.1 heffect ?_
    rw [hpLookups, hlookups]
    exact fun _ hx => by simp [hx]
  · refine hqActive trace hsub.2.2 fun hstatus => ?_
    have hmem : (.passport, extracted.envelope.members.lookup "agent_id", q) ∈ lookups trace := by
      rw [hlookups]
      simp
    have heffective := heffect _ _ _ hmem (by decide) hstatus
    obtain ⟨-, text, htext, hparse⟩ := hholds
    have hdocument : parseAttribute g.engine q "signed_document" = .ok document := by
      rw [parseAttribute, htext]
      exact hparse
    have hrevoked : revokedDocument g.engine .passport
        (extracted.envelope.members.lookup "agent_id") q = document.member "id" := by
      simp only [revokedDocument, hdocument]
    rw [← hrevoked]
    exact heffective

/-- A request that the gateway allows is allowed on live documents exactly if every record that is
not active takes effect as a revocation: it has an identifier that is asked for, and does not begin
after the time of the clock. -/
theorem live_iff {application : IncomingMessage → GatewayProg (Option HttpResponse)}
    (hcreated : g.createApplication = .ok application) {message : IncomingMessage}
    {trace : GatewayTrace} {context : OatiMiddlewareContext}
    (hreach : Reaches (application message) trace (.allow context)) :
    g.Live context trace ↔ TakesEffect g.engine trace := by
  obtain ⟨headers, request, extracted, correlationId, v, evaluation, before, mandate, parent,
    envelope, after, -, -, hdecision, rfl⟩ := decision_of_allow hcreated hreach
  constructor
  · rintro ⟨m, p, q, k, hresolution, hm, hp, hq⟩ kind id record hmem hkind hstatus
    obtain ⟨document, method, verified, -, -, -, -, -, hlookups⟩ := hresolution.passport_lists
    rw [hlookups] at hmem
    rcases List.mem_cons.mp hmem with hmandate | hmem
    · cases hmandate
      exact absurd hm hstatus
    rcases List.mem_append.mp hmem with hparent | hmem
    · cases p with
      | none => simp [parentLookups] at hparent
      | some r =>
        cases hpresented : ((g.handling request extracted correlationId).context v
            evaluation).parentMandate with
        | none =>
          rw [hpresented] at hparent
          cases hparent
        | some presented =>
          rw [hpresented] at hparent
          cases List.mem_singleton.mp hparent
          exact absurd (hp _ rfl) hstatus
    · rcases List.mem_cons.mp hmem with hpassport | hkey
      · cases hpassport
        exact absurd hq hstatus
      · cases List.mem_singleton.mp hkey
        exact absurd rfl hkind
  · intro heffect
    obtain ⟨m, p, q, k, hresolution, hactive⟩ := hdecision.resolution
    exact ⟨m, p, q, k, hresolution, hactive heffect⟩

end Gateway

end Oati.TypeScript

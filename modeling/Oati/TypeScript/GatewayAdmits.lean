import Oati.Library.ProgEnv
import Oati.Library.Rounding
import Oati.TypeScript.LiveDocuments

/-!
# What the gateway lets through

The other direction: a request all of whose documents are in order, in an environment that answers
without conflict, gets to the handler. The verifications are assumed of `verifyDocument` itself,
under the policies of the gateway; what is to be shown is that the policies, the resolvers and the
middleware add no obstacle.

They add one. The policy of a mandate has the `maxProofAgeMs` of the configuration, which
`reusableDocumentPolicy` keeps, while a mandate is presented for as long as it is valid.

* `ensures_withAge`: a document that verifies without a limit on the age of its proof verifies under
  one that its age is within, and there the two verifications are the same program.
* `invokesWith_handleRequest`: the middleware gets to its handler if each of its stages passes.
* `Legitimate`: a request in order, in an environment.
* `allows_iff`: such a request is allowed whatever the environment answers exactly if the ages of
  its mandates are within the configured limit.
-/

namespace Oati.TypeScript

open Prog

/-! ### The age of a proof -/

/-- When the proof of a document was created. -/
def proofCreated (engine : Engine) (document : Record) : Option ℤ :=
  ((get (document.lookup "proof") "created").bind Json.string?).bind (dateParse engine)

/-- The time from the creation of the proof to `now` is within a limit, with the skew. -/
def AgeWithin (engine : Engine) (document : Record) (now : ℤ) (skew maxAge : ℚ) : Prop :=
  ∀ created, proofCreated engine document = some created →
    minus now created ≤ Double.round (maxAge + skew)

theorem proofCreated_eq {engine : Engine} {document : Record} {proof : OatiJwsProof}
    (h : document.lookup "proof" = some (.obj proof.members)) :
    proofCreated engine document = dateParse engine proof.created := by
  have hcreated : (proof.members.lookup "created").bind Json.string? = some proof.created :=
    proof.wellFormed.created_eq
  rw [proofCreated, h, get_obj, hcreated]
  rfl

/-- Two limits that the age is within check the times of a proof alike. -/
theorem checkProofTime_congr {engine : Engine} {document : Record} {proof : OatiJwsProof}
    {now : ℤ} {skew maxAge maxAge' : ℚ} {issues : Issues}
    (hproof : document.lookup "proof" = some (.obj proof.members))
    (h : AgeWithin engine document now skew maxAge)
    (h' : AgeWithin engine document now skew maxAge') :
    checkProofTime engine proof now skew maxAge issues
      = checkProofTime engine proof now skew maxAge' issues := by
  rw [checkProofTime, checkProofTime]
  split
  · next created expires hcreated hexpires =>
    have hage := h created ((proofCreated_eq hproof).trans hcreated)
    have hage' := h' created ((proofCreated_eq hproof).trans hcreated)
    rw [decide_eq_false (not_lt.mpr hage), decide_eq_false (not_lt.mpr hage')]
  · rfl

/-- A document that verifies under a larger limit on the age verifies under one that its age is
within. -/
theorem ensures_withAge {engine : Engine} {document : Record} {policy : VerificationPolicy}
    {env : ∀ c, Except JsError (TrustAnswer c) → Prop} {Φ : VerificationResult → Prop}
    {maxAge larger : ℚ} (hnow : policy.now = none) (hle : maxAge ≤ larger)
    (hage : ∀ now, env .clock (.ok now) → AgeWithin engine document now policy.skew maxAge)
    (h : Ensures env (verifyDocument engine document { policy with maxProofAgeMs := some larger })
      Φ) :
    Ensures env (verifyDocument engine document { policy with maxProofAgeMs := some maxAge })
      Φ := by
  intro trace r hrun hwithin
  refine h trace r ?_ hwithin
  cases hproof : parseProof (document.lookup "proof") with
  | error issue =>
    rw [verifyDocument, hproof] at hrun ⊢
    exact hrun
  | ok proof =>
    rw [verifyDocument, hproof] at hrun ⊢
    have hlookup := parseProof_eq_ok hproof
    -- the clock is read first, and from then on the two programs are the same
    have hclock : ∀ maxAge, currentTime { policy with maxProofAgeMs := some maxAge }
        = (perform TrustCall.clock : TrustProg ℤ) := by
      intro maxAge
      simp only [currentTime, hnow]
    simp only [verifyProof, hclock] at hrun ⊢
    rcases run_bind_iff.mp hrun with ⟨e, he, hr⟩ | ⟨now, t, u, rfl, ht, hu⟩
    · exact run_bind_iff.mpr (.inl ⟨e, he, hr⟩)
    · refine run_bind_iff.mpr (.inr ⟨now, t, u, rfl, ht, ?_⟩)
      obtain rfl := run_perform_iff.mp ht
      have hwithinAge := hage now (hwithin _ (List.mem_append_left _ (List.mem_singleton_self _)))
      have hwithinLarger : AgeWithin engine document now policy.skew larger := fun created hcreated =>
        (hwithinAge created hcreated).trans (Double.round_mono (by linarith))
      have hchecks : checkDocument engine document proof
            { policy with maxProofAgeMs := some larger } now
          = checkDocument engine document proof { policy with maxProofAgeMs := some maxAge } now := by
        have htimes : ∀ issues, checkProofTime engine proof now policy.skew larger issues
            = checkProofTime engine proof now policy.skew maxAge issues := fun _ =>
          checkProofTime_congr hlookup hwithinLarger hwithinAge
        exact congrArg (fun issues => (checkDocumentTime engine document now policy.skew
          issues).addIf (!(normalizeAudience proof.audience).contains policy.expectedAudience)
          .audienceMismatch ("proof is not addressed to " ++ policy.expectedAudience)) (htimes _)
      rw [hchecks]
      exact hu

/-! ### The stages of the middleware -/

section Stages

variable {D S : Type} {B : D → Type} {impl : S → ∀ c, Prog B JsError (MiddlewareAnswer c × S)}
  {env : ∀ d, Except JsError (B d) → Prop} {engine : Engine} {schemas : Schemas}
  {options : OatiMiddlewareOptions} {request : HttpRequest} {extracted : ExtractedOatiRequest}

/-- In the environment, every stage of the middleware lets the request pass, from any state. -/
structure StagesPass (impl : S → ∀ c, Prog B JsError (MiddlewareAnswer c × S))
    (env : ∀ d, Except JsError (B d) → Prop) (engine : Engine) (schemas : Schemas)
    (options : OatiMiddlewareOptions) (request : HttpRequest) (extracted : ExtractedOatiRequest) :
    Prop where
  correlation : ∀ s, EnsuresWith impl env s
    (correlation options (request.headers.get OATI_HTTP_HEADERS.correlationId))
    fun id _ => isCorrelationId id = true
  extraction : ∀ s, EnsuresWith impl env s (extractRequest engine schemas options request)
    fun e _ => e = extracted
  mandate : ∀ s, EnsuresWith impl env s
    (verifyReusable engine .mandate extracted.mandate.members) fun r _ => r.verified = true
  parent : ∀ s, ∀ p ∈ extracted.parentMandate, EnsuresWith impl env s
    (verifyReusable engine .parentMandate p.members) fun r _ => r.verified = true
  envelope : ∀ s, EnsuresWith impl env s (verifyEnvelope engine extracted.envelope.members)
    fun r _ => r.verified = true
  bound : ∀ s, EnsuresWith impl env s (httpRequestDigest engine request options.maxBodyBytes)
    fun digest _ => nonEmpty extracted.envelope.view.requestDigest = some digest
  authorized : ∀ s correlationId v, InvokesWith impl env (fun c => isNext c = true) s
    ((Handling.mk engine schemas options request extracted correlationId).authorize v)

namespace StagesPass

variable (hpass : StagesPass impl env engine schemas options request extracted)

include hpass

theorem bindRequest (s : S) (correlationId : String) (v : Handling.Verifications) :
    InvokesWith impl env (fun c => isNext c = true) s
      ((Handling.mk engine schemas options request extracted correlationId).bindRequest v) := by
  rw [Handling.bindRequest]
  split_ifs
  · refine (hpass.bound s).bind_invokes fun digest s' hdigest => ?_
    rw [if_neg (not_not.mpr hdigest)]
    exact hpass.authorized s' correlationId v
  · exact hpass.authorized s correlationId v

theorem checkEnvelope (s : S) (correlationId : String) (mandate : VerificationResult)
    (parentMandate : Option VerificationResult) :
    InvokesWith impl env (fun c => isNext c = true) s
      ((Handling.mk engine schemas options request extracted correlationId).checkEnvelope mandate
        parentMandate) := by
  refine (hpass.envelope s).bind_invokes fun result s' hverified => ?_
  rw [if_pos hverified]
  exact hpass.bindRequest s' correlationId _

theorem checkParent (s : S) (correlationId : String) (mandate : VerificationResult) :
    InvokesWith impl env (fun c => isNext c = true) s
      ((Handling.mk engine schemas options request extracted correlationId).checkParent
        mandate) := by
  rw [Handling.checkParent]
  split
  · exact hpass.checkEnvelope s correlationId mandate none
  · next parent hparent =>
    refine (hpass.parent s parent hparent).bind_invokes fun result s' hverified => ?_
    rw [if_pos hverified]
    exact hpass.checkEnvelope s' correlationId mandate (some result)

theorem handle (s : S) {correlationId : String} (hid : isCorrelationId correlationId = true) :
    InvokesWith impl env (fun c => isNext c = true) s
      (Handling.mk engine schemas options request extracted correlationId).handle := by
  have hne : correlationId ≠ "" := by
    rintro rfl
    cases hid
  rw [Handling.handle, if_neg hne]
  refine (hpass.mandate s).bind_invokes fun result s' hverified => ?_
  rw [if_pos hverified]
  exact hpass.checkParent s' correlationId result

/-- The middleware gets to its handler. -/
theorem handleRequest (s : S) : InvokesWith impl env (fun c => isNext c = true) s
    (handleRequest engine schemas options request) := by
  refine (hpass.correlation s).attempt.bind_invokes fun outcome s' houtcome => ?_
  obtain ⟨correlationId, rfl, hid⟩ := houtcome
  refine (hpass.extraction s').attempt.bind_invokes fun outcome s'' houtcome => ?_
  obtain ⟨_, rfl, rfl⟩ := houtcome
  exact (hpass.handle s'' hid).attempt.bind

end StagesPass

end Stages

/-! ### The calls of the middleware in the gateway -/

section Environment

variable (env : ∀ c, Except JsError (GatewayAnswer c) → Prop)

/-- What a resolver of the gateway may answer. -/
def resolverEnv (resolver : PolicyResolver) (c : TrustCall) (r : Except JsError (TrustAnswer c)) :
    Prop :=
  ∃ v, Run (resolverCalls resolver c) v r ∧ Within env v

/-- The same with a replay cache that accepts everything. -/
def reusableEnv (resolver : PolicyResolver) :
    ∀ c, Except JsError (TrustAnswer c) → Prop
  | .checkAndStore _ _ _, r => r = .ok true
  | c, r => resolverEnv env resolver c r

/-- What the environment answers a verification, but for the replay cache. -/
def trustEnv : ∀ c, Except JsError (TrustAnswer c) → Prop
  | .checkAndStore _ _ _, r => r = .ok true
  | c, r => env (.trust c) r

/-- What the middleware is answered when it asks for neither a policy nor a verification. -/
def routineEnv (g : Gateway) (body : List UInt8) :
    ∀ c, Except JsError (MiddlewareAnswer c) → Prop
  | .readBody, r => r = .ok body
  | .evaluationExtensions extracted, r => r = .ok (some (g.evaluationExtensions extracted))
  | .verificationPolicy _, _ | .trust _ _, _ | .next _, _ => True
  | c, r => env (.middleware c) r

variable {env} {g : Gateway} {request : HttpRequest} {body : List UInt8} {s : Resolvers}

/-- A call that the gateway passes on is answered by the environment. -/
theorem ensuresWith_middleware {c : MiddlewareCall} {Φ : MiddlewareAnswer c → Resolvers → Prop}
    (hanswer : g.answer request body s c
      = (perform (GatewayCall.middleware c) : GatewayProg (MiddlewareAnswer c)) >>= fun a =>
        pure (a, s))
    (h : ∀ r, env (.middleware c) r → ∃ a, r = .ok a ∧ Φ a s) :
    EnsuresWith (g.answer request body) env s (perform c) Φ := by
  refine ensuresWith_perform ?_
  rw [hanswer]
  have hperform : Ensures env (perform (GatewayCall.middleware c) : GatewayProg (MiddlewareAnswer c))
      fun a => Φ a s := ensures_perform h
  exact hperform.bind fun a ha => ensures_pure ha

/-- The routine stages of the middleware, in the gateway. -/
theorem ensuresWith_routine {α : Type} {p : MiddlewareProg α} {Φ : α → Prop} (hroutine : Routine p)
    (h : Ensures (routineEnv env g body) p Φ) :
    EnsuresWith (g.answer request body) env s p fun a _ => Φ a := by
  have hkeeps : EnsuresWith (g.answer request body) env s p fun a s' => Φ a ∧ s' = s := by
    refine h.ensuresWith hroutine fun c hc v o hrun hwithin => ?_
    have hpassed : ∀ {c} {v : GatewayTrace} {o : Except JsError (MiddlewareAnswer c × Resolvers)},
        Run ((perform (GatewayCall.middleware c) : GatewayProg (MiddlewareAnswer c)) >>= fun a =>
          pure (a, s)) v o → Within env v →
        (∀ a s', o = .ok (a, s') → s' = s) ∧ env (.middleware c) (o.map Prod.fst) := by
      intro c v o hrun hwithin
      rcases run_bind_iff.mp hrun with ⟨e, he, rfl⟩ | ⟨a, t, u, rfl, ht, hu⟩
      · obtain rfl := run_perform_iff.mp he
        exact ⟨fun a s' ha => (by cases ha), hwithin _ (List.mem_singleton_self _)⟩
      · obtain rfl := run_perform_iff.mp ht
        obtain ⟨rfl, rfl⟩ := run_pure_iff.mp hu
        exact ⟨fun a s' ha => (Prod.mk.inj (Except.ok.inj ha)).2.symm,
          hwithin _ (List.mem_append_left _ (List.mem_singleton_self _))⟩
    cases c with
    | readBody =>
      obtain ⟨-, rfl⟩ := run_pure_iff.mp hrun
      exact ⟨fun a s' ha => (Prod.mk.inj (Except.ok.inj ha)).2.symm, rfl⟩
    | evaluationExtensions extracted =>
      obtain ⟨-, rfl⟩ := run_pure_iff.mp hrun
      exact ⟨fun a s' ha => (Prod.mk.inj (Except.ok.inj ha)).2.symm, rfl⟩
    | generateCorrelationId => exact hpassed hrun hwithin
    | randomUUID => exact hpassed hrun hwithin
    | getRandomValues => exact hpassed hrun hwithin
    | extract => exact hpassed hrun hwithin
    | digest bytes => exact hpassed hrun hwithin
    | now => exact hpassed hrun hwithin
    | _ => cases hc
  intro t r u s' hrun himplements hwithin
  obtain ⟨a, ha, hΦ, -⟩ := hkeeps t r u s' hrun himplements hwithin
  exact ⟨a, ha, hΦ⟩

/-- The calls of a verification in the middleware are answered by the resolver of its policy. -/
theorem trust_answered {kind : OatiDocumentKind} {c : TrustCall} {v : GatewayTrace}
    {o : Except JsError (TrustAnswer c × Resolvers)}
    (hrun : Run (g.answer request body s (.trust kind c)) v o) (hwithin : Within env v) :
    (∀ a s', o = .ok (a, s') → s' = s) ∧ resolverEnv env (s kind) c (o.map Prod.fst) := by
  rcases run_bind_iff.mp hrun with ⟨e, he, rfl⟩ | ⟨a, t, u, rfl, ht, hu⟩
  · exact ⟨fun a s' ha => (by cases ha), v, he, hwithin⟩
  · obtain ⟨rfl, rfl⟩ := run_pure_iff.mp hu
    exact ⟨fun a s' ha => (Prod.mk.inj (Except.ok.inj ha)).2.symm, t, ht,
      (within_append.mp hwithin).1⟩

/-- The calls of one kind of verification. -/
def IsTrust (kind : OatiDocumentKind) (c : MiddlewareCall) : Prop := ∃ call, c = .trust kind call

theorem avoids_reusableCalls {kind : OatiDocumentKind} (c : TrustCall) :
    Avoids (fun c => ¬ IsTrust kind c) (reusableCalls kind c) := by
  have hperform : Avoids (fun c => ¬ IsTrust kind c)
      (perform (MiddlewareCall.trust kind c) : MiddlewareProg (TrustAnswer c)) :=
    avoids_perform fun hnot => hnot ⟨c, rfl⟩
  cases c with
  | checkAndStore => exact avoids_pure _
  | _ => exact hperform

/-- The environment of one kind of verification in the middleware. -/
def kindEnv (kind : OatiDocumentKind) (trust : ∀ c, Except JsError (TrustAnswer c) → Prop) :
    ∀ c, Except JsError (MiddlewareAnswer c) → Prop
  | .trust k c, r => k = kind → trust c r
  | _, _ => True

/-- A mandate passes if it is verified under the policy and the resolver the gateway makes. -/
theorem ensuresWith_verifyReusable {kind : OatiDocumentKind} {document : Record}
    (h : Ensures env (g.verificationPolicy kind request) fun o =>
      Ensures (reusableEnv env o.2) (verifyDocument g.engine document (reusableDocumentPolicy o.1))
        fun r => r.verified = true) :
    EnsuresWith (g.answer request body) env s (verifyReusable g.engine kind document)
      fun r _ => r.verified = true := by
  have hpolicy : EnsuresWith (g.answer request body) env s
      (perform (MiddlewareCall.verificationPolicy kind)) fun policy s' =>
        Ensures (reusableEnv env (s' kind))
          (verifyDocument g.engine document (reusableDocumentPolicy policy))
          fun r => r.verified = true := by
    refine ensuresWith_perform (Ensures.bind h fun o ho => ensures_pure ?_)
    simp only [Function.update_self]
    exact ho
  refine hpolicy.bind fun policy s' hverifies => ?_
  have hmiddleware : Ensures (kindEnv kind (resolverEnv env (s' kind)))
      ((verifyDocument g.engine document (reusableDocumentPolicy policy)).interpret
        (reusableCalls kind)) fun r => r.verified = true := by
    refine hverifies.interpret fun c v r hrun hwithin => ?_
    cases c with
    | checkAndStore =>
      obtain ⟨-, rfl⟩ := run_pure_iff.mp hrun
      rfl
    | _ =>
      obtain rfl := run_perform_iff.mp hrun
      exact hwithin _ (List.mem_singleton_self _) rfl
  intro t r u s'' hrun himplements hwithin
  obtain ⟨a, ha, hverified, -⟩ := hmiddleware.ensuresWith (K := IsTrust kind)
    (Avoids.interpret avoids_reusableCalls _) (by
      rintro c ⟨call, rfl⟩ v o hcall hwithin
      obtain ⟨hstate, hanswer⟩ := trust_answered hcall hwithin
      exact ⟨hstate, fun _ => hanswer⟩) t r u s'' hrun himplements hwithin
  exact ⟨a, ha, hverified⟩

/-- The envelope passes if it is verified under the policy and the resolver the gateway makes. -/
theorem ensuresWith_verifyEnvelope {document : Record}
    (h : Ensures env (g.verificationPolicy .envelope request) fun o =>
      Ensures (resolverEnv env o.2) (verifyDocument g.engine document o.1)
        fun r => r.verified = true) :
    EnsuresWith (g.answer request body) env s (verifyEnvelope g.engine document)
      fun r _ => r.verified = true := by
  have hpolicy : EnsuresWith (g.answer request body) env s
      (perform (MiddlewareCall.verificationPolicy .envelope)) fun policy s' =>
        Ensures (resolverEnv env (s' .envelope)) (verifyDocument g.engine document policy)
          fun r => r.verified = true := by
    refine ensuresWith_perform (Ensures.bind h fun o ho => ensures_pure ?_)
    simp only [Function.update_self]
    exact ho
  refine hpolicy.bind fun policy s' hverifies => ?_
  have hmiddleware : Ensures (kindEnv .envelope (resolverEnv env (s' .envelope)))
      ((verifyDocument g.engine document policy).interpret envelopeCalls)
      fun r => r.verified = true := by
    refine hverifies.interpret fun c v r hrun hwithin => ?_
    obtain rfl := run_perform_iff.mp hrun
    exact hwithin _ (List.mem_singleton_self _) rfl
  intro t r u s'' hrun himplements hwithin
  obtain ⟨a, ha, hverified, -⟩ := hmiddleware.ensuresWith (K := IsTrust .envelope)
    (Avoids.interpret (fun c => avoids_perform fun hnot => hnot ⟨c, rfl⟩) _) (by
      rintro c ⟨call, rfl⟩ v o hcall hwithin
      obtain ⟨hstate, hanswer⟩ := trust_answered hcall hwithin
      exact ⟨hstate, fun _ => hanswer⟩) t r u s'' hrun himplements hwithin
  exact ⟨a, ha, hverified⟩

/-! ### The policies of the gateway in an environment -/

/-- A record that is active and holds what is presented. -/
def ActiveBound (engine : Engine) (members : Record) (record : LookupRecord) : Prop :=
  record.status = "active" ∧ RecordBound engine record (.obj members)

theorem HoldsDocument.parseAttribute {engine : Engine} {record : LookupRecord} {signed : Value}
    (h : HoldsDocument engine record signed) :
    parseAttribute engine record "signed_document" = .ok signed := by
  obtain ⟨-, text, htext, hparse⟩ := h
  rw [TypeScript.parseAttribute, htext]
  exact hparse

theorem HoldsDocument.not_unverified {engine : Engine} {record : LookupRecord} {signed : Value}
    (h : HoldsDocument engine record signed) : ¬ (record.proofStatus ≠ "verified" ∨
      ((record.publicAttributes.lookup "signed_document").bind Json.string?).isNone = true) := by
  obtain ⟨hstatus, text, htext, -⟩ := h
  rw [hstatus, htext]
  simp [Json.string?]

theorem ensures_boundPublicDocument {id : Option Value} {members : Record}
    {Φ : LookupRecord → Prop} (h : ∀ r, env (.lookup .mandate id) r →
      ∃ record, r = .ok record ∧ RecordBound g.engine record (.obj members) ∧ Φ record) :
    Ensures env (g.boundPublicDocument .mandate id (some (.obj members))) Φ := by
  refine Ensures.bind (ensures_perform (Φ := fun record : LookupRecord =>
    RecordBound g.engine record (.obj members) ∧ Φ record) h) fun record hrecord => ?_
  obtain ⟨⟨signed, canonical, hholds, hsigned, hpresented⟩, hΦ⟩ := hrecord
  have htruthy : truthy (some (.obj members)) = true := rfl
  rw [if_neg hholds.not_unverified]
  refine Ensures.bind (ensures_ofExcept (Φ := (· = signed)) hholds.parseAttribute rfl) ?_
  rintro _ rfl
  rw [if_pos htruthy]
  refine Ensures.bind (ensures_ofExcept (Φ := (· = canonical)) hsigned rfl) ?_
  rintro _ rfl
  refine Ensures.bind (ensures_ofExcept (Φ := (· = _)) hpresented rfl) ?_
  rintro _ rfl
  rw [if_neg (not_not.mpr rfl)]
  exact ensures_pure hΦ

theorem ensures_mandatePolicy {members : Record} {Φ : LookupRecord → Prop}
    (h : ∀ r, env (.lookup .mandate (members.lookup "id")) r →
      ∃ record, r = .ok record ∧ RecordBound g.engine record (.obj members) ∧ Φ record) :
    Ensures env (g.mandatePolicy (some (.obj members))) fun o => ∃ record, Φ record ∧
      o = (g.basePolicy g.config.mandateAudience, .lifecycle (members.lookup "id") record) := by
  have htruthy : truthy (some (.obj members)) = true := rfl
  rw [Gateway.mandatePolicy, if_pos htruthy]
  exact (ensures_boundPublicDocument h).bind fun record hrecord =>
    ensures_pure ⟨record, hrecord, rfl⟩

/-- The resolver of an active record is the upstream one. -/
theorem resolverCalls_active {documentID : Option Value} {record : LookupRecord}
    (h : record.status = "active") (c : TrustCall) :
    resolverCalls (.lifecycle documentID record) c
      = (perform (GatewayCall.trust c) : GatewayProg (TrustAnswer c)) := by
  cases c with
  | resolveRevocation target =>
    have hactive : ¬ (strictEq (some (.str target)) documentID
        && record.status != "active") = true := by
      rw [h]
      simp
    rw [resolverCalls, if_neg hactive]
  | _ => rfl

theorem resolverEnv_perform {resolver : PolicyResolver} {c : TrustCall}
    {r : Except JsError (TrustAnswer c)} (hresolver : resolverCalls resolver c
      = (perform (GatewayCall.trust c) : GatewayProg (TrustAnswer c)))
    (h : resolverEnv env resolver c r) : env (.trust c) r := by
  obtain ⟨v, hrun, hwithin⟩ := h
  rw [hresolver] at hrun
  obtain rfl := run_perform_iff.mp hrun
  exact hwithin _ (List.mem_singleton_self _)

theorem trustEnv_of_active {documentID : Option Value} {record : LookupRecord}
    (hactive : record.status = "active") {c : TrustCall} {r : Except JsError (TrustAnswer c)}
    (h : reusableEnv env (.lifecycle documentID record) c r) : trustEnv env c r := by
  cases c with
  | checkAndStore => exact h
  | _ => exact resolverEnv_perform (resolverCalls_active hactive _) h

/-- The passport lists the key as its own, and the record of the key has it. -/
structure ListsKey (g : Gateway) (env : ∀ c, Except JsError (GatewayAnswer c) → Prop)
    (passport method : Value) (id : Option Value) : Prop where
  object : ∃ members, method = .obj members
  found : findMethod passport id = .ok (some method)
  controller : strictEq (method.member "controller") (passport.member "id") = true
  key : ∀ r, env (.lookup .key (method.member "id")) r →
    ∃ runtime, r = .ok runtime ∧ RuntimeKey g.engine runtime passport method

theorem runtimeMatches_of_runtimeKey {engine : Engine} {runtime : LookupRecord}
    {passport method : Value} (h : RuntimeKey engine runtime passport method) :
    runtimeMatches engine runtime passport (some method) = .ok true := by
  obtain ⟨jwk, listed, canonical, hjwk, hlisted, hcanonical, hcanonical'⟩ := h.key
  rw [runtimeMatches, if_pos ⟨h.active, h.verified, h.issuer, h.controller⟩]
  have hget : get (some method) "public_key_jwk" = some listed := hlisted
  refine bind_eq_ok.mpr ⟨jwk, hjwk, bind_eq_ok.mpr ⟨canonical, hcanonical, ?_⟩⟩
  rw [hget]
  exact bind_eq_ok.mpr ⟨canonical, hcanonical', by simp⟩

theorem ensures_runtimeResolver {passport method : Value} {id : Option Value}
    (h : ListsKey g env passport method id) :
    Ensures env (g.runtimeResolver passport true id) fun resolver => resolver = .upstream := by
  have htruthy : truthy (some method) = true := by
    obtain ⟨members, rfl⟩ := h.object
    rfl
  have hruntime : Ensures env (g.isRuntimeKey passport (some method)) fun b => b = true := by
    have hid : get (some method) "id" = method.member "id" := rfl
    rw [Gateway.isRuntimeKey, if_pos htruthy, hid]
    refine Ensures.bind (ensures_perform (Φ := fun runtime : LookupRecord =>
      RuntimeKey g.engine runtime passport method) h.key) fun runtime hkey => ?_
    exact ensures_ofExcept (runtimeMatches_of_runtimeKey hkey) rfl
  refine Ensures.bind (ensures_ofExcept (Φ := (· = some method)) h.found rfl) ?_
  rintro _ rfl
  refine hruntime.bind ?_
  rintro _ rfl
  have hcontroller : (true && strictEq (get (some method) "controller") (passport.member "id")
      && true) = true := by
    rw [Bool.true_and, Bool.and_true]
    exact h.controller
  rw [if_pos hcontroller]
  exact ensures_pure rfl

/-- The verification of a passport whose record is active, in its own replay cache. -/
theorem ensures_passport {passport : Value} {record : LookupRecord} {documentID : Option Value}
    (hactive : record.status = "active")
    (h : Ensures (trustEnv env)
      (verifyDocument g.engine (passport.members?.getD []) g.passportPolicy)
      fun r => r.verified = true) :
    Ensures env ((verifyDocument g.engine (passport.members?.getD []) g.passportPolicy).interpret
      (passportCalls (.lifecycle documentID record))) fun r => r.verified = true := by
  refine h.interpret fun c v r hrun hwithin => ?_
  cases c with
  | checkAndStore key expiresAt now =>
    obtain ⟨-, rfl⟩ := run_pure_iff.mp hrun
    rfl
  | _ => exact resolverEnv_perform (@resolverCalls_active documentID _ hactive _) ⟨v, hrun, hwithin⟩

theorem ensures_envelopePolicy {members : Record} {passport method : Value}
    (hobject : ∃ members, passport = .obj members)
    (hrecord : ∀ r, env (.lookup .passport (members.lookup "agent_id")) r →
      ∃ record, r = .ok record ∧ record.status = "active" ∧
        HoldsDocument g.engine record passport)
    (hpassport : Ensures (trustEnv env)
      (verifyDocument g.engine (passport.members?.getD []) g.passportPolicy)
      fun r => r.verified = true)
    (hkey : ListsKey g env passport method
      (get (members.lookup "proof") "verification_method")) :
    Ensures env (g.envelopePolicy (some (.obj members))) fun o =>
      o = (g.basePolicy g.config.expectedAudience, .upstream) := by
  obtain ⟨passportMembers, rfl⟩ := hobject
  have hagent : readMember (some (.obj members)) "agent_id" = .ok (members.lookup "agent_id") := rfl
  refine Ensures.bind (ensures_ofExcept (Φ := (· = members.lookup "agent_id")) hagent rfl) ?_
  rintro _ rfl
  have hbound : Ensures env (g.boundPublicDocument .passport (members.lookup "agent_id"))
      fun record => record.status = "active" ∧
        HoldsDocument g.engine record (.obj passportMembers) := by
    refine Ensures.bind (ensures_perform (Φ := fun record : LookupRecord =>
      record.status = "active" ∧ HoldsDocument g.engine record (.obj passportMembers)) hrecord)
      fun record hholds => ?_
    rw [if_neg hholds.2.not_unverified]
    refine Ensures.bind (ensures_ofExcept (Φ := (· = .obj passportMembers))
      hholds.2.parseAttribute rfl) ?_
    rintro _ rfl
    exact ensures_pure hholds
  refine hbound.bind fun record hholds => ?_
  refine Ensures.bind (ensures_ofExcept (Φ := (· = .obj passportMembers))
    hholds.2.parseAttribute rfl) ?_
  rintro _ rfl
  have hid : readMember (some (.obj passportMembers)) "id"
      = .ok (passportMembers.lookup "id") := rfl
  refine Ensures.bind (ensures_ofExcept (Φ := (· = passportMembers.lookup "id")) hid rfl) ?_
  rintro _ rfl
  refine (ensures_passport hholds.1 hpassport).bind fun result hverified => ?_
  have hresolver := ensures_runtimeResolver hkey
  rw [← hverified] at hresolver
  refine hresolver.bind ?_
  rintro _ rfl
  exact ensures_pure rfl

end Environment

/-! ### Requests in order -/

/-- The ranges that `configuration` accepts, and the values it requires. -/
structure GatewayConfig.Valid (config : GatewayConfig) : Prop where
  receiptIssuer : config.receiptIssuer.toList.all isTrimmed = false
  trustAnchors : config.trustAnchors ≠ []
  clockSkewMs : ∃ n : ℕ, config.clockSkewMs = n ∧ n ≤ 300000
  maxProofAgeMs : ∃ n : ℕ, config.maxProofAgeMs = n ∧ 1000 ≤ n ∧ n ≤ 900000
  maxTrustDepth : 1 ≤ config.maxTrustDepth ∧ config.maxTrustDepth ≤ 32
  maxHeaderBytes : ∃ n : ℕ, config.maxHeaderBytes = n ∧ 1024 ≤ n ∧ n ≤ 262144
  maxBodyBytes : ∃ n : ℕ, config.maxBodyBytes = n ∧ n ≤ 10485760

/-- A policy without a limit on the age of a proof. -/
def unlimited (policy : VerificationPolicy) : VerificationPolicy :=
  { policy with maxProofAgeMs := some Double.maxSafeInteger }

namespace Gateway

/-- The message is an encoded request, and its documents conform. -/
structure Encodes (g : Gateway) (message : IncomingMessage) (request : HttpRequest)
    (extracted : ExtractedOatiRequest) : Prop where
  url : startsWith message.url "/authorize/" = true
  made : ∃ headers, verificationHeaders [] message.headers = .ok headers ∧
    g.newRequest message.method (authorizedTarget message.url) headers = .ok request
  conforms : ∃ values,
    extractOatiHeaders g.engine request (some g.config.maxHeaderBytes) = .ok values ∧
    conforming g.schemas values = .ok extracted
  transaction : checkTransaction request extracted = .ok ()
  correlation : ∀ value, request.headers.get OATI_HTTP_HEADERS.correlationId = some value →
    isCorrelationId value = true

/-- A mandate is resolved as an active record, and verifies without a limit on the age of its
proof. -/
structure MandateInOrder (g : Gateway) (env : ∀ c, Except JsError (GatewayAnswer c) → Prop)
    (mandate : Record) : Prop where
  resolved : ∀ r, env (.lookup .mandate (mandate.lookup "id")) r →
    ∃ record, r = .ok record ∧ ActiveBound g.engine mandate record
  verifies : Ensures (trustEnv env)
    (verifyDocument g.engine mandate (unlimited (g.basePolicy g.config.mandateAudience)))
    fun r => r.verified = true

/-- The passport of an agent is resolved as an active record, and verifies without a limit on the
age of its proof; it lists the key. -/
def PassportInOrder (g : Gateway) (env : ∀ c, Except JsError (GatewayAnswer c) → Prop)
    (agentID keyID : Option Value) : Prop :=
  ∃ passport method : Value, (∃ members, passport = .obj members) ∧
    (∀ r, env (.lookup .passport agentID) r → ∃ record, r = .ok record ∧
      record.status = "active" ∧ HoldsDocument g.engine record passport) ∧
    Ensures (trustEnv env) (verifyDocument g.engine (passport.members?.getD [])
      (unlimited (g.basePolicy g.config.passportAudience))) (fun r => r.verified = true) ∧
    ListsKey g env passport method keyID

/-- The request is in order, and the environment answers it without conflict: the documents are
resolved and verify, the digest is that of the request, the evaluator allows it on every usage and
at every time it may be given, and the usage is stored. -/
structure Legitimate (g : Gateway) (env : ∀ c, Except JsError (GatewayAnswer c) → Prop)
    (message : IncomingMessage) (request : HttpRequest) (extracted : ExtractedOatiRequest) :
    Prop where
  config : g.config.Valid
  encodes : g.Encodes message request extracted
  answers : ∀ c, ∃ r, env c r
  body : ∀ r, env .requestBody r → ∃ body, r = .ok body ∧ body.length ≤ g.config.maxBodyBytes ∧
    Ensures (routineEnv env g (forwardedBody message body))
      (httpRequestDigest g.engine request (some g.config.maxBodyBytes))
      fun digest => nonEmpty extracted.envelope.view.requestDigest = some digest
  randomUUID : ∀ r, env (.middleware .randomUUID) r →
    ∃ uuid, r = .ok (some uuid) ∧ isCorrelationId uuid = true
  mandate : g.MandateInOrder env extracted.mandate.members
  parentMandate : ∀ p ∈ extracted.parentMandate, g.MandateInOrder env p.members
  passport : g.PassportInOrder env (extracted.envelope.members.lookup "agent_id")
    (get (extracted.envelope.members.lookup "proof") "verification_method")
  envelope : Ensures (fun c r => env (.trust c) r)
    (verifyDocument g.engine extracted.envelope.members (g.basePolicy g.config.expectedAudience))
    fun r => r.verified = true
  load : ∀ r, env (.middleware (.load extracted.mandate.view.id)) r → ∃ previous, r = .ok previous
  now : ∀ r, env (.middleware .now) r → ∃ time, r = .ok (some time)
  allowed : ∀ previous time, env (.middleware (.load extracted.mandate.view.id)) (.ok previous) →
    env (.middleware .now) (.ok (some time)) → ∀ correlationId, ∃ evaluation,
      (g.handling request extracted correlationId).Permitted evaluation
        (g.evaluationExtensions extracted) previous time
  stored : ∀ previous next r,
    env (.middleware (.compareAndSet extracted.mandate.view.id previous next)) r → r = .ok true

/-- The age of a mandate is within the limit of the configuration, whatever the clock shows. -/
def AgeAccepted (g : Gateway) (env : ∀ c, Except JsError (GatewayAnswer c) → Prop)
    (mandate : Record) : Prop :=
  ∀ now, env (.trust .clock) (.ok now) →
    AgeWithin g.engine mandate now g.config.clockSkewMs g.config.maxProofAgeMs

variable {g : Gateway} {env : ∀ c, Except JsError (GatewayAnswer c) → Prop}
  {message : IncomingMessage} {request : HttpRequest} {extracted : ExtractedOatiRequest}
  {body : List UInt8}

theorem maxProofAgeMs_le (h : g.config.Valid) : g.config.maxProofAgeMs ≤ Double.maxSafeInteger := by
  obtain ⟨n, hn, -, hle⟩ := h.maxProofAgeMs
  rw [hn]
  exact_mod_cast hle.trans (by decide)

/-- A mandate in order whose age is accepted passes the gateway. -/
theorem MandateInOrder.passes {kind : OatiDocumentKind} {mandate : Record} {s : Resolvers}
    (h : g.MandateInOrder env mandate) (hconfig : g.config.Valid)
    (hage : g.AgeAccepted env mandate)
    (hpolicy : g.verificationPolicy kind request = g.mandatePolicy (some (.obj mandate))) :
    EnsuresWith (g.answer request body) env s (verifyReusable g.engine kind mandate)
      fun r _ => r.verified = true := by
  have hverifies : Ensures (trustEnv env) (verifyDocument g.engine mandate
      (reusableDocumentPolicy (g.basePolicy g.config.mandateAudience)))
      fun r => r.verified = true :=
    ensures_withAge rfl (maxProofAgeMs_le hconfig) hage h.verifies
  refine ensuresWith_verifyReusable ?_
  rw [hpolicy]
  refine (ensures_mandatePolicy (Φ := fun record => record.status = "active") fun r hr => ?_).mono ?_
  · obtain ⟨record, hrecord, hactive, hbound⟩ := h.resolved r hr
    exact ⟨record, hrecord, hbound, hactive⟩
  · rintro _ ⟨record, hactive, rfl⟩
    exact hverifies.anti fun c r hr => trustEnv_of_active hactive hr

/-- The correlation of a request with a usable identifier, or with none. -/
theorem ensures_correlation
    (hheader : ∀ value, request.headers.get OATI_HTTP_HEADERS.correlationId = some value →
      isCorrelationId value = true)
    (huuid : ∀ r, env (.middleware .randomUUID) r →
      ∃ uuid, r = .ok (some uuid) ∧ isCorrelationId uuid = true) :
    Ensures (routineEnv env g body) (correlation g.middlewareOptions
      (request.headers.get OATI_HTTP_HEADERS.correlationId)) fun id => isCorrelationId id = true := by
  cases hvalue : request.headers.get OATI_HTTP_HEADERS.correlationId with
  | some value =>
    have hid := hheader value hvalue
    rw [correlation, if_pos hid]
    exact ensures_pure hid
  | none =>
    have hsafe : Ensures (routineEnv env g body) (generatedCorrelation g.middlewareOptions)
        fun id => isCorrelationId id = true := by
      refine Ensures.bind (ensures_perform (Φ := fun uuid : Option String =>
        ∃ text, uuid = some text ∧ isCorrelationId text = true) fun r hr => ?_) ?_
      · obtain ⟨uuid, rfl, hid⟩ := huuid r hr
        exact ⟨some uuid, rfl, uuid, rfl, hid⟩
      · rintro _ ⟨text, rfl, hid⟩
        exact ensures_pure hid
    refine hsafe.bind fun id hid => ?_
    rw [if_pos hid]
    exact ensures_pure hid

/-- The extraction of an encoded request. -/
theorem ensures_extractRequest (h : g.Encodes message request extracted) :
    Ensures (routineEnv env g body)
      (extractRequest g.engine g.schemas g.middlewareOptions request) fun e => e = extracted := by
  obtain ⟨values, hvalues, hconforming⟩ := h.conforms
  refine Ensures.bind (ensures_ofExcept (Φ := (· = values)) hvalues rfl) ?_
  rintro _ rfl
  refine Ensures.bind (ensures_ofExcept (Φ := (· = extracted)) hconforming rfl) ?_
  rintro _ rfl
  refine Ensures.bind (ensures_ofExcept (Φ := fun _ => True) h.transaction trivial) fun _ _ => ?_
  exact ensures_pure rfl

/-- From the verifications on, a legitimate request gets to the handler. -/
theorem Legitimate.authorized (h : g.Legitimate env message request extracted) {s : Resolvers}
    (correlationId : String) (v : Handling.Verifications) :
    InvokesWith (g.answer request body) env (fun c => isNext c = true) s
      ((g.handling request extracted correlationId).authorize v) := by
  have hsupplied : Ensures (routineEnv env g body)
      (g.handling request extracted correlationId).suppliedExtensions
      fun extensions => extensions = g.evaluationExtensions extracted := by
    refine Ensures.bind (ensures_perform (Φ := fun supplied : Option OatiEvaluationExtensions =>
      supplied = some (g.evaluationExtensions extracted)) fun r hr => ⟨_, hr, rfl⟩) ?_
    rintro _ rfl
    exact ensures_pure rfl
  refine (ensuresWith_routine Handling.routine_suppliedExtensions hsupplied).bind_invokes ?_
  rintro _ s₁ rfl
  have hload : EnsuresWith (g.answer request body) env s₁
      (g.handling request extracted correlationId).previousUsage fun previous _ =>
        env (.middleware (.load extracted.mandate.view.id)) (.ok previous) := by
    refine ensuresWith_middleware rfl fun r hr => ?_
    obtain ⟨previous, rfl⟩ := h.load r hr
    exact ⟨previous, rfl, hr⟩
  refine hload.bind_invokes fun previous s₂ hprevious => ?_
  have hstore : ¬ (!(g.handling request extracted correlationId).options.hasUsageStore &&
      requiresPersistentUsage
        (g.handling request extracted correlationId).extracted.mandate.view) = true :=
    Bool.false_ne_true
  rw [if_neg hstore]
  have hnow : EnsuresWith (g.answer request body) env s₂
      (perform MiddlewareCall.now) fun time _ =>
        ∃ t, time = some t ∧ env (.middleware .now) (.ok (some t)) := by
    refine ensuresWith_middleware rfl fun r hr => ?_
    obtain ⟨time, rfl⟩ := h.now r hr
    exact ⟨some time, rfl, time, rfl, hr⟩
  refine hnow.bind_invokes ?_
  rintro _ s₃ ⟨time, rfl, htime⟩
  obtain ⟨evaluation, hevaluation, hallow⟩ := h.allowed previous time hprevious htime correlationId
  refine EnsuresWith.bind_invokes
    (ensuresWith_ofExcept (Φ := fun text _ => text = isoText time) rfl rfl) ?_
  rintro _ s₄ rfl
  refine EnsuresWith.bind_invokes
    (ensuresWith_ofExcept (Φ := fun e _ => e = evaluation) hevaluation rfl) fun e s₅ he => ?_
  rw [he, if_neg (not_not.mpr hallow)]
  have hstores : EnsuresWith (g.answer request body) env s₅
      (perform (MiddlewareCall.compareAndSet extracted.mandate.view.id previous
        evaluation.nextUsage)) fun stored _ => stored = true := by
    refine ensuresWith_middleware rfl fun r hr => ?_
    exact ⟨true, h.stored previous evaluation.nextUsage r hr, rfl⟩
  refine hstores.bind_invokes ?_
  rintro _ s₆ rfl
  rw [if_pos rfl]
  have hnext : InvokesWith (g.answer request body) env (fun c => isNext c = true) s₆
      (perform (MiddlewareCall.next
        ((g.handling request extracted correlationId).context v evaluation))) :=
    invokesWith_perform rfl
  exact hnext.attempt.bind

/-- Every stage of the middleware lets a legitimate request pass, if the ages of its mandates are
accepted. -/
theorem Legitimate.stagesPass (h : g.Legitimate env message request extracted)
    (hmandate : g.AgeAccepted env extracted.mandate.members)
    (hparent : ∀ p ∈ extracted.parentMandate, g.AgeAccepted env p.members)
    (hdigest : Ensures (routineEnv env g body)
      (httpRequestDigest g.engine request (some g.config.maxBodyBytes))
      fun digest => nonEmpty extracted.envelope.view.requestDigest = some digest) :
    StagesPass (g.answer request body) env g.engine g.schemas g.middlewareOptions request
      extracted := by
  obtain ⟨values, hvalues, hconforming⟩ := h.encodes.conforms
  obtain ⟨hmandateValue, henvelopeValue, hparentValue⟩ := conforming_eq_ok hconforming
  refine ⟨fun s => ?_, fun s => ?_, fun s => ?_, fun s p hp => ?_, fun s => ?_, fun s => ?_,
    fun s correlationId v => h.authorized correlationId v⟩
  · exact ensuresWith_routine routine_correlation
      (ensures_correlation h.encodes.correlation h.randomUUID)
  · exact ensuresWith_routine routine_extractRequest (ensures_extractRequest h.encodes)
  · refine h.mandate.passes h.config hmandate ?_
    rw [verificationPolicy_eq hvalues, policyFor, hmandateValue]
  · refine (h.parentMandate p hp).passes h.config (hparent p hp) ?_
    rw [verificationPolicy_eq hvalues, policyFor, hparentValue p hp]
  · refine ensuresWith_verifyEnvelope ?_
    obtain ⟨passport, method, hobject, hrecord, hpassport, hkey⟩ := h.passport
    rw [verificationPolicy_eq hvalues, policyFor, henvelopeValue]
    refine (ensures_envelopePolicy hobject hrecord hpassport hkey).mono ?_
    rintro _ rfl
    exact h.envelope.anti fun c r hr => resolverEnv_perform rfl hr
  · exact ensuresWith_routine routine_httpRequestDigest hdigest

/-- The application gets to its handler if the stages of its middleware let the request pass. -/
theorem invokes_application {application : IncomingMessage → GatewayProg (Option HttpResponse)}
    (hcreated : g.createApplication = .ok application)
    (hencodes : g.Encodes message request extracted)
    (hbody : ∀ r, env .requestBody r → ∃ body, r = .ok body ∧
      body.length ≤ g.config.maxBodyBytes ∧
      StagesPass (g.answer request (forwardedBody message body)) env g.engine g.schemas
        g.middlewareOptions request extracted) :
    Invokes env (fun c => isAllow c = true) (application message) := by
  obtain ⟨middleware, hmiddleware, happlication⟩ := bind_eq_ok.mp hcreated
  rw [createOatiMiddleware] at hmiddleware
  split_ifs at hmiddleware
  obtain rfl := Except.ok.inj hmiddleware
  obtain rfl := Except.ok.inj happlication
  obtain ⟨headers, hheaders, hrequest⟩ := hencodes.made
  simp only
  rw [if_pos hencodes.url]
  refine Invokes.bind (Ensures.bind_invokes (Φ := fun outcome => ∃ body, outcome = .ok body ∧
    body.length ≤ g.config.maxBodyBytes ∧
    StagesPass (g.answer request (forwardedBody message body)) env g.engine g.schemas
      g.middlewareOptions request extracted) ?_ ?_)
  · intro trace r hrun hwithin
    obtain ⟨answer, rfl, rfl⟩ := run_attempt_perform_iff.mp hrun
    exact ⟨answer, rfl, hbody answer (hwithin _ (List.mem_singleton_self _))⟩
  · rintro _ ⟨body, rfl, hlength, hpass⟩
    simp only
    rw [if_neg (not_lt.mpr hlength)]
    refine Invokes.bind (Invokes.attempt ?_)
    refine Ensures.bind_invokes (ensures_ofExcept (Φ := (· = headers)) hheaders rfl) ?_
    rintro _ rfl
    refine Ensures.bind_invokes (ensures_ofExcept (Φ := (· = request)) hrequest rfl) ?_
    rintro _ rfl
    refine (hpass.handleRequest (fun _ => .upstream)).interpretWith fun s c hc => ?_
    cases c with
    | next context =>
      have hallow : Invokes env (fun c => isAllow c = true)
          (perform (GatewayCall.allow context) : GatewayProg Unit) := invokes_perform rfl
      exact hallow.bind
    | _ => cases hc

/-- An invocation of the handler in a run is reached. -/
theorem exists_reaches_allow {α : Type} {p : GatewayProg α} {trace : GatewayTrace}
    {r : Except JsError α} (hrun : Run p trace r)
    (h : ∃ event ∈ trace, isAllow event.call = true) :
    ∃ t context, t ⊆ trace ∧ Reaches p t (.allow context) := by
  obtain ⟨⟨c, answer⟩, hevent, hallow⟩ := h
  obtain ⟨t, u, rfl⟩ := List.append_of_mem hevent
  cases c with
  | allow context => exact ⟨t, context, List.subset_append_left _ _, hrun.reaches⟩
  | _ => cases hallow

/-- The age of a mandate that the gateway verified is within the limit, at a time of the clock. -/
theorem Verified.ageWithin {kind : OatiDocumentKind} {mandate : Record} {trace : GatewayTrace}
    {result : VerificationResult}
    (h : g.Verified request kind reusableDocumentPolicy mandate trace result)
    (hpolicy : g.verificationPolicy kind request = g.mandatePolicy (some (.obj mandate))) :
    ∃ now, Answered trace (.trust .clock) (.ok now) ∧
      AgeWithin g.engine mandate now g.config.clockSkewMs g.config.maxProofAgeMs := by
  obtain ⟨hverified, policy, resolver, t, u, w, rfl, hrun, hverify, hanswered⟩ := h
  rw [hpolicy] at hrun
  obtain ⟨record, -, rfl, rfl, -⟩ := mandatePolicy_run hrun
  obtain ⟨proof, key, now, path, haccepted, hclock⟩ :=
    verifyDocument_accepted_clock hverify hverified
  obtain ⟨x, hx, hread⟩ := hanswered.answered (hclock rfl) (by simp)
  obtain rfl := run_perform_iff.mp hread
  refine ⟨now, answered_append.mpr (.inr (hx (List.mem_singleton_self _))), ?_⟩
  intro created hcreated
  obtain ⟨created', expires, hcreated', -, -, -, -, hage⟩ := haccepted.proofTimely
  rw [proofCreated_eq haccepted.proof_eq, hcreated'] at hcreated
  obtain rfl := Option.some.inj hcreated
  exact hage

/-- A legitimate request is allowed whatever the environment answers, exactly if the ages of its
mandates are within the configured limit whatever the clock shows. -/
theorem allows_iff {application : IncomingMessage → GatewayProg (Option HttpResponse)}
    (hcreated : g.createApplication = .ok application)
    (h : g.Legitimate env message request extracted) :
    Invokes env (fun c => isAllow c = true) (application message) ↔
      g.AgeAccepted env extracted.mandate.members ∧
        ∀ p ∈ extracted.parentMandate, g.AgeAccepted env p.members := by
  constructor
  · intro hinvokes
    suffices hages : ∀ now, env (.trust .clock) (.ok now) →
        AgeWithin g.engine extracted.mandate.members now g.config.clockSkewMs
          g.config.maxProofAgeMs ∧
        ∀ p ∈ extracted.parentMandate,
          AgeWithin g.engine p.members now g.config.clockSkewMs g.config.maxProofAgeMs from
      ⟨fun now hnow => (hages now hnow).1, fun p hp now hnow => (hages now hnow).2 p hp⟩
    intro now hnow
    -- a run in which the clock stands still
    let still : ∀ c, Except JsError (GatewayAnswer c) → Prop := fun c r =>
      env c r ∧ ∀ time, ⟨c, r⟩ = (⟨.trust .clock, .ok time⟩ : Event GatewayAnswer JsError) →
        time = now
    have hanswers : ∀ c, ∃ r, still c r := by
      intro c
      by_cases hc : c = .trust .clock
      · subst hc
        refine ⟨.ok now, hnow, fun time htime => ?_⟩
        cases htime
        rfl
      · obtain ⟨r, hr⟩ := h.answers c
        exact ⟨r, hr, fun time htime => absurd (congrArg Event.call htime) hc⟩
    obtain ⟨trace, r, hrun, hwithin⟩ := exists_run hanswers (application message)
    obtain ⟨t, context, ht, hreach⟩ := exists_reaches_allow hrun
      (hinvokes trace r hrun fun event hevent => (hwithin event hevent).1)
    have hclock : ∀ time, Answered t (.trust .clock) (.ok time) → time = now :=
      fun time htime => (hwithin _ (ht htime)).2 time rfl
    obtain ⟨headers, request', extracted', correlationId, v, evaluation, before, mandate, parent,
      envelope, after, hheaders, hrequest, hdecision, -⟩ := decision_of_allow hcreated hreach
    -- the request and its documents are those of the message
    obtain ⟨headers', hheaders', hrequest'⟩ := h.encodes.made
    obtain rfl := Except.ok.inj (hheaders.symm.trans hheaders')
    obtain rfl : request = request' := Except.ok.inj (hrequest'.symm.trans hrequest)
    obtain ⟨values, hvalues, hconforming⟩ := h.encodes.conforms
    obtain ⟨values', hvalues', hconforming'⟩ := hdecision.extracted
    obtain rfl := Except.ok.inj (hvalues.symm.trans hvalues')
    obtain rfl : extracted = extracted' := Except.ok.inj (hconforming.symm.trans hconforming')
    obtain ⟨hmandateValue, -, hparentValue⟩ := conforming_eq_ok hconforming
    have hsub : mandate ⊆ t ∧ parent ⊆ t := by
      rw [hdecision.trace_eq]
      exact ⟨fun _ hx => by simp [hx], fun _ hx => by simp [hx]⟩
    constructor
    · obtain ⟨now', hread, hage⟩ := hdecision.mandate.ageWithin (by
        rw [verificationPolicy_eq hvalues, policyFor, hmandateValue]
        rfl)
      rwa [hclock now' (hread.mono hsub.1)] at hage
    · intro p hp
      have hverified : g.ParentVerified request extracted.parentMandate parent v.parentMandate :=
        hdecision.parent
      rw [Option.mem_def.mp hp] at hverified
      obtain ⟨result, -, hverified⟩ := hverified
      obtain ⟨now', hread, hage⟩ := hverified.ageWithin (by
        rw [verificationPolicy_eq hvalues, policyFor, hparentValue p hp])
      rwa [hclock now' (hread.mono hsub.2)] at hage
  · rintro ⟨hmandate, hparent⟩
    refine invokes_application hcreated h.encodes fun r hr => ?_
    obtain ⟨body, rfl, hlength, hdigest⟩ := h.body r hr
    exact ⟨body, rfl, hlength, h.stagesPass hmandate hparent hdigest⟩

end Gateway

end Oati.TypeScript

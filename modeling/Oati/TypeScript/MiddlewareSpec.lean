import Oati.TypeScript.CryptoSpec
import Oati.TypeScript.Middleware

/-!
# What the middleware lets through

The middleware as a gate before the handler, for every behaviour of its dependencies.

* `isCommit`: the three calls by which a request takes effect, the load of its usage, the
  compare-and-set and the handler; everything else of the middleware avoids them.
* `isEffect`: those calls and the emission of a receipt; only the receipts themselves and the
  stages from the usage on make one.
* `Gate`: what the trace of the earlier calls establishes when the handler is invoked.
* `middleware_fails_closed`: the handler is invoked at most once and only behind the gate, and
  every response without it has a status of an error.
-/

namespace Oati.TypeScript

open Prog

/-- A trace of the calls of the middleware and their answers. -/
abbrev MiddlewareTrace := List (Event MiddlewareAnswer JsError)

def isLoad : MiddlewareCall → Bool
  | .load _ => true
  | _ => false

def isCompareAndSet : MiddlewareCall → Bool
  | .compareAndSet _ _ _ => true
  | _ => false

def isNext : MiddlewareCall → Bool
  | .next _ => true
  | _ => false

/-- The calls by which a request takes effect. -/
def isCommit (c : MiddlewareCall) : Bool := isLoad c || isCompareAndSet c || isNext c

/-- No execution of the program makes a call by which a request takes effect. -/
abbrev NoCommit {α : Type} (p : MiddlewareProg α) : Prop := Avoids (fun c => isCommit c = true) p

theorem NoCommit.next {α : Type} {p : MiddlewareProg α} (h : NoCommit p) :
    Avoids (fun c => isNext c = true) p :=
  h.mono fun c hc => by simp [isCommit, hc]

def isEmit : MiddlewareCall → Bool
  | .emitReceipt _ _ => true
  | _ => false

/-- The calls that others can see: a request takes effect, or a receipt is emitted. -/
def isEffect (c : MiddlewareCall) : Bool := isCommit c || isEmit c

/-- No execution of the program makes a call that others can see. -/
abbrev Quiet {α : Type} (p : MiddlewareProg α) : Prop := Avoids (fun c => isEffect c = true) p

theorem Quiet.noCommit {α : Type} {p : MiddlewareProg α} (h : Quiet p) : NoCommit p :=
  h.mono fun c hc => by simp [isEffect, hc]

theorem Quiet.emit {α : Type} {p : MiddlewareProg α} (h : Quiet p) :
    Avoids (fun c => isEmit c = true) p :=
  h.mono fun c hc => by simp [isEffect, hc]

/-- The calls of the stages that neither verify a document nor take effect. -/
def isRoutine : MiddlewareCall → Bool
  | .generateCorrelationId | .randomUUID | .getRandomValues | .extract | .readBody | .digest _
  | .evaluationExtensions _ | .now => true
  | _ => false

/-- No execution of the program makes any other call. -/
abbrev Routine {α : Type} (p : MiddlewareProg α) : Prop := Avoids (fun c => ¬ isRoutine c = true) p

theorem Routine.quiet {α : Type} {p : MiddlewareProg α} (h : Routine p) : Quiet p := by
  refine h.mono fun c hc => ?_
  cases c <;> first | exact Bool.false_ne_true | cases hc

/-- A commitment of a sequence whose first part makes none is one of its second part. -/
theorem reaches_of_noCommit {α β : Type} {p : MiddlewareProg α} {f : α → MiddlewareProg β}
    {c : MiddlewareCall} {trace : MiddlewareTrace} (hp : NoCommit p) (hc : isCommit c = true)
    (h : Reaches (p >>= f) trace c) :
    ∃ a t u, trace = t ++ u ∧ Run p t (.ok a) ∧ Reaches (f a) u c :=
  (Avoids.reaches_bind (P := fun c => isCommit c = true) hp hc).mp h

/-! ### Everything but the commitment -/

theorem noCommit_perform {c : MiddlewareCall} (h : isCommit c = false) :
    NoCommit (perform c : MiddlewareProg (MiddlewareAnswer c)) :=
  avoids_perform (by simp [h])

theorem quiet_perform {c : MiddlewareCall} (h : isEffect c = false) :
    Quiet (perform c : MiddlewareProg (MiddlewareAnswer c)) :=
  avoids_perform (by simp [h])

theorem routine_perform {c : MiddlewareCall} (h : isRoutine c = true) :
    Routine (perform c : MiddlewareProg (MiddlewareAnswer c)) :=
  avoids_perform (by simp [h])

theorem routine_safeUuid : Routine safeUuid := by
  refine (routine_perform rfl).bind fun uuid => ?_
  rcases uuid with _ | uuid
  · refine (routine_perform rfl).bind fun bytes => ?_
    rcases bytes with _ | bytes
    · exact avoids_throw _
    · exact avoids_pure _
  · exact avoids_pure _

theorem routine_correlation {options : OatiMiddlewareOptions} {value : Option String} :
    Routine (correlation options value) := by
  rcases value with _ | value
  · refine Avoids.bind ?_ fun generated => Avoids.ite (avoids_pure _) (avoids_throw _)
    refine Avoids.ite ((routine_perform rfl).bind fun generated => ?_) routine_safeUuid
    rcases generated with _ | generated
    · exact routine_safeUuid
    · exact avoids_pure _
  · exact Avoids.ite (avoids_pure _) (avoids_throw _)

theorem routine_extractValues {engine : Engine} {options : OatiMiddlewareOptions}
    {request : HttpRequest} : Routine (extractValues engine options request) := by
  rw [extractValues]
  exact Avoids.ite (routine_perform (c := .extract) rfl) (avoids_ofExcept _)

theorem routine_extractRequest {engine : Engine} {schemas : Schemas}
    {options : OatiMiddlewareOptions} {request : HttpRequest} :
    Routine (extractRequest engine schemas options request) :=
  routine_extractValues.bind fun _ => (avoids_ofExcept _).bind fun _ =>
    (avoids_ofExcept _).bind fun _ => avoids_pure _

theorem quiet_correlation {options : OatiMiddlewareOptions} {value : Option String} :
    Quiet (correlation options value) :=
  routine_correlation.quiet

theorem quiet_extractRequest {engine : Engine} {schemas : Schemas}
    {options : OatiMiddlewareOptions} {request : HttpRequest} :
    Quiet (extractRequest engine schemas options request) :=
  routine_extractRequest.quiet

theorem quiet_receiptId {options : OatiMiddlewareOptions} {transactionId : String} :
    Quiet (receiptId options transactionId) := by
  have hgenerated : Quiet (generatedReceiptId options transactionId) := by
    rw [generatedReceiptId]
    exact Avoids.ite (quiet_perform (c := .generateReceiptId _) rfl) (avoids_pure _)
  refine hgenerated.bind fun generated => ?_
  rcases generated with _ | id
  · exact routine_safeUuid.quiet.bind fun _ => avoids_pure _
  · exact avoids_pure _

theorem noCommit_issueReceipt {engine : Engine} {schemas : Schemas}
    {options : OatiMiddlewareOptions} {context : OatiMiddlewareContext} {outcome : ReceiptOutcome}
    {time : Option ℤ} : NoCommit (issueReceipt engine schemas options context outcome time) := by
  refine quiet_receiptId.noCommit.bind fun _ => (avoids_ofExcept _).bind fun _ =>
    (noCommit_perform rfl).bind fun _ => (avoids_ofExcept _).bind fun _ =>
      (avoids_ofExcept _).bind fun _ => ?_
  exact Avoids.bind (Avoids.ite (noCommit_perform rfl) (avoids_pure _)) fun _ => avoids_pure _

theorem noCommit_receiptResponse {engine : Engine} {schemas : Schemas}
    {options : OatiMiddlewareOptions} {context : OatiMiddlewareContext} {outcome : ReceiptOutcome}
    {status : ℕ} {time : Option ℤ} {code : OatiErrorCode} :
    NoCommit (receiptResponse engine schemas options context outcome status time code) :=
  noCommit_issueReceipt.bind fun _ => (avoids_ofExcept _).bind fun _ => avoids_ofExcept _

theorem routine_httpRequestDigest {engine : Engine} {request : HttpRequest}
    {maxBodyBytes : Option ℚ} : Routine (httpRequestDigest engine request maxBodyBytes) :=
  (avoids_ofExcept _).bind fun _ => (routine_perform rfl).bind fun _ =>
    (avoids_ofExcept _).bind fun _ => (routine_perform rfl).bind fun _ =>
      (avoids_ofExcept _).bind fun _ => (routine_perform rfl).bind fun _ => avoids_pure _

theorem quiet_httpRequestDigest {engine : Engine} {request : HttpRequest}
    {maxBodyBytes : Option ℚ} : Quiet (httpRequestDigest engine request maxBodyBytes) :=
  routine_httpRequestDigest.quiet

theorem quiet_reusableCalls {kind : OatiDocumentKind} (c : TrustCall) :
    Quiet (reusableCalls kind c) := by
  cases c with
  | checkAndStore => exact avoids_pure _
  | _ => exact quiet_perform rfl

theorem quiet_verifyReusable {engine : Engine} {kind : OatiDocumentKind} {document : Record} :
    Quiet (verifyReusable engine kind document) :=
  (quiet_perform rfl).bind fun _ => Avoids.interpret quiet_reusableCalls _

theorem quiet_verifyEnvelope {engine : Engine} {document : Record} :
    Quiet (verifyEnvelope engine document) :=
  (quiet_perform rfl).bind fun _ => Avoids.interpret (fun _ => quiet_perform rfl) _

namespace Handling

variable {h : Handling}

theorem noCommit_refuse {context : OatiMiddlewareContext} {outcome : ReceiptOutcome} {status : ℕ}
    {code : OatiErrorCode} : NoCommit (h.refuse context outcome status code) :=
  (noCommit_perform rfl).bind fun _ => noCommit_receiptResponse

theorem noCommit_denyVerification {verification : VerificationResult} {kind : OatiDocumentKind}
    {knownMandate knownParent : Option VerificationResult} :
    NoCommit (h.denyVerification verification kind knownMandate knownParent) := by
  refine (noCommit_perform rfl).bind fun _ => noCommit_receiptResponse.attempt.bind fun response => ?_
  rcases response with e | response
  · exact avoids_ofExcept _
  · exact avoids_pure _

theorem routine_suppliedExtensions : Routine h.suppliedExtensions :=
  Avoids.ite ((routine_perform rfl).bind fun _ => avoids_pure _) (avoids_pure _)

theorem quiet_suppliedExtensions : Quiet h.suppliedExtensions := routine_suppliedExtensions.quiet

end Handling

/-! ### Statuses -/

/-- Whenever the program returns a response without an invocation of the handler, its status is
that of an error. -/
abbrev Closed (p : MiddlewareProg HttpResponse) : Prop :=
  Unless (fun c => isNext c = true) (fun response => 400 ≤ response.status) p

theorem status_of_problem {engine : Engine} {error : JsError} {status : ℕ} {title : String}
    {correlationId transactionId : Option String} {response : HttpResponse}
    (h : problem engine error status title correlationId transactionId = .ok response) :
    response.status = status := by
  obtain ⟨headers, -, h⟩ := bind_eq_ok.mp h
  obtain ⟨headers', -, h⟩ := bind_eq_ok.mp h
  rw [newResponse_eq_ok h]

theorem closed_problem {engine : Engine} {error : JsError} {status : ℕ} {title : String}
    {correlationId transactionId : Option String} (hstatus : 400 ≤ status) :
    Closed (ofExcept (problem engine error status title correlationId transactionId)) :=
  unless_ofExcept fun response h => by rw [status_of_problem h]; exact hstatus

theorem status_of_attachReceipt {engine : Engine} {response attached : HttpResponse}
    {receipt : ActionReceipt} {context : OatiMiddlewareContext}
    (h : attachReceipt engine response receipt context = .ok attached) :
    attached.status = response.status := by
  obtain ⟨h₁, -, h⟩ := bind_eq_ok.mp h
  obtain ⟨h₂, -, h⟩ := bind_eq_ok.mp h
  obtain ⟨encoded, -, h⟩ := bind_eq_ok.mp h
  obtain ⟨h₃, -, h⟩ := bind_eq_ok.mp h
  obtain ⟨h₄, -, h⟩ := bind_eq_ok.mp h
  rw [newResponse_eq_ok h]

theorem closed_receiptResponse {engine : Engine} {schemas : Schemas}
    {options : OatiMiddlewareOptions} {context : OatiMiddlewareContext} {outcome : ReceiptOutcome}
    {status : ℕ} {time : Option ℤ} {code : OatiErrorCode} (hstatus : 400 ≤ status) :
    Closed (receiptResponse engine schemas options context outcome status time code) := by
  refine unless_bind fun receipt => ?_
  intro trace attached hrun
  obtain ⟨response, t, u, rfl, ht, hu⟩ := run_bind_ok_iff.mp hrun
  obtain ⟨-, hmade⟩ := run_ofExcept_iff.mp ht
  obtain ⟨-, hattached⟩ := run_ofExcept_iff.mp hu
  have hclosed : 400 ≤ attached.status := by
    rw [status_of_attachReceipt hattached.symm, newResponse_eq_ok hmade.symm]
    exact hstatus
  exact .inr hclosed

theorem closed_invalidRequest {engine : Engine} {error : JsError} {correlationId : Option String} :
    Closed (ofExcept (invalidRequest engine error correlationId)) := by
  rw [invalidRequest]
  split_ifs
  · exact closed_problem (by decide)
  · exact closed_problem (by decide)

namespace Handling

variable {h : Handling}

theorem closed_refuse {context : OatiMiddlewareContext} {outcome : ReceiptOutcome} {status : ℕ}
    {code : OatiErrorCode} (hstatus : 400 ≤ status) :
    Closed (h.refuse context outcome status code) :=
  unless_bind fun _ => closed_receiptResponse hstatus

theorem closed_denyVerification {verification : VerificationResult} {kind : OatiDocumentKind}
    {knownMandate knownParent : Option VerificationResult} :
    Closed (h.denyVerification verification kind knownMandate knownParent) :=
  unless_bind fun _ => (closed_receiptResponse (by decide)).attempt_bind
    (fun _ hstatus => unless_pure hstatus) fun _ => closed_problem (by decide)

theorem closed_invoke {context : OatiMiddlewareContext} : Closed (h.invoke context) :=
  unless_bind_attempt_perform rfl

theorem closed_commit {context : OatiMiddlewareContext} {previous : LoadedUsage} :
    Closed (h.commit context previous) :=
  Unless.ite (unless_bind fun _ => Unless.ite closed_invoke (closed_refuse (by decide)))
    closed_invoke

theorem closed_evaluate {v : Verifications} {extensions : OatiEvaluationExtensions}
    {previous : LoadedUsage} : Closed (h.evaluate v extensions previous) :=
  unless_bind fun _ => unless_bind fun _ => unless_bind fun _ =>
    Unless.ite (closed_refuse (by decide)) closed_commit

theorem closed_authorize {v : Verifications} : Closed (h.authorize v) :=
  unless_bind fun _ => unless_bind fun _ =>
    Unless.ite (closed_refuse (by decide)) closed_evaluate

theorem closed_bindRequest {v : Verifications} : Closed (h.bindRequest v) :=
  Unless.ite (unless_bind fun _ => Unless.ite (closed_refuse (by decide)) closed_authorize)
    closed_authorize

theorem closed_checkEnvelope {mandate : VerificationResult}
    {parentMandate : Option VerificationResult} : Closed (h.checkEnvelope mandate parentMandate) :=
  unless_bind fun _ => Unless.ite closed_bindRequest closed_denyVerification

theorem closed_checkParent {mandate : VerificationResult} : Closed (h.checkParent mandate) := by
  rw [checkParent]
  split
  · exact closed_checkEnvelope
  · exact unless_bind fun _ => Unless.ite closed_checkEnvelope closed_denyVerification

theorem closed_handle : Closed h.handle :=
  Unless.ite (unless_throw _) (unless_bind fun _ =>
    Unless.ite closed_checkParent closed_denyVerification)

theorem closed_fail {error : JsError} : Closed (ofExcept (h.fail error)) := by
  refine closed_problem ?_
  split_ifs
  · decide
  · decide

end Handling

theorem closed_handleExtracted {h : Handling} : Closed (handleExtracted h) :=
  h.closed_handle.attempt_bind (fun _ hstatus => unless_pure hstatus) fun _ => h.closed_fail

theorem closed_handleRequest {engine : Engine} {schemas : Schemas}
    {options : OatiMiddlewareOptions} {request : HttpRequest} :
    Closed (handleRequest engine schemas options request) := by
  refine unless_bind fun correlationId => ?_
  rcases correlationId with e | correlationId
  · exact closed_invalidRequest
  · refine unless_bind fun extracted => ?_
    rcases extracted with e | extracted
    · exact closed_invalidRequest
    · exact closed_handleExtracted

/-! ### The gate -/

namespace Handling

variable (h : Handling)

/-- The trace is that of a verification with a policy for the kind, which ended verified. A reused
document is verified with `reusableDocumentPolicy`. -/
def ReusableVerified (kind : OatiDocumentKind) (document : Record) (trace : MiddlewareTrace)
    (result : VerificationResult) : Prop :=
  result.verified = true ∧ ∃ policy t u,
    trace = ⟨.verificationPolicy kind, .ok policy⟩ :: u ∧
    Run (verifyDocument h.engine document (reusableDocumentPolicy policy)) t (.ok result) ∧
    Implements (reusableCalls kind) t u

/-- The parent mandate, if one was extracted, was verified. -/
def ParentVerified (trace : MiddlewareTrace) (result : Option VerificationResult) : Prop :=
  match h.extracted.parentMandate with
  | none => trace = [] ∧ result = none
  | some parent => ∃ r, result = some r ∧
      h.ReusableVerified .parentMandate parent.members trace r

/-- The trace is that of a verification of the envelope, which ended verified; in it the replay
cache accepted the key of its proof. -/
def EnvelopeVerified (trace : MiddlewareTrace) (result : VerificationResult) : Prop :=
  result.verified = true ∧ ∃ policy t u,
    trace = ⟨.verificationPolicy .envelope, .ok policy⟩ :: u ∧
    Run (verifyDocument h.engine h.extracted.envelope.members policy) t (.ok result) ∧
    Implements envelopeCalls t u ∧
    ∃ proof now, h.extracted.envelope.members.lookup "proof" = some (.obj proof.members) ∧
      Answered u (.trust .envelope (.checkAndStore (replayKey proof policy)
        (dateParse h.engine proof.expires) now)) (.ok true)

/-- The request digest of the envelope is that of the request, unless it is not required. -/
def RequestBound (trace : MiddlewareTrace) : Prop :=
  if h.options.requireRequestDigest ≠ some false then
    ∃ digest, nonEmpty h.extracted.envelope.view.requestDigest = some digest ∧
      Run (httpRequestDigest h.engine h.request h.options.maxBodyBytes) trace (.ok digest)
  else trace = []

/-- The calls before the usage is read, in their order: the correlation, the extraction, the
verifications and the digest, each with the outcome that lets the request pass. -/
def Admitted (v : Verifications) (trace : MiddlewareTrace) : Prop :=
  ∃ correlated extracted mandate parent envelope digest,
    trace = correlated ++ (extracted ++ (mandate ++ (parent ++ (envelope ++ digest)))) ∧
    Run (correlation h.options (h.request.headers.get OATI_HTTP_HEADERS.correlationId)) correlated
      (.ok h.correlationId) ∧
    Run (extractRequest h.engine h.schemas h.options h.request) extracted (.ok h.extracted) ∧
    h.ReusableVerified .mandate h.extracted.mandate.members mandate v.mandate ∧
    h.ParentVerified parent v.parentMandate ∧ h.EnvelopeVerified envelope v.envelope ∧
    h.RequestBound digest

/-- The evaluator allowed the request on the usage `previous`. -/
def Permitted (evaluation : EvaluationResult) (extensions : OatiEvaluationExtensions)
    (previous : LoadedUsage) (time : ℤ) : Prop :=
  evaluateAuthority h.engine (h.evaluationRequest (compactExtensions extensions) previous.snapshot
    (isoText time)) = .ok evaluation ∧ evaluation.decision = .allow

/-- The next usage was stored over the previous one; without a store there is none to keep. -/
def Stored (evaluation : EvaluationResult) (previous : LoadedUsage) (trace : MiddlewareTrace) :
    Prop :=
  if h.options.hasUsageStore then
    trace = [⟨.compareAndSet h.extracted.mandate.view.id previous evaluation.nextUsage, .ok true⟩]
  else trace = [] ∧ requiresPersistentUsage h.extracted.mandate.view = false

/-- The calls from the usage on: the extensions and the usage are read, the request is allowed on
that usage, and its next usage is stored. -/
def Committed (evaluation : EvaluationResult) (trace : MiddlewareTrace) : Prop :=
  ∃ extensions previous time supplied loaded stored,
    trace = supplied ++ (loaded ++ ⟨.now, .ok (some time)⟩ :: stored) ∧
    Run h.suppliedExtensions supplied (.ok extensions) ∧
    Run h.previousUsage loaded (.ok previous) ∧
    h.Permitted evaluation extensions previous time ∧ h.Stored evaluation previous stored

/-- What the calls before the handler have established. -/
def Gate (v : Verifications) (evaluation : EvaluationResult) (trace : MiddlewareTrace) : Prop :=
  ∃ t u, trace = t ++ u ∧ h.Admitted v t ∧ h.Committed evaluation u

variable {h} {c : MiddlewareCall} {trace : MiddlewareTrace}

/-! ### How a commitment is reached -/

theorem reaches_invoke {context : OatiMiddlewareContext} (hc : isCommit c = true)
    (hreach : Reaches (h.invoke context) trace c) : trace = [] ∧ c = .next context := by
  rcases reaches_bind_iff.mp hreach with hcall | ⟨answer, t, u, -, -, hrest⟩
  · exact reaches_perform_iff.mp (reaches_attempt_iff.mp hcall)
  · rcases answer with e | downstream
    · exact absurd hrest (noCommit_refuse.not_reaches hc)
    · obtain ⟨time, -, u₁, -, -, hu₁⟩ := reaches_of_noCommit (noCommit_perform rfl) hc hrest
      obtain ⟨receipt, -, u₂, -, -, hu₂⟩ := reaches_of_noCommit noCommit_issueReceipt hc hu₁
      exact absurd hu₂ not_reaches_done

/-- A commitment behind the evaluation is reached with an allowed request. -/
theorem reaches_evaluate {v : Verifications} {extensions : OatiEvaluationExtensions}
    {previous : LoadedUsage} (hc : isCommit c = true)
    (hreach : Reaches (h.evaluate v extensions previous) trace c) :
    ∃ time evaluation u, trace = ⟨.now, .ok (some time)⟩ :: u ∧
      evaluateAuthority h.engine (h.evaluationRequest extensions previous.snapshot (isoText time))
        = .ok evaluation ∧ evaluation.decision = .allow ∧
      Reaches (h.commit (h.context v evaluation) previous) u c := by
  obtain ⟨time, t, u, rfl, ht, hu⟩ := reaches_of_noCommit (noCommit_perform rfl) hc hreach
  obtain ⟨text, t₁, u₁, rfl, ht₁, hu₁⟩ := reaches_of_noCommit (avoids_ofExcept _) hc hu
  obtain ⟨evaluation, t₂, u₂, rfl, ht₂, hu₂⟩ := reaches_of_noCommit (avoids_ofExcept _) hc hu₁
  obtain rfl := run_perform_iff.mp ht
  obtain ⟨rfl, htext⟩ := run_ofExcept_iff.mp ht₁
  obtain ⟨rfl, hevaluation⟩ := run_ofExcept_iff.mp ht₂
  rcases time with _ | time
  · cases htext
  · cases htext
    split_ifs at hu₂ with hdecision
    · exact absurd hu₂ (noCommit_refuse.not_reaches hc)
    · exact ⟨time, evaluation, u₂, rfl, hevaluation.symm, not_not.mp hdecision, hu₂⟩

/-- A commitment is the load itself, or is reached with a loaded usage. -/
theorem reaches_authorize {v : Verifications} (hc : isCommit c = true)
    (hreach : Reaches (h.authorize v) trace c) :
    (h.options.hasUsageStore = true ∧ c = .load h.extracted.mandate.view.id) ∨
    ∃ extensions previous supplied loaded u, trace = supplied ++ (loaded ++ u) ∧
      Run h.suppliedExtensions supplied (.ok extensions) ∧
      Run h.previousUsage loaded (.ok previous) ∧
      (h.options.hasUsageStore = true ∨
        requiresPersistentUsage h.extracted.mandate.view = false) ∧
      Reaches (h.evaluate v (compactExtensions extensions) previous) u c := by
  obtain ⟨extensions, t, u, rfl, ht, hu⟩ := reaches_of_noCommit quiet_suppliedExtensions.noCommit hc hreach
  rcases reaches_bind_iff.mp hu with hload | ⟨previous, t₁, u₁, rfl, ht₁, hu₁⟩
  · rw [previousUsage] at hload
    split_ifs at hload with hstore
    · exact .inl ⟨hstore, (reaches_perform_iff.mp hload).2⟩
    · exact absurd hload not_reaches_done
  · split_ifs at hu₁ with hrequired
    · exact absurd hu₁ (noCommit_refuse.not_reaches hc)
    · refine .inr ⟨extensions, previous, t, t₁, u₁, rfl, ht, ht₁, ?_, hu₁⟩
      rw [Bool.and_eq_true, Bool.not_eq_true'] at hrequired
      by_cases hstore : h.options.hasUsageStore = true
      · exact .inl hstore
      · exact .inr (by simpa [hstore] using hrequired)

/-- A commitment behind the binding is reached with a bound request. -/
theorem reaches_bindRequest {v : Verifications} (hc : isCommit c = true)
    (hreach : Reaches (h.bindRequest v) trace c) :
    ∃ t u, trace = t ++ u ∧ h.RequestBound t ∧ Reaches (h.authorize v) u c := by
  rw [bindRequest] at hreach
  split_ifs at hreach with hrequired
  · obtain ⟨digest, t, u, rfl, ht, hu⟩ := reaches_of_noCommit quiet_httpRequestDigest.noCommit hc hreach
    split_ifs at hu with hdigest
    · exact absurd hu (noCommit_refuse.not_reaches hc)
    · refine ⟨t, u, rfl, ?_, hu⟩
      rw [RequestBound, if_pos hrequired]
      exact ⟨digest, not_not.mp hdigest, ht⟩
  · exact ⟨[], trace, rfl, by rw [RequestBound, if_neg hrequired], hreach⟩

theorem reusableVerified_iff {kind : OatiDocumentKind} {document : Record}
    {result : VerificationResult} : h.ReusableVerified kind document trace result ↔
      Run (verifyReusable h.engine kind document) trace (.ok result) ∧ result.verified = true := by
  constructor
  · rintro ⟨hverified, policy, t, u, rfl, hverify, himplements⟩
    exact ⟨(run_perform _ (.ok policy)).bind
      (run_interpret_iff.mpr ⟨t, hverify, himplements⟩), hverified⟩
  · rintro ⟨hrun, hverified⟩
    obtain ⟨policy, t, u, rfl, ht, hu⟩ := run_bind_ok_iff.mp hrun
    obtain rfl := run_perform_iff.mp ht
    obtain ⟨t₀, hverify, himplements⟩ := run_interpret_iff.mp hu
    exact ⟨hverified, policy, t₀, u, rfl, hverify, himplements⟩

theorem envelopeVerified_iff {result : VerificationResult} : h.EnvelopeVerified trace result ↔
    Run (verifyEnvelope h.engine h.extracted.envelope.members) trace (.ok result) ∧
      result.verified = true := by
  constructor
  · rintro ⟨hverified, policy, t, u, rfl, hverify, himplements, -⟩
    exact ⟨(run_perform _ (.ok policy)).bind
      (run_interpret_iff.mpr ⟨t, hverify, himplements⟩), hverified⟩
  · rintro ⟨hrun, hverified⟩
    obtain ⟨policy, t, u, rfl, ht, hu⟩ := run_bind_ok_iff.mp hrun
    obtain rfl := run_perform_iff.mp ht
    obtain ⟨t₀, hverify, himplements⟩ := run_interpret_iff.mp hu
    refine ⟨hverified, policy, t₀, u, rfl, hverify, himplements, ?_⟩
    -- a verification without issues has asked the replay cache, and each of its calls is one here
    obtain ⟨proof, key, now, path, haccepted⟩ := verifyDocument_accepted hverify hverified
    refine ⟨proof, now, haccepted.proof_eq, ?_⟩
    obtain ⟨u', hsub, hcall⟩ := himplements.run_of_mem haccepted.replay
    obtain rfl := run_perform_iff.mp hcall
    exact hsub (List.mem_singleton_self _)

theorem reaches_checkEnvelope {mandate : VerificationResult}
    {parentMandate : Option VerificationResult} (hc : isCommit c = true)
    (hreach : Reaches (h.checkEnvelope mandate parentMandate) trace c) :
    ∃ envelope t d u, trace = t ++ (d ++ u) ∧ h.EnvelopeVerified t envelope ∧ h.RequestBound d ∧
      Reaches (h.authorize ⟨mandate, parentMandate, envelope⟩) u c := by
  obtain ⟨envelope, t, u, rfl, ht, hu⟩ := reaches_of_noCommit quiet_verifyEnvelope.noCommit hc hreach
  split_ifs at hu with hverified
  · obtain ⟨d, u', rfl, hbound, hu'⟩ := reaches_bindRequest hc hu
    exact ⟨envelope, t, d, u', rfl, envelopeVerified_iff.mpr ⟨ht, hverified⟩, hbound, hu'⟩
  · exact absurd hu (noCommit_denyVerification.not_reaches hc)

theorem reaches_checkParent {mandate : VerificationResult} (hc : isCommit c = true)
    (hreach : Reaches (h.checkParent mandate) trace c) :
    ∃ parentMandate t u, trace = t ++ u ∧ h.ParentVerified t parentMandate ∧
      Reaches (h.checkEnvelope mandate parentMandate) u c := by
  cases hparent : h.extracted.parentMandate with
  | none =>
    rw [checkParent, hparent] at hreach
    exact ⟨none, [], trace, rfl, by rw [ParentVerified, hparent]; exact ⟨rfl, rfl⟩, hreach⟩
  | some parent =>
    rw [checkParent, hparent] at hreach
    obtain ⟨result, t, u, rfl, ht, hu⟩ := reaches_of_noCommit quiet_verifyReusable.noCommit hc hreach
    split_ifs at hu with hverified
    · refine ⟨some result, t, u, rfl, ?_, hu⟩
      rw [ParentVerified, hparent]
      exact ⟨result, rfl, reusableVerified_iff.mpr ⟨ht, hverified⟩⟩
    · exact absurd hu (noCommit_denyVerification.not_reaches hc)

theorem reaches_handle (hc : isCommit c = true) (hreach : Reaches h.handle trace c) :
    ∃ mandate t u, trace = t ++ u ∧
      h.ReusableVerified .mandate h.extracted.mandate.members t mandate ∧
      Reaches (h.checkParent mandate) u c := by
  rw [handle] at hreach
  split_ifs at hreach with hempty
  · exact absurd hreach not_reaches_done
  · obtain ⟨mandate, t, u, rfl, ht, hu⟩ := reaches_of_noCommit quiet_verifyReusable.noCommit hc hreach
    split_ifs at hu with hverified
    · exact ⟨mandate, t, u, rfl, reusableVerified_iff.mpr ⟨ht, hverified⟩, hu⟩
    · exact absurd hu (noCommit_denyVerification.not_reaches hc)

end Handling

/-- A commitment of the middleware is one of the second `try` block, behind the extraction. -/
theorem reaches_handleRequest {engine : Engine} {schemas : Schemas}
    {options : OatiMiddlewareOptions} {request : HttpRequest} {c : MiddlewareCall}
    {trace : MiddlewareTrace} (hc : isCommit c = true)
    (hreach : Reaches (handleRequest engine schemas options request) trace c) :
    ∃ correlationId extracted t e u, trace = t ++ (e ++ u) ∧
      Run (correlation options (request.headers.get OATI_HTTP_HEADERS.correlationId)) t
        (.ok correlationId) ∧
      Run (extractRequest engine schemas options request) e (.ok extracted) ∧
      Reaches (Handling.mk engine schemas options request extracted correlationId).handle u c := by
  obtain ⟨correlated, t, u, rfl, ht, hu⟩ :=
    reaches_of_noCommit quiet_correlation.noCommit.attempt hc hreach
  obtain ⟨r, hr, hcorrelated⟩ := run_attempt_iff.mp ht
  cases hcorrelated
  rcases correlated with e | correlationId
  · exact absurd hu ((avoids_ofExcept (P := fun c => isCommit c = true) _).not_reaches hc)
  obtain ⟨outcome, t', u', rfl, ht', hu'⟩ :=
    reaches_of_noCommit quiet_extractRequest.noCommit.attempt hc hu
  obtain ⟨r', hr', houtcome⟩ := run_attempt_iff.mp ht'
  cases houtcome
  rcases outcome with e | extracted
  · exact absurd hu' ((avoids_ofExcept (P := fun c => isCommit c = true) _).not_reaches hc)
  refine ⟨correlationId, extracted, t, t', u', rfl, hr, hr', ?_⟩
  rcases reaches_bind_iff.mp hu' with hcall | ⟨response, t₁, u₁, rfl, -, hrest⟩
  · exact reaches_attempt_iff.mp hcall
  · rcases response with e | response
    · exact absurd hrest not_reaches_done
    · exact absurd hrest not_reaches_done

/-- Every commitment is behind the admission of the request. -/
theorem admitted_of_reaches {engine : Engine} {schemas : Schemas}
    {options : OatiMiddlewareOptions} {request : HttpRequest} {c : MiddlewareCall}
    {trace : MiddlewareTrace} (hc : isCommit c = true)
    (hreach : Reaches (handleRequest engine schemas options request) trace c) :
    ∃ correlationId extracted v t u, trace = t ++ u ∧
      (Handling.mk engine schemas options request extracted correlationId).Admitted v t ∧
      Reaches ((Handling.mk engine schemas options request extracted correlationId).authorize v)
        u c := by
  obtain ⟨correlationId, extracted, t, e, u, rfl, ht, he, hu⟩ := reaches_handleRequest hc hreach
  obtain ⟨mandate, m, u, rfl, hm, hu⟩ := Handling.reaches_handle hc hu
  obtain ⟨parentMandate, p, u, rfl, hp, hu⟩ := Handling.reaches_checkParent hc hu
  obtain ⟨envelope, v, d, u, rfl, hv, hd, hu⟩ := Handling.reaches_checkEnvelope hc hu
  exact ⟨correlationId, extracted, ⟨mandate, parentMandate, envelope⟩,
    t ++ (e ++ (m ++ (p ++ (v ++ d)))), u, by simp [List.append_assoc],
    ⟨t, e, m, p, v, d, rfl, ht, he, hm, hp, hv, hd⟩, hu⟩

/-- The handler is reached through the gate, with the context of what was verified. -/
theorem gate_of_reaches {engine : Engine} {schemas : Schemas}
    {options : OatiMiddlewareOptions} {request : HttpRequest} {context : OatiMiddlewareContext}
    {trace : MiddlewareTrace}
    (hreach : Reaches (handleRequest engine schemas options request) trace (.next context)) :
    ∃ correlationId extracted v evaluation,
      (Handling.mk engine schemas options request extracted correlationId).Gate v evaluation trace ∧
      context = (Handling.mk engine schemas options request extracted correlationId).context v
        evaluation := by
  obtain ⟨correlationId, extracted, v, t, u, rfl, hadmitted, hu⟩ := admitted_of_reaches rfl hreach
  generalize hh : Handling.mk engine schemas options request extracted correlationId = h
    at hadmitted hu
  rcases Handling.reaches_authorize rfl hu with ⟨-, hload⟩ | ⟨extensions, previous, s, l, w, rfl,
    hs, hl, hstore, hw⟩
  · cases hload
  obtain ⟨time, evaluation, w', rfl, hevaluation, hallow, hcommit⟩ :=
    Handling.reaches_evaluate rfl hw
  refine ⟨correlationId, extracted, v, evaluation, ?_⟩
  rw [hh]
  have hgate : h.Stored evaluation previous w' →
      h.Gate v evaluation (t ++ (s ++ (l ++ ⟨.now, .ok (some time)⟩ :: w'))) := fun hstored =>
    ⟨t, _, rfl, hadmitted, extensions, previous, time, s, l, w', rfl, hs, hl,
      ⟨hevaluation, hallow⟩, hstored⟩
  rw [Handling.commit] at hcommit
  split_ifs at hcommit with husage
  · rcases reaches_bind_iff.mp hcommit with hcas | ⟨stored, x, y, rfl, hx, hy⟩
    · cases (reaches_perform_iff.mp hcas).2
    · obtain rfl := run_perform_iff.mp hx
      split_ifs at hy with hstored
      · obtain ⟨rfl, hcontext⟩ := Handling.reaches_invoke rfl hy
        cases hcontext
        refine ⟨hgate ?_, rfl⟩
        rw [Handling.Stored, if_pos husage, hstored]
        rfl
      · exact absurd hy (Handling.noCommit_refuse.not_reaches rfl)
  · obtain ⟨rfl, hcontext⟩ := Handling.reaches_invoke rfl hcommit
    cases hcontext
    refine ⟨hgate ?_, rfl⟩
    rw [Handling.Stored, if_neg husage]
    exact ⟨rfl, hstore.resolve_left husage⟩

theorem correlation_run {options : OatiMiddlewareOptions} {value : Option String}
    {trace : MiddlewareTrace} {correlationId : String}
    (hrun : Run (correlation options value) trace (.ok correlationId)) :
    isCorrelationId correlationId = true := by
  rcases value with _ | value
  · obtain ⟨generated, t, u, rfl, -, hu⟩ := run_bind_ok_iff.mp hrun
    split_ifs at hu with hid
    · cases (run_pure_iff.mp hu).2
      exact hid
    · cases (run_throw_iff.mp hu).2
  · rw [correlation] at hrun
    split_ifs at hrun with hid
    · cases (run_pure_iff.mp hrun).2
      exact hid
    · cases (run_throw_iff.mp hrun).2

namespace Handling

variable {h : Handling} {v : Verifications} {evaluation : EvaluationResult}
  {trace : MiddlewareTrace}

/-- A committed request reaches the handler. -/
theorem Committed.reaches (hcommitted : h.Committed evaluation trace) :
    Reaches (h.authorize v) trace (.next (h.context v evaluation)) := by
  obtain ⟨extensions, previous, time, s, l, w, rfl, hs, hl, ⟨hevaluation, hallow⟩, hstored⟩ :=
    hcommitted
  have hinvoke : Reaches (h.invoke (h.context v evaluation)) []
      (.next (h.context v evaluation)) :=
    reaches_bind_iff.mpr (.inl (reaches_attempt_iff.mpr (reaches_perform_iff.mpr ⟨rfl, rfl⟩)))
  have hcommit : Reaches (h.commit (h.context v evaluation) previous) w
      (.next (h.context v evaluation)) ∧ (h.options.hasUsageStore = true ∨
        requiresPersistentUsage h.extracted.mandate.view = false) := by
    rw [Stored] at hstored
    rw [commit]
    split_ifs at hstored ⊢ with husage
    · rw [hstored]
      exact ⟨reaches_bind_perform hinvoke, .inl husage⟩
    · obtain ⟨rfl, hpersistent⟩ := hstored
      exact ⟨hinvoke, .inr hpersistent⟩
  have hevaluate : Reaches (h.evaluate v (compactExtensions extensions) previous)
      (⟨.now, .ok (some time)⟩ :: w) (.next (h.context v evaluation)) := by
    refine reaches_bind_perform ?_
    refine Run.reaches_bind (run_ofExcept_iff.mpr ⟨rfl, rfl⟩) ?_
    refine Run.reaches_bind (run_ofExcept_iff.mpr ⟨rfl, hevaluation.symm⟩) ?_
    rw [if_neg (not_not.mpr hallow)]
    exact hcommit.1
  refine hs.reaches_bind (hl.reaches_bind ?_)
  rw [if_neg]
  · exact hevaluate
  · rcases hcommit.2 with hstore | hpersistent
    · simp [hstore]
    · simp [hpersistent]

/-- A request that passes the gate reaches the handler. -/
theorem Gate.reaches (hgate : h.Gate v evaluation trace) :
    Reaches (handleRequest h.engine h.schemas h.options h.request) trace
      (.next (h.context v evaluation)) := by
  obtain ⟨t, u, rfl, ⟨c, e, m, p, n, d, rfl, hc, he, hm, hp, hn, hd⟩, hcommitted⟩ := hgate
  have hauthorize := hcommitted.reaches (v := v)
  have hbind : Reaches (h.bindRequest v) (d ++ u) (.next (h.context v evaluation)) := by
    rw [RequestBound] at hd
    rw [bindRequest]
    split_ifs at hd ⊢ with hrequired
    · obtain ⟨digest, hdigest, hrun⟩ := hd
      refine hrun.reaches_bind ?_
      rw [if_neg (not_not.mpr hdigest)]
      exact hauthorize
    · rw [hd]
      exact hauthorize
  obtain ⟨hnrun, hnverified⟩ := envelopeVerified_iff.mp hn
  have henvelope : Reaches (h.checkEnvelope v.mandate v.parentMandate) (n ++ (d ++ u))
      (.next (h.context v evaluation)) := by
    refine hnrun.reaches_bind ?_
    rw [if_pos hnverified]
    exact hbind
  have hparent : Reaches (h.checkParent v.mandate) (p ++ (n ++ (d ++ u)))
      (.next (h.context v evaluation)) := by
    cases hparent : h.extracted.parentMandate with
    | none =>
      rw [ParentVerified, hparent] at hp
      obtain ⟨rfl, hresult⟩ := hp
      rw [hresult] at henvelope
      rw [checkParent, hparent]
      exact henvelope
    | some parent =>
      rw [ParentVerified, hparent] at hp
      obtain ⟨result, hresult, hverified⟩ := hp
      obtain ⟨hrun, hrverified⟩ := reusableVerified_iff.mp hverified
      rw [checkParent, hparent]
      refine hrun.reaches_bind ?_
      rw [if_pos hrverified, ← hresult]
      exact henvelope
  obtain ⟨hmrun, hmverified⟩ := reusableVerified_iff.mp hm
  have hhandle : Reaches h.handle (m ++ (p ++ (n ++ (d ++ u))))
      (.next (h.context v evaluation)) := by
    have hid : h.correlationId ≠ "" := by
      rintro hempty
      have hcorrelation := correlation_run hc
      rw [hempty] at hcorrelation
      cases hcorrelation
    rw [handle, if_neg hid]
    refine hmrun.reaches_bind ?_
    rw [if_pos hmverified]
    exact hparent
  have hextracted : Reaches (handleExtracted h) (m ++ (p ++ (n ++ (d ++ u))))
      (.next (h.context v evaluation)) :=
    reaches_bind_iff.mpr (.inl (reaches_attempt_iff.mpr hhandle))
  have hwhole : c ++ (e ++ (m ++ (p ++ (n ++ d)))) ++ u
      = c ++ (e ++ (m ++ (p ++ (n ++ (d ++ u))))) := by
    simp [List.append_assoc]
  rw [hwhole]
  exact hc.attempt.reaches_bind (he.attempt.reaches_bind hextracted)

end Handling

/-! ### How often the handler is invoked -/

namespace Handling

variable {h : Handling}

theorem atMost_invoke {context : OatiMiddlewareContext} : AtMost isNext 1 (h.invoke context) := by
  refine (atMost_perform _).attempt.bind_avoids fun answer => ?_
  rcases answer with e | downstream
  · exact noCommit_refuse.next
  · exact Avoids.bind (avoids_perform Bool.false_ne_true) fun _ =>
      noCommit_issueReceipt.next.bind fun _ => avoids_ofExcept _

theorem atMost_commit {context : OatiMiddlewareContext} {previous : LoadedUsage} :
    AtMost isNext 1 (h.commit context previous) := by
  refine AtMost.ite ?_ atMost_invoke
  exact Avoids.atMost_bind (avoids_perform Bool.false_ne_true) fun stored =>
    AtMost.ite atMost_invoke (noCommit_refuse.next.atMost 1)

theorem atMost_evaluate {v : Verifications} {extensions : OatiEvaluationExtensions}
    {previous : LoadedUsage} : AtMost isNext 1 (h.evaluate v extensions previous) :=
  (noCommit_perform rfl).next.atMost_bind fun _ => (avoids_ofExcept _).atMost_bind fun _ =>
    (avoids_ofExcept _).atMost_bind fun _ =>
      AtMost.ite (noCommit_refuse.next.atMost 1) atMost_commit

theorem atMost_authorize {v : Verifications} : AtMost isNext 1 (h.authorize v) := by
  have hprevious : Avoids (fun c => isNext c = true) h.previousUsage := by
    rw [previousUsage]
    exact Avoids.ite (avoids_perform Bool.false_ne_true) (avoids_pure _)
  exact quiet_suppliedExtensions.noCommit.next.atMost_bind fun _ => hprevious.atMost_bind fun _ =>
    AtMost.ite (noCommit_refuse.next.atMost 1) atMost_evaluate

theorem atMost_bindRequest {v : Verifications} : AtMost isNext 1 (h.bindRequest v) :=
  AtMost.ite (quiet_httpRequestDigest.noCommit.next.atMost_bind fun _ =>
    AtMost.ite (noCommit_refuse.next.atMost 1) atMost_authorize) atMost_authorize

theorem atMost_checkEnvelope {mandate : VerificationResult}
    {parentMandate : Option VerificationResult} :
    AtMost isNext 1 (h.checkEnvelope mandate parentMandate) :=
  quiet_verifyEnvelope.noCommit.next.atMost_bind fun _ =>
    AtMost.ite atMost_bindRequest (noCommit_denyVerification.next.atMost 1)

theorem atMost_checkParent {mandate : VerificationResult} :
    AtMost isNext 1 (h.checkParent mandate) := by
  rw [checkParent]
  split
  · exact atMost_checkEnvelope
  · exact quiet_verifyReusable.noCommit.next.atMost_bind fun _ =>
      AtMost.ite atMost_checkEnvelope (noCommit_denyVerification.next.atMost 1)

theorem atMost_handle : AtMost isNext 1 h.handle :=
  AtMost.ite ((avoids_throw _).atMost 1) (quiet_verifyReusable.noCommit.next.atMost_bind fun _ =>
    AtMost.ite atMost_checkParent (noCommit_denyVerification.next.atMost 1))

end Handling

theorem atMost_handleRequest {engine : Engine} {schemas : Schemas}
    {options : OatiMiddlewareOptions} {request : HttpRequest} :
    AtMost isNext 1 (handleRequest engine schemas options request) := by
  refine quiet_correlation.noCommit.next.attempt.atMost_bind fun correlationId => ?_
  rcases correlationId with e | correlationId
  · exact (avoids_ofExcept _).atMost 1
  · refine quiet_extractRequest.noCommit.next.attempt.atMost_bind fun extracted => ?_
    rcases extracted with e | extracted
    · exact (avoids_ofExcept _).atMost 1
    · refine (Handling.atMost_handle.attempt).bind_avoids fun response => ?_
      rcases response with e | response
      · exact avoids_ofExcept _
      · exact avoids_pure _

/-! ### A note behind the gate -/

/-- The writer may write ten notes. -/
def noteMandate : Conforming AgentMandate where
  members :=
    [("oati_version", .str "1.0"), ("id", .str "oati:mandate:notes"),
      ("issuer", .str "oati:issuer:root"), ("subject", .str "oati:agent:writer"),
      ("purpose", .str "notes"), ("actions", .arr [.str "write"]),
      ("limits", .obj [("max_calls", .num 10)]), ("not_before", .str "2026-01-01T00:00:00Z"),
      ("expires_at", .str "2027-01-01T00:00:00Z"), ("status", .str "active"),
      ("proof", .obj noteProof)]
  view :=
    { id := "oati:mandate:notes", subject := "oati:agent:writer", purpose := "notes"
      actions := ["write"], limits := some [("max_calls", .num 10)]
      notBefore := "2026-01-01T00:00:00Z", expiresAt := "2027-01-01T00:00:00Z"
      status := .active }

/-- The envelope of a note, bound to a request whose digest is a zero byte. -/
def noteEnvelope : Conforming TransactionEnvelope where
  members :=
    [("oati_version", .str "1.0"), ("id", .str "oati:tx:1"),
      ("agent_id", .str "oati:agent:writer"), ("organisation_id", .str "oati:org:desk"),
      ("mandate_id", .str "oati:mandate:notes"), ("action", .str "write"),
      ("resource", .str "notes"), ("purpose", .str "notes"),
      ("request_digest", .str "sha256:00"), ("issued_at", .str "2026-07-27T12:00:00Z"),
      ("nonce", .str "nonce-0123456789"), ("proof", .obj noteProof)]
  view :=
    { id := "oati:tx:1", agentId := "oati:agent:writer", organisationId := "oati:org:desk"
      mandateId := "oati:mandate:notes", action := "write", resource := "notes"
      purpose := some "notes", requestDigest := some "sha256:00" }

/-- Schemas that know the two documents. -/
def noteSchemas : Schemas where
  mandate members :=
    if stringMember members "id" = some "oati:mandate:notes" then some noteMandate.view else none
  envelope members :=
    if stringMember members "id" = some "oati:tx:1" then some noteEnvelope.view else none
  receipt members := stringMember members "id"

/-- The handling of the note, with a usage store and an extraction of its own. -/
def noteHandling : Handling where
  engine := plainEngine
  schemas := noteSchemas
  options := { receiptIssuer := "oati:issuer:root", hasUsageStore := true, hasExtract := true }
  request :=
    { method := "POST", target := "/notes", headers := [("oati-correlation-id", "note-1")] }
  extracted := { envelope := noteEnvelope, mandate := noteMandate }
  correlationId := "note-1"

/-- The answer of the evaluator to the first note. -/
def noteEvaluation : EvaluationResult :=
  { decision := .allow, mandateId := "oati:mandate:notes", transactionId := "oati:tx:1"
    reasonCodes := []
    nextUsage :=
      { calls := some 1, amount := some "0", currency := some "", quantity := some "0"
        consumed := some false, idempotencyKeys := some [], mintedSupply := some "0" } }

/-- Half of the minute for which the note is signed has passed. -/
def noteTime : ℤ := noteExpires - 30000

theorem signedLikeNote_mandate : SignedLikeNote plainEngine noteMandate.members
    "oati:issuer:root" (some Double.maxSafeInteger) noteTime := by
  have hplus : plus noteTime 30000 = (1785153660000 : ℤ) := plus_natCast _ _ (by decide)
  have hminus : minus noteTime 30000 = (1785153600000 : ℤ) := minus_natCast _ _ (by decide)
  have hage : minus noteTime (noteExpires - 60000 : ℤ) = (30000 : ℤ) :=
    minus_natCast noteTime 1785153600000 (by decide)
  have hmax : Double.round ((9007199254770991 : ℤ) : ℚ) = (9007199254770992 : ℤ) := by
    rw [Double.round_intCast]
    have hround : Double.roundInt 9007199254770991 = 9007199254770992 := by decide
    rw [hround]
  refine ⟨rfl, by decide, ⟨?_, ?_⟩, ?_, ?_, _, rfl⟩
  · rintro s ⟨⟩
    exact ⟨1767225600000, rfl, by rw [hplus]; norm_num⟩
  · rintro s ⟨⟩
    exact ⟨1798761600000, rfl, by rw [hminus]; norm_num⟩
  · have hsum : ((Double.maxSafeInteger : ℕ) : ℚ) + 30000 = ((9007199254770991 : ℤ) : ℚ) := by
      norm_num [Double.maxSafeInteger]
    rw [hage, Option.getD_some, hsum, hmax]
    norm_num
  · rintro claimed ⟨⟩ -
    exact .inl rfl

theorem signedLikeNote_envelope :
    SignedLikeNote plainEngine noteEnvelope.members "oati:agent:writer" none noteTime := by
  have hplus : plus noteTime 30000 = (1785153660000 : ℤ) := plus_natCast _ _ (by decide)
  have hage : minus noteTime (noteExpires - 60000 : ℤ) = (30000 : ℤ) :=
    minus_natCast noteTime 1785153600000 (by decide)
  have hmax : Double.round (300000 + 30000) = (330000 : ℤ) := plus_natCast 300000 30000 (by decide)
  refine ⟨rfl, by decide, ⟨?_, ?_⟩, ?_, ?_, _, rfl⟩
  · rintro s ⟨⟩
    exact ⟨1785153600000, rfl, by rw [hplus]; norm_num⟩
  · rintro s ⟨⟩
  · rw [hage, Option.getD_none, hmax]
    norm_num
  · rintro claimed ⟨⟩ -
    exact .inl rfl

theorem exists_reusableVerified_note : ∃ trace result,
    noteHandling.ReusableVerified .mandate noteMandate.members trace result := by
  obtain ⟨proof, input, hrun, -, -⟩ :=
    run_signedLikeNote signedLikeNote_mandate true (by decide) (by decide)
  obtain ⟨u, hu⟩ := exists_implements (h := reusableCalls .mandate)
    (t := anchorTrace noteMandate.members proof
      { notePolicy noteTime with maxProofAgeMs := some Double.maxSafeInteger }
      { noteKey with controller := "oati:issuer:root" } plainEngine noteTime 0 [0] input true) (by
    simp only [anchorTrace, List.forall_mem_cons]
    exact ⟨⟨_, run_perform _ _⟩, ⟨_, run_perform _ _⟩, ⟨_, run_perform _ _⟩, ⟨_, run_perform _ _⟩,
      ⟨_, run_perform _ _⟩, ⟨_, run_perform _ _⟩, ⟨_, run_perform _ _⟩,
      ⟨[], run_pure_iff.mpr ⟨rfl, rfl⟩⟩, by simp⟩)
  exact ⟨_, _, rfl, notePolicy noteTime, _, u, rfl, hrun, hu⟩

theorem exists_envelopeVerified_note : ∃ trace result,
    noteHandling.EnvelopeVerified trace result := by
  obtain ⟨proof, input, hrun, -, -⟩ :=
    run_signedLikeNote signedLikeNote_envelope true (by decide) (by decide)
  obtain ⟨u, hu⟩ := exists_implements (h := envelopeCalls)
    (t := anchorTrace noteEnvelope.members proof { notePolicy noteTime with maxProofAgeMs := none }
      { noteKey with controller := "oati:agent:writer" } plainEngine noteTime 0 [0] input true)
    fun _ _ => ⟨_, run_perform _ _⟩
  have hinterpret : Run ((verifyDocument plainEngine noteEnvelope.members
      { notePolicy noteTime with maxProofAgeMs := none }).interpret envelopeCalls) u
      (.ok (verificationResult proof (some noteKey.issuer) (replayIssues true))) :=
    run_interpret_iff.mpr ⟨_, hrun, hu⟩
  refine ⟨_, _, Handling.envelopeVerified_iff.mpr
    ⟨run_bind_ok_iff.mpr ⟨_, [_], u, rfl, run_perform _ _, hinterpret⟩, rfl⟩⟩

/-- The digest of the note's request, when every hash is a zero byte. -/
theorem exists_requestBound_note : ∃ trace, noteHandling.RequestBound trace := by
  obtain ⟨binding, hbinding⟩ : ∃ binding, canonicalJson plainEngine
      (requestBinding noteHandling.request [0]) = .ok binding := ⟨_, rfl⟩
  have hhash : Run (sha256 (encodeText binding) >>= fun hash => pure ("sha256:" ++ hex hash))
      [⟨.digest (encodeText binding), .ok [0]⟩] (.ok "sha256:00") := by
    refine (run_perform (A := MiddlewareAnswer) (.digest _) (.ok [0])).bind (run_pure_iff.mpr ⟨rfl, ?_⟩)
    have hhex : hex [0] = "00" := by decide
    rw [hhex]
    rfl
  have hbody : Run (httpRequestDigest plainEngine noteHandling.request none)
      [⟨.readBody, .ok []⟩, ⟨.digest [], .ok [0]⟩, ⟨.digest (encodeText binding), .ok [0]⟩]
      (.ok "sha256:00") := by
    refine Run.bind (t := []) (a := ()) (run_ofExcept_iff.mpr ⟨rfl, by decide⟩) ?_
    refine (run_perform (A := MiddlewareAnswer) .readBody (.ok [])).bind ?_
    refine Run.bind (t := []) (a := ()) (run_ofExcept_iff.mpr ⟨rfl, by decide⟩) ?_
    refine (run_perform (A := MiddlewareAnswer) (.digest []) (.ok [0])).bind ?_
    exact Run.bind (t := []) (run_ofExcept_iff.mpr ⟨rfl, hbinding.symm⟩) hhash
  exact ⟨_, by rw [Handling.RequestBound, if_pos (by decide)]; exact ⟨_, rfl, hbody⟩⟩

theorem exists_admitted_note : ∃ v trace, noteHandling.Admitted v trace := by
  obtain ⟨m, mandate, hm⟩ := exists_reusableVerified_note
  obtain ⟨n, envelope, hn⟩ := exists_envelopeVerified_note
  obtain ⟨d, hd⟩ := exists_requestBound_note
  have hcorrelation : Run (correlation noteHandling.options
      (noteHandling.request.headers.get OATI_HTTP_HEADERS.correlationId)) [] (.ok "note-1") := by
    have hheader : noteHandling.request.headers.get OATI_HTTP_HEADERS.correlationId
        = some "note-1" := by decide
    rw [hheader, correlation, if_pos (by decide)]
    exact run_pure_iff.mpr ⟨rfl, rfl⟩
  let values : ExtractedValues :=
    { envelope := some (.obj noteEnvelope.members), mandate := some (.obj noteMandate.members) }
  have hextract : Run (extractRequest plainEngine noteSchemas noteHandling.options
      noteHandling.request) [⟨.extract, .ok values⟩] (.ok noteHandling.extracted) := by
    refine (run_perform (A := MiddlewareAnswer) .extract (.ok values)).bind ?_
    refine Run.bind (t := []) (run_ofExcept_iff.mpr ⟨rfl, rfl⟩) ?_
    exact Run.bind (t := []) (a := ()) (run_ofExcept_iff.mpr ⟨rfl, by decide⟩)
      (run_pure_iff.mpr ⟨rfl, rfl⟩)
  exact ⟨⟨mandate, none, envelope⟩, _, [], _, m, [], n, d, rfl, hcorrelation, hextract, hm,
    ⟨rfl, rfl⟩, hn, hd⟩

/-- The note passes the gate, on no usage. -/
theorem exists_gate_note : ∃ v trace, noteHandling.Gate v noteEvaluation trace := by
  obtain ⟨v, t, ht⟩ := exists_admitted_note
  have hevaluation : evaluateAuthority plainEngine
      (noteHandling.evaluationRequest (compactExtensions {}) {} (isoText noteTime))
      = .ok noteEvaluation := by decide
  exact ⟨v, _, t, _, rfl, ht, {}, ⟨0, {}⟩, noteTime, [], _, _, rfl, run_pure_iff.mpr ⟨rfl, rfl⟩,
    run_perform _ _, ⟨hevaluation, rfl⟩, rfl⟩

/-- For every behaviour of its dependencies, the middleware invokes the handler at most once, and
only behind the gate; a response without an invocation has the status of an error. -/
theorem middleware_fails_closed {engine : Engine} {schemas : Schemas}
    {options : OatiMiddlewareOptions} {middleware : HttpRequest → MiddlewareProg HttpResponse}
    (hcreated : createOatiMiddleware engine schemas options = .ok middleware)
    (request : HttpRequest) :
    (∀ trace q, Steps (middleware request) trace q →
      (trace.countP fun event => isNext event.call) ≤ 1) ∧
    (∀ trace context, Reaches (middleware request) trace (.next context) →
      ∃ correlationId extracted v evaluation,
        (Handling.mk engine schemas options request extracted correlationId).Gate v evaluation
          trace ∧
        context = (Handling.mk engine schemas options request extracted correlationId).context v
          evaluation) ∧
    ∀ trace response, Run (middleware request) trace (.ok response) →
      (∀ event ∈ trace, isNext event.call = false) → 400 ≤ response.status := by
  rw [createOatiMiddleware] at hcreated
  split_ifs at hcreated
  obtain rfl := Except.ok.inj hcreated
  refine ⟨atMost_handleRequest, fun _ _ => gate_of_reaches, fun trace response hrun hnext => ?_⟩
  rcases closed_handleRequest trace response hrun with ⟨event, hevent, hcalled⟩ | hstatus
  · rw [hnext event hevent] at hcalled
    cases hcalled
  · exact hstatus

/-- The note reaches the handler, through the gate. -/
theorem middleware_fails_closed_note : ∃ trace context,
    Reaches (handleRequest plainEngine noteSchemas noteHandling.options noteHandling.request) trace
      (.next context) ∧
    ∃ correlationId extracted v evaluation,
      (Handling.mk plainEngine noteSchemas noteHandling.options noteHandling.request extracted
        correlationId).Gate v evaluation trace ∧
      context = (Handling.mk plainEngine noteSchemas noteHandling.options noteHandling.request
        extracted correlationId).context v evaluation := by
  obtain ⟨v, trace, hgate⟩ := exists_gate_note
  have hcreated : createOatiMiddleware plainEngine noteSchemas noteHandling.options
      = .ok (handleRequest plainEngine noteSchemas noteHandling.options) := by
    rw [createOatiMiddleware, if_neg (by decide)]
  exact ⟨trace, _, hgate.reaches,
    (middleware_fails_closed hcreated noteHandling.request).2.1 trace _ hgate.reaches⟩

end Oati.TypeScript

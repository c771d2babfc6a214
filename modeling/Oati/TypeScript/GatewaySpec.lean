import Oati.TypeScript.Gateway
import Oati.TypeScript.MiddlewareSpec

/-!
# How the gateway comes to allow a request

The handler of the gateway is invoked only from the middleware, so the gate of the middleware is
one of the gateway too. Here its trace is followed into the implementations of the gateway.

* `allow_reaches`: behind an invocation of the handler is a run of the middleware to its own.
* `ReusableDecided`, `EnvelopeDecided`: the verifications of the gate with the policies, and under
  the resolvers, that the gateway made for them.
* `Decision`: what the trace of a gateway that invokes its handler is made of.
* `lookups`: the records a trace resolved; nothing but the policies looks up any.
-/

namespace Oati.TypeScript

open Prog

/-- A trace of the calls of the gateway and their answers. -/
abbrev GatewayTrace := List (Event GatewayAnswer JsError)

def isAllow : GatewayCall → Bool
  | .allow _ => true
  | _ => false

def isLookup : GatewayCall → Bool
  | .lookup _ _ => true
  | _ => false

def isPolicy : MiddlewareCall → Bool
  | .verificationPolicy _ => true
  | _ => false

/-- The record that a call resolved, and for what. -/
def lookupOf : Event GatewayAnswer JsError → Option (LookupKind × Option Value × LookupRecord)
  | ⟨.lookup kind id, .ok record⟩ => some (kind, id, record)
  | _ => none

/-- The records that a trace resolved, in their order. -/
def lookups (trace : GatewayTrace) : List (LookupKind × Option Value × LookupRecord) :=
  trace.filterMap lookupOf

@[simp] theorem lookups_nil : lookups [] = [] := rfl

@[simp] theorem lookups_append (t u : GatewayTrace) : lookups (t ++ u) = lookups t ++ lookups u :=
  List.filterMap_append

@[simp] theorem lookups_lookup (kind : LookupKind) (id : Option Value) (record : LookupRecord)
    (rest : GatewayTrace) :
    lookups (⟨.lookup kind id, .ok record⟩ :: rest) = (kind, id, record) :: lookups rest := rfl

theorem lookups_eq_nil {trace : GatewayTrace} (h : ∀ event ∈ trace, isLookup event.call = false) :
    lookups trace = [] := by
  refine List.filterMap_eq_nil_iff.mpr fun event hevent => ?_
  have hcall := h event hevent
  rcases event with ⟨c, answer⟩
  cases c <;> first | rfl | cases hcall

theorem lookups_of_avoids {α : Type} {p q : GatewayProg α} {trace : GatewayTrace}
    (hp : Avoids (fun c => isLookup c = true) p) (h : Steps p trace q) : lookups trace = [] := by
  refine lookups_eq_nil fun event hevent => ?_
  by_contra hcall
  rw [Bool.not_eq_false] at hcall
  exact hp.not_answered h hcall event.answer hevent

/-! ### What the implementations call -/

theorem avoids_resolverCalls {P : GatewayCall → Prop} (hP : ∀ c, ¬ P (.trust c))
    {resolver : PolicyResolver} (c : TrustCall) : Avoids P (resolverCalls resolver c) := by
  have hperform : Avoids P (perform (GatewayCall.trust c) : GatewayProg (TrustAnswer c)) :=
    avoids_perform (hP c)
  cases resolver with
  | upstream => exact hperform
  | lifecycle documentID record =>
    cases c with
    | resolveRevocation target => exact Avoids.ite (avoids_pure _) hperform
    | _ => exact hperform
  | unavailable runtimeKeyID =>
    cases c with
    | resolveKey id => exact Avoids.ite (avoids_pure _) hperform
    | _ => exact hperform

theorem avoids_passportCalls {P : GatewayCall → Prop} (hP : ∀ c, ¬ P (.trust c))
    {resolver : PolicyResolver} (c : TrustCall) : Avoids P (passportCalls resolver c) := by
  cases c with
  | checkAndStore => exact avoids_pure _
  | _ => exact avoids_resolverCalls hP _

namespace Gateway

variable {g : Gateway} {request : HttpRequest} {body : List UInt8} {s : Resolvers}

theorem avoids_boundPublicDocument {P : GatewayCall → Prop}
    (hP : ∀ kind id, ¬ P (.lookup kind id)) {kind : LookupKind} {id presented : Option Value} :
    Avoids P (g.boundPublicDocument kind id presented) := by
  refine (avoids_perform (hP kind id)).bind fun record => Avoids.ite (avoids_throw _) ?_
  refine (avoids_ofExcept _).bind fun signed => Avoids.ite ?_ (avoids_pure _)
  exact (avoids_ofExcept _).bind fun _ => (avoids_ofExcept _).bind fun _ =>
    Avoids.ite (avoids_throw _) (avoids_pure _)

theorem avoids_runtimeResolver {P : GatewayCall → Prop} (hP : ∀ kind id, ¬ P (.lookup kind id))
    {passport : Value} {verified : Bool} {keyID : Option Value} :
    Avoids P (g.runtimeResolver passport verified keyID) := by
  refine (avoids_ofExcept _).bind fun method => Avoids.bind ?_ fun _ =>
    Avoids.ite (avoids_pure _) (avoids_pure _)
  exact Avoids.ite ((avoids_perform (hP _ _)).bind fun _ => avoids_ofExcept _) (avoids_pure _)

theorem avoids_verificationPolicy {P : GatewayCall → Prop} (hP : ∀ kind id, ¬ P (.lookup kind id))
    (htrust : ∀ c, ¬ P (.trust c)) {kind : OatiDocumentKind} :
    Avoids P (g.verificationPolicy kind request) := by
  have hmandate : ∀ document, Avoids P (g.mandatePolicy document) := fun document =>
    Avoids.ite ((avoids_boundPublicDocument hP).bind fun _ => avoids_pure _) (avoids_pure _)
  refine (avoids_ofExcept _).bind fun extracted => ?_
  cases kind with
  | mandate => exact hmandate _
  | parentMandate => exact hmandate _
  | envelope =>
    refine (avoids_ofExcept _).bind fun _ => (avoids_boundPublicDocument hP).bind fun _ =>
      (avoids_ofExcept _).bind fun _ => (avoids_ofExcept _).bind fun _ => ?_
    exact (Avoids.interpret (avoids_passportCalls htrust) _).bind fun _ =>
      (avoids_runtimeResolver hP).bind fun _ => avoids_pure _

/-- Calls other than that of the handler do not get to the gateway's. -/
theorem answer_avoids_allow {c : MiddlewareCall} (hc : isNext c = false) :
    Avoids (fun c => isAllow c = true) (g.answer request body s c) := by
  have hallow : ∀ c, ¬ isAllow (.trust c) = true := fun _ => Bool.false_ne_true
  have hmiddleware : ∀ c, Avoids (fun c => isAllow c = true)
      (perform (GatewayCall.middleware c) : GatewayProg (MiddlewareAnswer c)) := fun _ =>
    avoids_perform Bool.false_ne_true
  cases c with
  | next => cases hc
  | verificationPolicy kind =>
    exact (avoids_verificationPolicy (fun _ _ => Bool.false_ne_true) hallow).bind fun _ =>
      avoids_pure _
  | trust kind c => exact (avoids_resolverCalls hallow c).bind fun _ => avoids_pure _
  | readBody => exact avoids_pure _
  | evaluationExtensions => exact avoids_pure _
  | _ => exact (hmiddleware _).bind fun _ => avoids_pure _

/-- Only a policy looks up records. -/
theorem answer_avoids_lookup {c : MiddlewareCall} (hc : isPolicy c = false) :
    Avoids (fun c => isLookup c = true) (g.answer request body s c) := by
  have hlookup : ∀ c, ¬ isLookup (.trust c) = true := fun _ => Bool.false_ne_true
  have hallow : ∀ context, Avoids (fun c => isLookup c = true)
      (perform (GatewayCall.allow context) : GatewayProg Unit) := fun _ =>
    avoids_perform Bool.false_ne_true
  have hmiddleware : ∀ c, Avoids (fun c => isLookup c = true)
      (perform (GatewayCall.middleware c) : GatewayProg (MiddlewareAnswer c)) := fun _ =>
    avoids_perform Bool.false_ne_true
  cases c with
  | verificationPolicy => cases hc
  | next =>
    exact (hallow _).bind fun _ => (avoids_ofExcept _).bind fun _ => avoids_pure _
  | trust kind c => exact (avoids_resolverCalls hlookup c).bind fun _ => avoids_pure _
  | readBody => exact avoids_pure _
  | evaluationExtensions => exact avoids_pure _
  | _ => exact (hmiddleware _).bind fun _ => avoids_pure _

/-- The call of the handler is implemented by the gateway's, which comes first. -/
theorem reaches_answer_next {context context' : OatiMiddlewareContext} {v : GatewayTrace}
    (h : Reaches (g.answer request body s (.next context)) v (.allow context')) :
    v = [] ∧ context' = context := by
  rcases reaches_bind_iff.mp h with hcall | ⟨_, t, u, -, -, hrest⟩
  · obtain ⟨rfl, hcontext⟩ := reaches_perform_iff.mp hcall
    cases hcontext
    exact ⟨rfl, rfl⟩
  · have havoids : Avoids (fun c => isAllow c = true)
        ((ofExcept (allowResponse context) : GatewayProg HttpResponse) >>= fun response =>
          pure (response, s)) := (avoids_ofExcept _).bind fun _ => avoids_pure _
    exact absurd hrest (havoids.not_reaches rfl)

/-! ### From the gateway to its middleware -/

/-- Behind an invocation of the gateway's handler, the body was read, a request was made of the
message, and the middleware invoked its handler. -/
theorem allow_reaches {application : IncomingMessage → GatewayProg (Option HttpResponse)}
    (hcreated : g.createApplication = .ok application) {message : IncomingMessage}
    {trace : GatewayTrace} {context : OatiMiddlewareContext}
    (hreach : Reaches (application message) trace (.allow context)) :
    ∃ body headers request t u s, trace = ⟨.requestBody, .ok body⟩ :: u ∧
      verificationHeaders [] message.headers = .ok headers ∧
      g.newRequest message.method (authorizedTarget message.url) headers = .ok request ∧
      Reaches (handleRequest g.engine g.schemas g.middlewareOptions request) t (.next context) ∧
      ImplementsWith (g.answer request (forwardedBody message body)) (fun _ => .upstream) t u s := by
  obtain ⟨middleware, hmiddleware, happlication⟩ := bind_eq_ok.mp hcreated
  rw [createOatiMiddleware] at hmiddleware
  split_ifs at hmiddleware
  obtain rfl := Except.ok.inj hmiddleware
  obtain rfl := Except.ok.inj happlication
  simp only at hreach
  split_ifs at hreach with hurl
  swap
  · exact absurd hreach not_reaches_done
  rcases reaches_bind_iff.mp hreach with hreach | ⟨response, t, u, -, -, hrest⟩
  swap
  · exact absurd hrest not_reaches_done
  -- the body comes first, and is answered
  rcases reaches_bind_iff.mp hreach with hbody | ⟨answer, t, v, rfl, ht, hv⟩
  · cases (reaches_perform_iff.mp (reaches_attempt_iff.mp hbody)).2
  obtain ⟨_, rfl, hanswer⟩ := run_attempt_perform_iff.mp ht
  cases hanswer
  rcases answer with e | body
  · exact absurd hv not_reaches_done
  simp only at hv
  split_ifs at hv
  · exact absurd hv not_reaches_done
  rcases reaches_bind_iff.mp hv with hdecide | ⟨outcome, t, w, -, -, hrest⟩
  swap
  · rcases outcome with e | decision
    · exact absurd hrest not_reaches_done
    · exact absurd hrest not_reaches_done
  have hdecide := reaches_attempt_iff.mp hdecide
  rcases reaches_bind_iff.mp hdecide with hheaders | ⟨headers, t₁, u₁, rfl, ht₁, hu₁⟩
  · exact absurd hheaders not_reaches_done
  obtain ⟨rfl, hheaders⟩ := run_ofExcept_iff.mp ht₁
  rcases reaches_bind_iff.mp hu₁ with hrequest | ⟨request, t₂, u₂, rfl, ht₂, hu₂⟩
  · exact absurd hrequest not_reaches_done
  obtain ⟨rfl, hrequest⟩ := run_ofExcept_iff.mp ht₂
  obtain ⟨c, t, u, x, s, rfl, hmiddle, himplements, hlast⟩ := reaches_interpretWith_iff.mp hu₂
  -- the call in whose implementation it stands is that of the middleware's handler
  have hnext : isNext c = true := by
    by_contra hc
    exact (answer_avoids_allow (Bool.not_eq_true _ ▸ hc)).not_reaches rfl hlast
  cases c with
  | next context' =>
    obtain ⟨rfl, rfl⟩ := reaches_answer_next hlast
    exact ⟨body, headers, request, t, u, s, by simp, hheaders.symm, hrequest.symm, hmiddle,
      himplements⟩
  | _ => cases hnext

end Gateway

/-! ### What was extracted -/

theorem assertSchema_eq_ok {α : Type} {name : String} {schema : Record → Option α}
    {value : Option Value} {conformed : Conforming α}
    (h : assertSchema name schema value = .ok conformed) :
    value = some (.obj conformed.members) ∧ schema conformed.members = some conformed.view := by
  rw [assertSchema] at h
  split at h
  · next members hmembers =>
    split at h
    · next view hview =>
      obtain rfl := Except.ok.inj h
      obtain ⟨v, rfl, hv⟩ := Option.bind_eq_some_iff.mp hmembers
      exact ⟨congrArg some (Json.members?_eq_some.mp hv), hview⟩
    · cases h
  · cases h

/-- The documents of a request are those of the headers. -/
theorem conforming_eq_ok {schemas : Schemas} {values : ExtractedValues}
    {extracted : ExtractedOatiRequest} (h : conforming schemas values = .ok extracted) :
    values.mandate = some (.obj extracted.mandate.members) ∧
      values.envelope = some (.obj extracted.envelope.members) ∧
      ∀ parent ∈ extracted.parentMandate, values.parentMandate = some (.obj parent.members) := by
  obtain ⟨mandate, hmandate, h⟩ := bind_eq_ok.mp h
  obtain ⟨envelope, henvelope, h⟩ := bind_eq_ok.mp h
  split_ifs at h with hparent
  · obtain ⟨parent, hassert, h⟩ := bind_eq_ok.mp h
    obtain rfl := Except.ok.inj h
    refine ⟨(assertSchema_eq_ok hmandate).1, (assertSchema_eq_ok henvelope).1, ?_⟩
    rintro _ ⟨⟩
    exact (assertSchema_eq_ok hassert).1
  · obtain rfl := Except.ok.inj h
    refine ⟨(assertSchema_eq_ok hmandate).1, (assertSchema_eq_ok henvelope).1, ?_⟩
    rintro _ ⟨⟩

/-! ### The verifications of the gateway -/

theorem run_keep_iff {α σ : Type} {p : GatewayProg α} {s : σ} {v : GatewayTrace}
    {r : Except JsError α} :
    Run (p >>= fun a => pure (a, s)) v (r.map fun a => (a, s)) → Run p v r := by
  intro h
  rcases run_bind_iff.mp h with ⟨e, he, hr⟩ | ⟨a, t, u, rfl, ht, hu⟩
  · rcases r with e' | a
    · cases hr
      exact he
    · cases hr
  · obtain ⟨rfl, hr⟩ := run_pure_iff.mp hu
    rw [List.append_nil]
    rcases r with e' | a'
    · cases hr
    · cases hr
      exact ht

/-- The calls of a verification, but for those of the replay cache, were answered by the resolver,
and the trace looked up no record. -/
structure AnsweredBy (resolver : PolicyResolver) (t : TrustTrace) (trace : GatewayTrace) :
    Prop where
  calls : ∀ event ∈ t, (∀ key expiresAt now, event.call ≠ .checkAndStore key expiresAt now) →
    ∃ x, x ⊆ trace ∧ Run (resolverCalls resolver event.call) x event.answer
  lookups : lookups trace = []

theorem AnsweredBy.answered {resolver : PolicyResolver} {t : TrustTrace} {trace : GatewayTrace}
    (h : AnsweredBy resolver t trace) {c : TrustCall} {answer : Except JsError (TrustAnswer c)}
    (hanswer : Answered t c answer)
    (hc : ∀ key expiresAt now, c ≠ .checkAndStore key expiresAt now) :
    ∃ x, x ⊆ trace ∧ Run (resolverCalls resolver c) x answer :=
  h.calls ⟨c, answer⟩ hanswer hc

namespace Gateway

variable (g : Gateway) (request : HttpRequest)

/-- The trace is that of a policy of the gateway and of a verification under its resolver, which
ended verified. -/
def Verified (kind : OatiDocumentKind) (effective : VerificationPolicy → VerificationPolicy)
    (document : Record) (trace : GatewayTrace) (result : VerificationResult) : Prop :=
  result.verified = true ∧ ∃ policy resolver t u w, trace = u ++ w ∧
    Run (g.verificationPolicy kind request) u (.ok (policy, resolver)) ∧
    Run (verifyDocument g.engine document (effective policy)) t (.ok result) ∧
    AnsweredBy resolver t w

variable {g request} {body : List UInt8} {s s' : Resolvers}

theorem lookups_implements {t : MiddlewareTrace} {u : GatewayTrace}
    (h : ImplementsWith (g.answer request body) s t u s')
    (ht : ∀ event ∈ t, isPolicy event.call = false) : lookups u = [] := by
  induction h with
  | nil => rfl
  | ok hcall _ ih =>
    obtain ⟨hevent, hrest⟩ := List.forall_mem_cons.mp ht
    rw [lookups_append, lookups_of_avoids (answer_avoids_lookup hevent) hcall, ih hrest]
    rfl
  | error hcall _ ih =>
    obtain ⟨hevent, hrest⟩ := List.forall_mem_cons.mp ht
    rw [lookups_append, lookups_of_avoids (answer_avoids_lookup hevent) hcall, ih hrest]
    rfl

/-- The calls of an interpreted verification are those of its kind, implemented in one state. -/
theorem answeredBy_of_implements {kind : OatiDocumentKind}
    {calls : ∀ c, MiddlewareProg (TrustAnswer c)} {t : TrustTrace} {v : MiddlewareTrace}
    {u : GatewayTrace} (hcalls : Implements calls t v)
    (hperform : ∀ c, (∀ key expiresAt now, c ≠ .checkAndStore key expiresAt now) →
      calls c = perform (MiddlewareCall.trust kind c))
    (htrust : ∀ event ∈ v, ∃ c, event.call = .trust kind c)
    (h : ImplementsWith (g.answer request body) s v u s') : AnsweredBy (s kind) t u := by
  have hkeep : ∀ event ∈ v, ∀ x a s', Run (g.answer request body s event.call) x (.ok (a, s')) →
      s' = s := by
    intro event hevent x a s' hrun
    rcases event with ⟨c, answer⟩
    obtain ⟨c, rfl⟩ := htrust _ hevent
    obtain ⟨answered, t, u, rfl, -, hu⟩ := run_bind_ok_iff.mp hrun
    cases (run_pure_iff.mp hu).2
    rfl
  obtain ⟨rfl, hruns⟩ := h.constant hkeep
  refine ⟨fun event hevent hc => ?_, lookups_implements h fun event hevent => ?_⟩
  · obtain ⟨x, hx, hcall⟩ := hcalls.run_of_mem hevent
    rw [hperform _ hc] at hcall
    obtain rfl := run_perform_iff.mp hcall
    obtain ⟨w, hw, hrun⟩ := hruns _ (hx (List.mem_singleton_self _))
    exact ⟨w, hw, run_keep_iff hrun⟩
  · obtain ⟨c, hc⟩ := htrust event hevent
    rw [hc]
    rfl

/-- A verification behind a policy, in the gateway. -/
theorem verified_of_implements {kind : OatiDocumentKind}
    {effective : VerificationPolicy → VerificationPolicy} {document : Record}
    {calls : ∀ c, MiddlewareProg (TrustAnswer c)} {policy : VerificationPolicy}
    {result : VerificationResult} {t : TrustTrace} {v : MiddlewareTrace} {u : GatewayTrace}
    (hverified : result.verified = true)
    (hrun : Run (verifyDocument g.engine document (effective policy)) t (.ok result))
    (hcalls : Implements calls t v)
    (hperform : ∀ c, (∀ key expiresAt now, c ≠ .checkAndStore key expiresAt now) →
      calls c = perform (MiddlewareCall.trust kind c))
    (htrust : ∀ event ∈ v, ∃ c, event.call = .trust kind c)
    (h : ImplementsWith (g.answer request body) s
      (⟨.verificationPolicy kind, .ok policy⟩ :: v) u s') :
    g.Verified request kind effective document u result := by
  cases h with
  | ok hcall hrest =>
    obtain ⟨⟨policy', resolver⟩, x, y, rfl, hpolicy, hy⟩ := run_bind_ok_iff.mp hcall
    obtain ⟨rfl, hstate⟩ := run_pure_iff.mp hy
    cases hstate
    have hanswered := answeredBy_of_implements hcalls hperform htrust hrest
    rw [Function.update_self] at hanswered
    exact ⟨hverified, policy, resolver, t, x, _, by simp, hpolicy, hrun, hanswered⟩

theorem trust_of_implements_reusable {kind : OatiDocumentKind} {t : TrustTrace}
    {v : MiddlewareTrace} (h : Implements (reusableCalls kind) t v) :
    ∀ event ∈ v, ∃ c, event.call = .trust kind c := by
  induction h with
  | nil => exact fun event hevent => absurd hevent List.not_mem_nil
  | @cons event _ _ _ hevent _ ih =>
    intro made hmade
    rcases List.mem_append.mp hmade with hmade | hmade
    · rcases event with ⟨c, answer⟩
      cases c with
      | checkAndStore =>
        obtain ⟨rfl, -⟩ := run_pure_iff.mp hevent
        cases hmade
      | _ =>
        obtain rfl := run_perform_iff.mp hevent
        exact ⟨_, congrArg Event.call (List.mem_singleton.mp hmade)⟩
    · exact ih made hmade

theorem trust_of_implements_envelope {t : TrustTrace} {v : MiddlewareTrace}
    (h : Implements envelopeCalls t v) : ∀ event ∈ v, ∃ c, event.call = .trust .envelope c := by
  induction h with
  | nil => exact fun event hevent => absurd hevent List.not_mem_nil
  | cons hevent _ ih =>
    intro made hmade
    rcases List.mem_append.mp hmade with hmade | hmade
    · obtain rfl := run_perform_iff.mp hevent
      exact ⟨_, congrArg Event.call (List.mem_singleton.mp hmade)⟩
    · exact ih made hmade

/-- The verification of a mandate, in the gateway. -/
theorem verified_of_reusable {h : Handling} {kind : OatiDocumentKind} {document : Record}
    {result : VerificationResult} {t : MiddlewareTrace} {u : GatewayTrace}
    (hengine : h.engine = g.engine) (hverified : h.ReusableVerified kind document t result)
    (himplements : ImplementsWith (g.answer request body) s t u s') :
    g.Verified request kind reusableDocumentPolicy document u result := by
  obtain ⟨hresult, policy, t₀, v, rfl, hrun, hcalls⟩ := hverified
  rw [hengine] at hrun
  refine verified_of_implements hresult hrun hcalls ?_ (trust_of_implements_reusable hcalls)
    himplements
  intro c hc
  cases c with
  | checkAndStore key expiresAt now => exact absurd rfl (hc key expiresAt now)
  | _ => rfl

/-- The verification of the envelope, in the gateway. -/
theorem verified_of_envelope {h : Handling} {result : VerificationResult} {t : MiddlewareTrace}
    {u : GatewayTrace} (hengine : h.engine = g.engine) (hverified : h.EnvelopeVerified t result)
    (himplements : ImplementsWith (g.answer request body) s t u s') :
    g.Verified request .envelope id h.extracted.envelope.members u result := by
  obtain ⟨hresult, policy, t₀, v, rfl, hrun, hcalls, -⟩ := hverified
  rw [hengine] at hrun
  exact verified_of_implements hresult hrun hcalls (fun _ _ => rfl)
    (trust_of_implements_envelope hcalls) himplements

/-! ### The decision -/

variable (g request)

/-- The handling of a request whose documents were extracted. -/
def handling (extracted : ExtractedOatiRequest) (correlationId : String) : Handling where
  engine := g.engine
  schemas := g.schemas
  options := g.middlewareOptions
  request := request
  extracted := extracted
  correlationId := correlationId

/-- The parent mandate, if one was extracted, was verified. -/
def ParentVerified (parentMandate : Option (Conforming AgentMandate)) (trace : GatewayTrace)
    (result : Option VerificationResult) : Prop :=
  match parentMandate with
  | none => trace = [] ∧ result = none
  | some parent => ∃ r, result = some r ∧
      g.Verified request .parentMandate reusableDocumentPolicy parent.members trace r

/-- The evaluator allowed the request on the usage that the trace loaded, at the time it read. -/
def Permitted (h : Handling) (evaluation : EvaluationResult) (trace : GatewayTrace) : Prop :=
  ∃ previous time,
    Answered trace (.middleware (.load h.extracted.mandate.view.id)) (.ok previous) ∧
    Answered trace (.middleware .now) (.ok (some time)) ∧
    h.Permitted evaluation (g.evaluationExtensions h.extracted) previous time

/-- What the trace of a gateway that invokes its handler is made of: the verifications, with their
policies, between calls that look up nothing, and an evaluation. -/
structure Decision (h : Handling) (v : Handling.Verifications) (evaluation : EvaluationResult)
    (trace before mandate parent envelope after : GatewayTrace) : Prop where
  trace_eq : trace = before ++ (mandate ++ (parent ++ (envelope ++ after)))
  extracted : ∃ values,
    extractOatiHeaders g.engine request (some g.config.maxHeaderBytes) = .ok values ∧
    conforming g.schemas values = .ok h.extracted
  before_eq : lookups before = []
  mandate : g.Verified request .mandate reusableDocumentPolicy h.extracted.mandate.members mandate
    v.mandate
  parent : g.ParentVerified request h.extracted.parentMandate parent v.parentMandate
  envelope : g.Verified request .envelope id h.extracted.envelope.members envelope v.envelope
  after_eq : lookups after = []
  permitted : g.Permitted h evaluation after

variable {g request}

theorem not_isPolicy_of_routine {α : Type} {p q : MiddlewareProg α} {t : MiddlewareTrace}
    (hp : Routine p) (h : Steps p t q) : ∀ event ∈ t, isPolicy event.call = false := by
  intro event hevent
  rcases event with ⟨c, answer⟩
  by_contra hpolicy
  have hroutine : ¬ isRoutine c = true := by
    cases c <;> first | exact Bool.false_ne_true | exact absurd rfl hpolicy
  exact hp.not_answered h hroutine answer hevent

/-- The committed part of a gate, in the gateway. -/
theorem permitted_of_committed {extracted : ExtractedOatiRequest} {correlationId : String}
    {evaluation : EvaluationResult} {t : MiddlewareTrace} {u : GatewayTrace}
    (hcommitted : (g.handling request extracted correlationId).Committed evaluation t)
    (himplements : ImplementsWith (g.answer request body) s t u s') :
    g.Permitted (g.handling request extracted correlationId) evaluation u ∧ lookups u = [] := by
  obtain ⟨extensions, previous, time, supplied, loaded, stored, rfl, hsupplied, hloaded, hpermitted,
    hstored⟩ := hcommitted
  obtain ⟨answered, t₁, t₂, rfl, hcall, hextensions⟩ := run_bind_ok_iff.mp hsupplied
  obtain rfl := run_perform_iff.mp hcall
  obtain ⟨rfl, hsupply⟩ := run_pure_iff.mp hextensions
  obtain rfl := Except.ok.inj hsupply
  obtain rfl := run_perform_iff.mp hloaded
  have hstore : (g.handling request extracted correlationId).options.hasUsageStore = true := rfl
  rw [Handling.Stored, if_pos hstore] at hstored
  have hlookups : lookups u = [] := by
    refine lookups_implements himplements fun event hevent => ?_
    rw [hstored] at hevent
    simp only [List.append_nil, List.cons_append, List.nil_append, List.mem_cons,
      List.not_mem_nil, or_false] at hevent
    rcases hevent with rfl | rfl | rfl | rfl <;> rfl
  refine ⟨?_, hlookups⟩
  -- the supplied extensions are those of the gateway, and the other two calls are its own
  obtain ⟨u₁, u₂, s₁, rfl, hfirst, hrest⟩ := implementsWith_append_iff.mp himplements
  obtain ⟨u₃, u₄, s₂, rfl, hload, hrest⟩ := implementsWith_append_iff.mp hrest
  obtain rfl : answered = some (g.evaluationExtensions extracted) := by
    cases hfirst with
    | ok hcall _ =>
      cases (run_pure_iff.mp hcall).2
      rfl
  have hloaded : Answered u₃ (.middleware (.load extracted.mandate.view.id)) (.ok previous) := by
    cases hload with
    | ok hcall _ =>
      obtain ⟨a, x, y, rfl, hx, hy⟩ := run_bind_ok_iff.mp hcall
      obtain rfl := run_perform_iff.mp hx
      cases (run_pure_iff.mp hy).2
      exact answered_append.mpr (.inl (answered_append.mpr (.inl (answered_singleton.mpr rfl))))
  have hnow : Answered u₄ (.middleware .now) (.ok (some time)) := by
    cases hrest with
    | ok hcall _ =>
      obtain ⟨a, x, y, rfl, hx, hy⟩ := run_bind_ok_iff.mp hcall
      obtain rfl := run_perform_iff.mp hx
      cases (run_pure_iff.mp hy).2
      exact answered_append.mpr (.inl (answered_append.mpr (.inl (answered_singleton.mpr rfl))))
  exact ⟨previous, time, answered_append.mpr (.inr (answered_append.mpr (.inl hloaded))),
    answered_append.mpr (.inr (answered_append.mpr (.inr hnow))), hpermitted⟩

/-- The gate of the middleware, in the gateway. -/
theorem decision_of_gate {extracted : ExtractedOatiRequest} {correlationId : String}
    {v : Handling.Verifications} {evaluation : EvaluationResult} {t : MiddlewareTrace}
    {u : GatewayTrace} (hgate : (g.handling request extracted correlationId).Gate v evaluation t)
    (himplements : ImplementsWith (g.answer request body) s t u s') :
    ∃ before mandate parent envelope after,
      g.Decision request (g.handling request extracted correlationId) v evaluation u before mandate
        parent envelope after := by
  obtain ⟨_, committed, rfl, ⟨correlated, e, m, p, n, d, rfl, hcorrelated, hextracted, hm, hp, hn,
    hd⟩, hcommitted⟩ := hgate
  obtain ⟨u₀, uc, s₀, rfl, hadmitted, hlast⟩ := implementsWith_append_iff.mp himplements
  obtain ⟨ut, u₁, s₁, rfl, ht, hadmitted⟩ := implementsWith_append_iff.mp hadmitted
  obtain ⟨ue, u₂, s₂, rfl, he, hadmitted⟩ := implementsWith_append_iff.mp hadmitted
  obtain ⟨um, u₃, s₃, rfl, hmi, hadmitted⟩ := implementsWith_append_iff.mp hadmitted
  obtain ⟨up, u₄, s₄, rfl, hpi, hadmitted⟩ := implementsWith_append_iff.mp hadmitted
  obtain ⟨un, ud, s₅, rfl, hni, hdi⟩ := implementsWith_append_iff.mp hadmitted
  obtain ⟨hpermitted, hcommittedLookups⟩ := permitted_of_committed hcommitted hlast
  have hbound : Run (httpRequestDigest g.engine request (some g.config.maxBodyBytes)) d
      (.ok (extracted.envelope.view.requestDigest.getD "")) := by
    have hrequired : (g.handling request extracted correlationId).options.requireRequestDigest
        ≠ some false := by simp [handling, middlewareOptions]
    rw [Handling.RequestBound, if_pos hrequired] at hd
    obtain ⟨digest, hdigest, hrun⟩ := hd
    have hexpected : extracted.envelope.view.requestDigest = some digest :=
      (Option.filter_eq_some_iff.mp hdigest).1
    rw [hexpected]
    exact hrun
  refine ⟨ut ++ ue, um, up, un, ud ++ uc, ?_, ?_, ?_, verified_of_reusable rfl hm hmi, ?_,
    verified_of_envelope rfl hn hni, ?_, ?_⟩
  · simp only [List.append_assoc]
  · obtain ⟨values, x, y, rfl, hx, hy⟩ := run_bind_ok_iff.mp hextracted
    obtain ⟨-, hvalues⟩ := run_ofExcept_iff.mp hx
    obtain ⟨conformed, x, z, rfl, hx, hz⟩ := run_bind_ok_iff.mp hy
    obtain ⟨-, hconforming⟩ := run_ofExcept_iff.mp hx
    obtain ⟨-, x, z, rfl, -, hz⟩ := run_bind_ok_iff.mp hz
    cases (run_pure_iff.mp hz).2
    exact ⟨values, hvalues.symm, hconforming.symm⟩
  · rw [lookups_append, lookups_implements ht (not_isPolicy_of_routine routine_correlation
      hcorrelated), lookups_implements he (not_isPolicy_of_routine routine_extractRequest
      hextracted)]
    rfl
  · cases hparent : (g.handling request extracted correlationId).extracted.parentMandate with
    | none =>
      rw [Handling.ParentVerified, hparent] at hp
      obtain ⟨rfl, hresult⟩ := hp
      cases hpi
      exact ⟨rfl, hresult⟩
    | some parent =>
      rw [Handling.ParentVerified, hparent] at hp
      obtain ⟨r, hr, hverified⟩ := hp
      exact ⟨r, hr, verified_of_reusable rfl hverified hpi⟩
  · rw [lookups_append, hcommittedLookups,
      lookups_implements hdi (not_isPolicy_of_routine routine_httpRequestDigest hbound)]
    rfl
  · obtain ⟨previous, time, hload, hnow, hpermits⟩ := hpermitted
    exact ⟨previous, time, hload.mono (List.subset_append_right _ _),
      hnow.mono (List.subset_append_right _ _), hpermits⟩

/-- Behind an invocation of the gateway's handler is a decision. -/
theorem decision_of_allow {application : IncomingMessage → GatewayProg (Option HttpResponse)}
    (hcreated : g.createApplication = .ok application) {message : IncomingMessage}
    {trace : GatewayTrace} {context : OatiMiddlewareContext}
    (hreach : Reaches (application message) trace (.allow context)) :
    ∃ headers request extracted correlationId v evaluation before mandate parent envelope after,
      verificationHeaders [] message.headers = .ok headers ∧
      g.newRequest message.method (authorizedTarget message.url) headers = .ok request ∧
      g.Decision request (g.handling request extracted correlationId) v evaluation trace before
        mandate parent envelope after ∧
      context = (g.handling request extracted correlationId).context v evaluation := by
  obtain ⟨body, headers, request, t, u, s, rfl, hheaders, hrequest, hmiddleware, himplements⟩ :=
    allow_reaches hcreated hreach
  obtain ⟨correlationId, extracted, v, evaluation, hgate, hcontext⟩ := gate_of_reaches hmiddleware
  obtain ⟨before, mandate, parent, envelope, after, hdecision⟩ :=
    decision_of_gate hgate himplements
  refine ⟨headers, request, extracted, correlationId, v, evaluation,
    ⟨.requestBody, .ok body⟩ :: before, mandate, parent, envelope, after, hheaders, hrequest, ?_,
    hcontext⟩
  exact { hdecision with
    trace_eq := congrArg (⟨.requestBody, .ok body⟩ :: ·) hdecision.trace_eq
    before_eq := hdecision.before_eq }

end Gateway

end Oati.TypeScript

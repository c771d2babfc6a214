import Oati.TypeScript.EvaluatorSpec
import Oati.TypeScript.GatewaySpec

/-!
# The RWA controls at the gateway

The gateway hands `extensions.rwa` of the envelope to the evaluator as it came. What `checkRwa`
then requires of it is `RwaPermits`; whether that amounts to the controls of the mandate depends on
the types of three members, which the comparison of JavaScript and `includes` do not ask for.

* `RwaControls`: the approvals, the roles, the reserve and the claim are as the mandate asks.
* `RwaWellTyped`: the count and the minimum are numbers, and the roles are a list.
* `rwaControls_of_allow`: an allowed request keeps the controls exactly if it is well typed.
-/

namespace Oati.TypeScript

open Prog

/-- The context has the approvals and the roles that the mandate asks for, its supply stays within
the reserve, and its claim is valid after `now`. -/
structure RwaControls (engine : Engine) (limits : Record) (context : Option Value) (now : ℤ) :
    Prop where
  approvals : ∃ count minimum, get context "approval_count" = some (.num count) ∧
    toNumber engine (limits.lookup "minimum_approvals") = some minimum ∧ minimum ≤ count
  roles : ∃ roles, get context "approval_roles" = some (.arr roles) ∧
    ∀ role ∈ stringArray (limits.lookup "required_roles"), includes roles (.str role) = true
  reserve : ∃ quantity supply reserve, get context "quantity" = some (.str quantity) ∧
    get context "current_supply" = some (.str supply) ∧
    get context "reserve" = some (.str reserve) ∧ SumAtMost supply quantity reserve
  claim : ∃ validUntil,
    dateParse engine (optionText engine (get context "claim_valid_until")) = some validUntil ∧
    now < validUntil

/-- The members that `checkRwa` compares without asking for their types have them. -/
structure RwaWellTyped (engine : Engine) (limits : Record) (context : Option Value) : Prop where
  count : ∃ count, get context "approval_count" = some (.num count)
  minimum : ∃ minimum, toNumber engine (limits.lookup "minimum_approvals") = some minimum
  roles : ∃ roles, get context "approval_roles" = some (.arr roles)

theorem timestamp_eq_ok {engine : Engine} {value : String} {t : ℤ} :
    timestamp engine value = .ok t ↔ dateParse engine value = some t := by
  rw [timestamp]
  split
  · next time htime => simp [htime]
  · next htime => simp [htime]

/-- What the evaluator permits keeps the controls exactly if it is well typed. -/
theorem RwaPermits.controls_iff {engine : Engine} {limits : Record} {envelope : TransactionEnvelope}
    {context : Option Value} {usage : Usage} {hasMintedSupply : Bool} {now : ℤ}
    (h : RwaPermits engine limits envelope context usage hasMintedSupply now) :
    RwaControls engine limits context now ↔ RwaWellTyped engine limits context := by
  constructor
  · rintro ⟨⟨count, minimum, hcount, hminimum, -⟩, ⟨roles, hroles, -⟩, -, -⟩
    exact ⟨⟨count, hcount⟩, ⟨minimum, hminimum⟩, ⟨roles, hroles⟩⟩
  · rintro ⟨⟨count, hcount⟩, ⟨minimum, hminimum⟩, ⟨roles, hroles⟩⟩
    refine ⟨⟨count, minimum, hcount, hminimum, ?_⟩, ⟨roles, hroles, ?_⟩, ?_, ?_⟩
    · have happrovals := h.approvals
      rw [hcount, hminimum] at happrovals
      simpa [toNumber, numberLt] using happrovals
    · intro role hrole
      have hincludes := h.roles role hrole
      rw [hroles] at hincludes
      exact Except.ok.inj hincludes
    · obtain ⟨supply, quantity, reserve, hsupply, hquantity, hreserve, hsum⟩ := h.supply.reserve
      exact ⟨quantity, supply, reserve, hquantity, hsupply, hreserve, hsum⟩
    · obtain ⟨t, ht, hnow⟩ := h.claim
      exact ⟨t, timestamp_eq_ok.mp ht, hnow⟩

namespace Gateway

variable {g : Gateway}

/-- The RWA data of an envelope is the context that the evaluator permits. -/
theorem Decision.rwaPermits {request : HttpRequest} {h : Handling} {v : Handling.Verifications}
    {evaluation : EvaluationResult} {trace before mandate parent envelope after : GatewayTrace}
    (hdecision : g.Decision request h v evaluation trace before mandate parent envelope after)
    (hengine : h.engine = g.engine) {rwa : Record}
    (hrwa : objectAt h.extracted.envelope.view.extensions "rwa" = some rwa) :
    ∃ limits previous time now, objectAt h.extracted.mandate.view.extensions "rwa" = some limits ∧
      Answered trace (.middleware .now) (.ok (some time)) ∧
      timestamp g.engine (isoText time) = .ok now ∧
      RwaPermits g.engine limits h.extracted.envelope.view (some (.obj rwa))
        (normalizedUsage previous) previous.mintedSupply.isSome now := by
  obtain ⟨previous, time, -, hnow, hallowed⟩ := hdecision.permitted
  have hcontext : (g.evaluationExtensions h.extracted).rwa = some (.obj rwa) := by
    obtain ⟨members, hmembers, hrwa⟩ := Option.bind_eq_some_iff.mp hrwa
    obtain ⟨value, hvalue, hrwa⟩ := Option.bind_eq_some_iff.mp hrwa
    obtain rfl := Json.members?_eq_some.mp hrwa
    have hmember : h.extracted.envelope.view.extensions.bind (·.lookup "rwa")
        = some (.obj rwa) := by
      rw [hmembers]
      exact hvalue
    simp only [evaluationExtensions, hmember]
    rfl
  have hpermits := (evaluateAuthority_allow_iff.mp hallowed).1
  rw [hengine] at hpermits
  obtain ⟨now, hpermits⟩ := hpermits
  have hrequest : (h.evaluationRequest (compactExtensions (g.evaluationExtensions h.extracted))
      previous.snapshot (isoText time)).rwa = some (.obj rwa) := hcontext
  have hneeds : needsRwa (h.evaluationRequest (compactExtensions
      (g.evaluationExtensions h.extracted)) previous.snapshot (isoText time)) = true := by
    rw [needsRwa, hrequest]
    rfl
  obtain ⟨-, limits, hlimits, hpermitted⟩ := hpermits.rwa hneeds
  rw [hrequest] at hpermitted
  refine ⟨limits, previous.snapshot, time, now, hlimits, ?_, hpermits.time, hpermitted⟩
  rw [hdecision.trace_eq]
  exact hnow.mono fun _ hx => by simp [hx]

/-- A request with RWA data is only allowed under a mandate with RWA terms, and it keeps the
controls of these at the time of its evaluation exactly if its data is well typed. -/
theorem rwaControls_of_allow
    {application : IncomingMessage → GatewayProg (Option HttpResponse)}
    (hcreated : g.createApplication = .ok application) {message : IncomingMessage}
    {trace : GatewayTrace} {context : OatiMiddlewareContext}
    (hreach : Reaches (application message) trace (.allow context)) {rwa : Record}
    (hrwa : objectAt context.envelope.view.extensions "rwa" = some rwa) :
    ∃ limits time now, objectAt context.mandate.view.extensions "rwa" = some limits ∧
      Answered trace (.middleware .now) (.ok (some time)) ∧
      timestamp g.engine (isoText time) = .ok now ∧
      (RwaControls g.engine limits (some (.obj rwa)) now ↔
        RwaWellTyped g.engine limits (some (.obj rwa))) := by
  obtain ⟨headers, request, extracted, correlationId, v, evaluation, before, mandate, parent,
    envelope, after, -, -, hdecision, rfl⟩ := decision_of_allow hcreated hreach
  obtain ⟨limits, previous, time, now, hlimits, hnow, htime, hpermits⟩ :=
    hdecision.rwaPermits rfl hrwa
  exact ⟨limits, time, now, hlimits, hnow, htime, hpermits.controls_iff⟩

end Gateway

end Oati.TypeScript

import Oati.TypeScript.Codes
import Oati.TypeScript.Delegation

/-!
# What one request shows of a chain of mandates

A request carries its mandate and the parent of that mandate, so one link of a chain is evaluated
at a time. The links above the parent are evaluated in the requests that are made under them.

* `evaluated_links_narrow`: an allowed request shows its own link to be narrowing, an allowed
  request of its parent the next one, and a request without its parent is denied.
* `unseenLink_allowed`: a parent that widened what it was given is not found out by its child.
-/

namespace Oati.TypeScript

variable {engine : Engine}

/-! ### One link -/

/-- The link that an allowed request spends adds no reason. -/
theorem checkChildMandate_of_allow {request : EvaluationRequest} {parent : AgentMandate}
    {result : EvaluationResult} {now : ℤ}
    (htime : timestamp engine request.evaluationTime = .ok now)
    (hparent : request.parentMandate = some parent)
    (h : evaluateAuthority engine request = .ok result) (hallow : result.decision = .allow) :
    checkChildMandate engine request.mandate parent (request.delegationDepth.getD 1) now []
      = .ok [] := by
  obtain ⟨⟨now', hpermits⟩, -⟩ := evaluateAuthority_allow_iff.mp ⟨h, hallow⟩
  have hnow : now = now' := Except.ok.inj (htime.symm.trans hpermits.time)
  have hlink := hpermits.link
  rw [LinkPermits, hparent] at hlink
  rw [hnow]
  exact checkChildMandate_eq_nil.mpr ⟨rfl, hlink⟩

/-- A reason of `checkMandate` that no later check adds stays to the end. -/
theorem mem_checkAuthority {request : EvaluationRequest} {now : ℤ} {first reasons : Reasons}
    {code : String} (htime : timestamp engine request.evaluationTime = .ok now)
    (hfirst : checkMandate engine request now = .ok first)
    (h : checkAuthority engine request = .ok reasons)
    (hcode : code ∉ ["CONSUMPTION_CONTEXT_MISMATCH", "MANDATE_ALREADY_CONSUMED",
      "IDEMPOTENCY_REPLAY", "CALL_LIMIT_EXCEEDED", "QUANTITY_LIMIT_EXCEEDED",
      "BUDGET_CURRENCY_MISMATCH", "BUDGET_EXCEEDED"] ++ commerceCodes ++ rwaCodes) :
    code ∈ reasons ↔ code ∈ first := by
  simp only [List.mem_append, not_or] at hcode
  obtain ⟨⟨hconsumption, hcommerce⟩, hrwa⟩ := hcode
  simp only [List.mem_cons, List.not_mem_nil, or_false, not_or] at hconsumption
  simp only [checkAuthority, bind_eq_ok] at h
  obtain ⟨now', htime', first', hfirst', limited, hlimited, priced, hpriced, hlast⟩ := h
  have hnow : now = now' := Except.ok.inj (htime.symm.trans htime')
  subst hnow
  have hsame : first = first' := Except.ok.inj (hfirst.symm.trans hfirst')
  rw [mem_checkRwaTerms hlast hrwa, mem_checkCommerceTerms hpriced hcommerce,
    mem_checkConsumption hlimited (by simp [hconsumption]),
    mem_checkConsumptionContext hconsumption.1, hsame]

/-- A delegated mandate without its parent gets the reason. -/
theorem mem_checkMandate_of_orphan {request : EvaluationRequest} {now : ℤ} {first : Reasons}
    {id : String} (hparent : request.parentMandate = none)
    (hid : request.mandate.parentMandate = some id) (hne : id ≠ "")
    (h : checkMandate engine request now = .ok first) : "PARENT_MANDATE_REQUIRED" ∈ first := by
  simp only [checkMandate, bind_eq_ok, hparent, hid, pure_eq_ok] at h
  obtain ⟨_, -, _, -, rfl⟩ := h
  exact Reasons.mem_addIf_self.mpr (.inl (by simpa using hne))

/-- A request under a delegated mandate that leaves out the parent is denied. -/
theorem deny_of_orphan {request : EvaluationRequest} {result : EvaluationResult} {id : String}
    (hparent : request.parentMandate = none) (hid : request.mandate.parentMandate = some id)
    (hne : id ≠ "") (h : evaluateAuthority engine request = .ok result) :
    result.decision = .deny ∧ "PARENT_MANDATE_REQUIRED" ∈ result.reasonCodes := by
  simp only [evaluateAuthority, bind_eq_ok, pure_eq_ok] at h
  obtain ⟨reasons, hreasons, next, -, rfl⟩ := h
  have hauthority := hreasons
  simp only [checkAuthority, bind_eq_ok] at hauthority
  obtain ⟨now, htime, first, hfirst, -⟩ := hauthority
  have hcode := (mem_checkAuthority htime hfirst hreasons (by decide)).mpr
    (mem_checkMandate_of_orphan hparent hid hne hfirst)
  have hsorted := mem_sortStrings.mpr hcode
  exact ⟨if_neg (List.ne_nil_of_mem hsorted), hsorted⟩

/-! ### Two links -/

/-- An allowed request shows the link from its mandate to the supplied parent to be narrowing.
The link from the parent to its own parent is shown by an allowed request of the parent; one
that leaves that parent out is denied. -/
theorem evaluated_links_narrow {request : EvaluationRequest} {parent : AgentMandate}
    {result : EvaluationResult} (hparent : request.parentMandate = some parent)
    (h : evaluateAuthority engine request = .ok result) (hallow : result.decision = .allow) :
    ∃ now, timestamp engine request.evaluationTime = .ok now ∧
      checkChildMandate engine request.mandate parent (request.delegationDepth.getD 1) now []
        = .ok [] ∧
      (∀ (upper : EvaluationRequest) (grand : AgentMandate) (answer : EvaluationResult),
        upper.mandate = parent → upper.parentMandate = some grand →
        upper.delegationDepth.getD 1 = 1 → upper.evaluationTime = request.evaluationTime →
        evaluateAuthority engine upper = .ok answer → answer.decision = .allow →
        checkChildMandate engine parent grand 1 now [] = .ok []) ∧
      ∀ (upper : EvaluationRequest) (id : String) (answer : EvaluationResult),
        upper.mandate = parent → upper.parentMandate = none →
        parent.parentMandate = some id → id ≠ "" →
        evaluateAuthority engine upper = .ok answer →
        answer.decision = .deny ∧ "PARENT_MANDATE_REQUIRED" ∈ answer.reasonCodes := by
  obtain ⟨⟨now, hpermits⟩, -⟩ := evaluateAuthority_allow_iff.mp ⟨h, hallow⟩
  refine ⟨now, hpermits.time, checkChildMandate_of_allow hpermits.time hparent h hallow, ?_, ?_⟩
  · intro upper grand answer hmandate hgrand hdepth htime heval hanswer
    have hupper := checkChildMandate_of_allow (htime ▸ hpermits.time) hgrand heval hanswer
    rwa [hmandate, hdepth] at hupper
  · intro upper id answer hmandate hnone hid hne heval
    exact deny_of_orphan hnone (hmandate ▸ hid) hne heval

/-- The clerk places the broker's order under the mandate of `buyer`. -/
def clerkOrder (buyer : AgentMandate) : EvaluationRequest :=
  { brokerOrder with
    mandate := clerkMandate
    parentMandate := some buyer
    envelope :=
      { brokerOrder.envelope with
        agentId := "oati:agent:clerk", mandateId := "oati:mandate:clerk" } }

theorem evaluated_links_narrow_clerk :
    ∃ now, timestamp plainEngine brokerOrder.evaluationTime = .ok now ∧
      checkChildMandate plainEngine clerkMandate buyerMandate 1 now [] = .ok [] ∧
      checkChildMandate plainEngine buyerMandate brokerMandate 1 now [] = .ok [] := by
  have hclerk : evaluateAuthority plainEngine (clerkOrder buyerMandate)
      = .ok { orderResult with mandateId := "oati:mandate:clerk" } := by
    decide +kernel
  have hbuyer : evaluateAuthority plainEngine buyerOrder
      = .ok { orderResult with mandateId := "oati:mandate:buyer" } := by
    decide +kernel
  obtain ⟨now, htime, hlower, hupper, -⟩ := evaluated_links_narrow rfl hclerk rfl
  exact ⟨now, htime, hlower, hupper buyerOrder brokerMandate _ rfl rfl rfl rfl hbuyer rfl⟩

/-- The buyer's mandate with more calls than the broker's. -/
def widenedMandate : AgentMandate := { buyerMandate with limits := some [("max_calls", .num 99)] }

/-- The clerk's order is allowed under it, although its link to the broker's mandate adds a
reason. -/
theorem unseenLink_allowed :
    clerkMandate.parentMandate = some widenedMandate.id ∧
      widenedMandate.parentMandate = some brokerMandate.id ∧
      evaluateAuthority plainEngine (clerkOrder widenedMandate)
        = .ok { orderResult with mandateId := "oati:mandate:clerk" } ∧
      timestamp plainEngine brokerOrder.evaluationTime = .ok 1780315200000 ∧
      checkChildMandate plainEngine widenedMandate brokerMandate 1 1780315200000 []
        = .ok ["CHILD_LIMIT_AMPLIFICATION"] := by
  refine ⟨rfl, rfl, ?_, ?_, ?_⟩ <;> decide +kernel

end Oati.TypeScript

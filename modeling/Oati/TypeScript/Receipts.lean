import Oati.TypeScript.CanonicalSpec
import Oati.TypeScript.MiddlewareSpec

/-!
# What the emitted receipts say

The middleware emits a receipt in eight places, and an error behind one of them is answered
without another. The emitted receipt is what the signer returned, after a comparison of its
canonical text with the draft.

* `Recorded`: the canonical text of the receipt without its proof is that of a draft; its
  members are then the draft's.
* `Truthful`: the draft is that of this request, its decision says whether the handler was
  invoked, and its outcome what became of it.
* `receipts_truthful`: at most one receipt is emitted, and it is truthful.
-/

namespace Oati.TypeScript

open Prog

/-! ### The comparison with the draft -/

/-- The receipt without its proof has the canonical text of a draft with this context and
outcome. -/
def Recorded (engine : Engine) (options : OatiMiddlewareOptions) (receipt : ActionReceipt)
    (context : OatiMiddlewareContext) (outcome : ReceiptOutcome) : Prop :=
  ∃ id time text,
    canonicalJson engine (.obj (receipt.members.filter fun m => m.1 != "proof")) = .ok text ∧
    canonicalJson engine (.obj (("oati_version", .str "1.0")
      :: receiptDraft options context outcome id (isoText time))) = .ok text

theorem checkReceipt_eq_ok {engine : Engine} {draft : ReceiptDraft} {receipt : ActionReceipt}
    (h : checkReceipt engine draft receipt = .ok ()) :
    ∃ text, canonicalJson engine (.obj (receipt.members.filter fun m => m.1 != "proof"))
        = .ok text ∧
      canonicalJson engine (.obj (("oati_version", .str "1.0") :: draft)) = .ok text := by
  obtain ⟨signed, hsigned, h⟩ := bind_eq_ok.mp h
  obtain ⟨drafted, hdrafted, h⟩ := bind_eq_ok.mp h
  split_ifs at h with hsame
  exact ⟨signed, hsigned, hsame ▸ hdrafted⟩

/-! ### The members of a receipt -/

theorem optionalMember_cases (key : String) (value : Option String) :
    optionalMember key value = [] ∨ ∃ s, optionalMember key value = [(key, .str s)] := by
  unfold optionalMember
  split
  · exact .inr ⟨_, rfl⟩
  · exact .inl rfl

/-- A draft has one member of a name. -/
theorem distinct_receiptDraft (options : OatiMiddlewareOptions) (context : OatiMiddlewareContext)
    (outcome : ReceiptOutcome) (id occurredAt : String) :
    (Json.obj (("oati_version", .str "1.0")
      :: receiptDraft options context outcome id occurredAt) : Value).Distinct := by
  have hcodes : Json.ItemsDistinct (context.evaluation.reasonCodes.map Json.str : List Value) := by
    rw [Json.itemsDistinct_iff]
    intro v hv
    obtain ⟨code, -, rfl⟩ := List.mem_map.mp hv
    trivial
  unfold receiptDraft
  rcases optionalMember_cases "request_digest" context.envelope.view.requestDigest
    with hdigest | ⟨digest, hdigest⟩ <;>
  rcases optionalMember_cases "commercial_profile" context.envelope.view.commercialProfile
    with hprofile | ⟨profile, hprofile⟩ <;>
  rcases optionalMember_cases "counterparty_organisation_id" context.envelope.view.counterparty
    with hcounterparty | ⟨counterparty, hcounterparty⟩ <;>
  simp [hdigest, hprofile, hcounterparty, Json.Distinct, Json.MembersDistinct, hcodes]

/-- A draft has no numbers. -/
theorem numbers_receiptDraft (options : OatiMiddlewareOptions) (context : OatiMiddlewareContext)
    (outcome : ReceiptOutcome) (id occurredAt : String) :
    (Json.obj (("oati_version", .str "1.0")
      :: receiptDraft options context outcome id occurredAt) : Value).numbers = [] := by
  have hcodes : Json.itemNumbers (context.evaluation.reasonCodes.map Json.str : List Value)
      = [] := by
    rw [List.eq_nil_iff_forall_not_mem]
    intro q hq
    obtain ⟨v, hv, hqv⟩ := Json.mem_itemNumbers.mp hq
    obtain ⟨code, -, rfl⟩ := List.mem_map.mp hv
    cases hqv
  unfold receiptDraft
  rcases optionalMember_cases "request_digest" context.envelope.view.requestDigest
    with hdigest | ⟨digest, hdigest⟩ <;>
  rcases optionalMember_cases "commercial_profile" context.envelope.view.commercialProfile
    with hprofile | ⟨profile, hprofile⟩ <;>
  rcases optionalMember_cases "counterparty_organisation_id" context.envelope.view.counterparty
    with hcounterparty | ⟨counterparty, hcounterparty⟩ <;>
  simp [hdigest, hprofile, hcounterparty, Json.numbers, Json.memberNumbers, hcodes]

/-- Leaving out members of other names changes nothing at a name. -/
theorem lookup_filter_ne {members : Record} {field other : String} (h : field ≠ other) :
    (members.filter fun m => m.1 != other).lookup field = members.lookup field := by
  rw [List.lookup_filter_key (· != other), if_pos (bne_iff_ne.mpr h)]

/-- A text that the draft says is a member of the receipt, if the receipt is a JSON value whose
numbers are written as ECMAScript writes them. -/
theorem lookup_of_sameText {engine : Engine} {receipt : ActionReceipt} {draft : Record}
    {text field s : String} (hdistinct : (Json.obj receipt.members).Distinct)
    (hnumbers : PrintsNumbers engine (.obj receipt.members))
    (hdraft : (Json.obj draft : Value).Distinct) (hnone : (Json.obj draft : Value).numbers = [])
    (hsigned : canonicalJson engine (.obj (receipt.members.filter fun m => m.1 != "proof"))
      = .ok text)
    (hdrafted : canonicalJson engine (.obj draft) = .ok text)
    (hmem : (field, Json.str s) ∈ draft) (hproof : field ≠ "proof") (hproto : field ≠ PROTO) :
    receipt.members.lookup field = some (.str s) := by
  obtain ⟨hnames, hvalues⟩ := hdistinct
  have hunsigned : (Json.obj (receipt.members.filter fun m => m.1 != "proof")).Distinct := by
    refine ⟨hnames.sublist (List.filter_sublist.map _), Json.membersDistinct_iff.mpr ?_⟩
    exact fun m hm => Json.membersDistinct_iff.mp hvalues m (List.mem_of_mem_filter hm)
  have hprints : PrintsNumbers engine
      (.obj (receipt.members.filter fun m => m.1 != "proof")) := by
    intro q hq
    refine hnumbers q ?_
    rw [Json.numbers, Json.mem_memberNumbers] at hq ⊢
    obtain ⟨m, hm, hqm⟩ := hq
    exact ⟨m, List.mem_of_mem_filter hm, hqm⟩
  have hsame := (canonicalJson_eq_iff hdraft hunsigned
    (fun q hq => by rw [hnone] at hq; cases hq) hprints hdrafted hsigned).mp rfl
  obtain ⟨-, hmembers⟩ := Json.same_obj.mp hsame
  obtain ⟨w, hw, hsw⟩ := hmembers (field, .str s) (by
    rw [Json.withoutMembers_eq_map, List.mem_map]
    exact ⟨(field, .str s), List.mem_filter.mpr ⟨hmem, by simpa using hproto⟩, rfl⟩)
  rw [Json.lookup_withoutMembers hproto, lookup_filter_ne hproof, Option.map_eq_some_iff] at hw
  obtain ⟨v, hv, rfl⟩ := hw
  cases v with
  | str t =>
    have hst : s = t := by simpa [Json.Same, Json.without, Json.equalBy, Json.scalarEq] using hsw
    rw [hv, hst]
  | _ => simp [Json.Same, Json.without, Json.equalBy, Json.scalarEq] at hsw

/-- What is recorded is a member of the receipt. -/
theorem Recorded.lookup {engine : Engine} {options : OatiMiddlewareOptions}
    {receipt : ActionReceipt} {context : OatiMiddlewareContext} {outcome : ReceiptOutcome}
    (h : Recorded engine options receipt context outcome)
    (hdistinct : (Json.obj receipt.members).Distinct)
    (hnumbers : PrintsNumbers engine (.obj receipt.members)) :
    receipt.members.lookup "transaction_id" = some (.str context.transactionId) ∧
      receipt.members.lookup "mandate_id" = some (.str context.mandate.view.id) ∧
      receipt.members.lookup "decision" = some (.str context.evaluation.decision.name) ∧
      receipt.members.lookup "outcome" = some (.str outcome.name) := by
  obtain ⟨id, time, text, hsigned, hdrafted⟩ := h
  have hlookup : ∀ field s, (field, Json.str s) ∈ (("oati_version", .str "1.0")
      :: receiptDraft options context outcome id (isoText time) : Record) → field ≠ "proof" →
      field ≠ PROTO → receipt.members.lookup field = some (.str s) := fun field s hmem =>
    lookup_of_sameText hdistinct hnumbers (distinct_receiptDraft _ _ _ _ _)
      (numbers_receiptDraft _ _ _ _ _) hsigned hdrafted hmem
  refine ⟨?_, ?_, ?_, ?_⟩
  · exact hlookup _ _ (by simp [receiptDraft]) (by decide) (by decide)
  · exact hlookup _ _ (by simp [receiptDraft]) (by decide) (by decide)
  · exact hlookup _ _ (by simp [receiptDraft]) (by decide) (by decide)
  · exact hlookup _ _ (by simp [receiptDraft]) (by decide) (by decide)

/-! ### One receipt -/

/-- The handler was invoked. -/
def Invoked (trace : MiddlewareTrace) : Prop := ∃ event ∈ trace, isNext event.call = true

/-- The handler returned a response with a status below 400. -/
def Served (trace : MiddlewareTrace) : Prop :=
  ∃ context response, Answered trace (.next context) (.ok response) ∧ response.status < 400

/-- The outcome that `allowedReceiptOutcome` gives to a response without an error. -/
def allowedOutcome (options : OatiMiddlewareOptions) : ReceiptOutcome :=
  options.allowedReceiptOutcome.getD .succeeded

/-- An emitted receipt is that of the context, with the outcome. -/
def EmitsFor (engine : Engine) (options : OatiMiddlewareOptions) (context : OatiMiddlewareContext)
    (outcome : ReceiptOutcome) (c : MiddlewareCall) : Prop :=
  ∃ receipt, c = .emitReceipt receipt context ∧ Recorded engine options receipt context outcome

/-- The program emits at most one receipt, that of the context with the outcome, and does not
invoke the handler. -/
structure EmitsOnly (engine : Engine) (options : OatiMiddlewareOptions)
    (context : OatiMiddlewareContext) (outcome : ReceiptOutcome) {α : Type}
    (p : MiddlewareProg α) : Prop where
  once : AtMost isEmit 1 p
  unhandled : Avoids (fun c => isNext c = true) p
  each : Each (fun c => isEmit c = true)
    (fun _ c => EmitsFor engine options context outcome c) p

theorem dependsOn_emitsFor {engine : Engine} {options : OatiMiddlewareOptions}
    {context : OatiMiddlewareContext} {outcome : ReceiptOutcome} :
    DependsOn (A := MiddlewareAnswer) (E := JsError) (fun c => isNext c = true)
      fun _ c => EmitsFor engine options context outcome c :=
  fun _ _ _ _ h => ⟨h, h⟩

section Emission

variable {engine : Engine} {schemas : Schemas} {options : OatiMiddlewareOptions}
  {context : OatiMiddlewareContext} {outcome : ReceiptOutcome} {α β : Type}

theorem EmitsOnly.of_quiet {p : MiddlewareProg α} (hp : Quiet p) :
    EmitsOnly engine options context outcome p :=
  ⟨hp.emit.atMost 1, hp.noCommit.next, hp.emit.each⟩

theorem EmitsOnly.bind_right {p : MiddlewareProg α} {f : α → MiddlewareProg β} (hp : Quiet p)
    (hf : ∀ a, EmitsOnly engine options context outcome (f a)) :
    EmitsOnly engine options context outcome (p >>= f) where
  once := hp.emit.atMost_bind fun a => (hf a).once
  unhandled := hp.noCommit.next.bind fun a => (hf a).unhandled
  each := Each.bind_right dependsOn_emitsFor hp.emit hp.noCommit.next fun a => (hf a).each

theorem EmitsOnly.bind_left {p : MiddlewareProg α} {f : α → MiddlewareProg β}
    (hp : EmitsOnly engine options context outcome p) (hf : ∀ a, Quiet (f a)) :
    EmitsOnly engine options context outcome (p >>= f) where
  once := hp.once.bind_avoids fun a => (hf a).emit
  unhandled := hp.unhandled.bind fun a => (hf a).noCommit.next
  each := Each.bind_left dependsOn_emitsFor hp.each (fun a => (hf a).emit)
    fun a => (hf a).noCommit.next

theorem EmitsOnly.attempt {p : MiddlewareProg α} (hp : EmitsOnly engine options context outcome p) :
    EmitsOnly engine options context outcome p.attempt :=
  ⟨hp.once.attempt, hp.unhandled.attempt, hp.each.attempt⟩

theorem quiet_ofExcept (result : Except JsError α) : Quiet (ofExcept result : MiddlewareProg α) :=
  avoids_ofExcept _

/-- The emission itself, behind the comparison. -/
theorem emitsOnly_emitReceipt {receipt : ActionReceipt}
    (h : Recorded engine options receipt context outcome) :
    EmitsOnly engine options context outcome (emitReceipt options receipt context) := by
  rw [emitReceipt]
  split_ifs
  · exact ⟨atMost_perform _, avoids_perform Bool.false_ne_true,
      each_perform fun _ => ⟨receipt, rfl, h⟩⟩
  · exact .of_quiet (avoids_pure _)

/-- What follows the result of a pure computation may assume that result. -/
theorem EmitsOnly.ofExcept_bind {result : Except JsError α} {f : α → MiddlewareProg β}
    (hf : ∀ a, result = .ok a → EmitsOnly engine options context outcome (f a)) :
    EmitsOnly engine options context outcome (ofExcept result >>= f) := by
  cases result with
  | error e => exact .of_quiet (avoids_throw e)
  | ok a => exact hf a rfl

theorem emitsOnly_issueReceipt {time : Option ℤ} :
    EmitsOnly engine options context outcome
      (issueReceipt engine schemas options context outcome time) := by
  refine .bind_right quiet_receiptId fun id => .ofExcept_bind fun occurredAt hoccurred => ?_
  refine .bind_right (quiet_perform rfl) fun signed => .bind_right (quiet_ofExcept _) fun receipt =>
    .ofExcept_bind fun _ hchecked => ?_
  obtain ⟨text, hsigned, hdrafted⟩ := checkReceipt_eq_ok hchecked
  cases time with
  | none => cases hoccurred
  | some time =>
    cases hoccurred
    exact (emitsOnly_emitReceipt ⟨id, time, text, hsigned, hdrafted⟩).bind_left fun _ => avoids_pure _

theorem emitsOnly_receiptResponse {status : ℕ} {time : Option ℤ} {code : OatiErrorCode} :
    EmitsOnly engine options context outcome
      (receiptResponse engine schemas options context outcome status time code) :=
  emitsOnly_issueReceipt.bind_left fun _ => (avoids_ofExcept _).bind fun _ => avoids_ofExcept _

end Emission

/-! ### The receipts of a request -/

namespace Handling

variable {h : Handling}

/-- The receipt is a truthful one of this request. -/
structure Truthful (h : Handling) (trace : MiddlewareTrace) (receipt : ActionReceipt)
    (context : OatiMiddlewareContext) (outcome : ReceiptOutcome) : Prop where
  request : context.request = h.request ∧ context.envelope = h.extracted.envelope ∧
    context.mandate = h.extracted.mandate ∧ context.parentMandate = h.extracted.parentMandate ∧
    context.correlationId = h.correlationId ∧
    context.transactionId = h.extracted.envelope.view.id
  recorded : Recorded h.engine h.options receipt context outcome
  decision : context.evaluation.decision = .allow ↔ Invoked trace
  denied : ¬ Invoked trace → outcome = .denied
  served : outcome = .succeeded ∨ outcome = allowedOutcome h.options → Served trace

/-- The call emits a truthful receipt. -/
def EmitsTruth (h : Handling) (trace : MiddlewareTrace) (c : MiddlewareCall) : Prop :=
  ∃ receipt context outcome, c = .emitReceipt receipt context ∧
    h.Truthful trace receipt context outcome

/-- The program emits at most one receipt, and a truthful one. -/
structure Reports (h : Handling) {α : Type} (p : MiddlewareProg α) : Prop where
  once : AtMost isEmit 1 p
  each : Each (fun c => isEmit c = true) h.EmitsTruth p

theorem invoked_append {t u : MiddlewareTrace} (ht : ∀ event ∈ t, ¬ isNext event.call = true) :
    (Invoked (t ++ u) ↔ Invoked u) ∧ (Invoked (u ++ t) ↔ Invoked u) := by
  have hnone : ¬ Invoked t := fun ⟨event, hmem, hcall⟩ => ht event hmem hcall
  have happend : ∀ a b : MiddlewareTrace, Invoked (a ++ b) ↔ Invoked a ∨ Invoked b := by
    intro a b
    simp only [Invoked, List.mem_append, or_and_right, exists_or]
  exact ⟨by rw [happend, or_iff_right hnone], by rw [happend, or_iff_left hnone]⟩

theorem served_mono {t u : MiddlewareTrace} (h : Served t) (hsub : t ⊆ u) : Served u := by
  obtain ⟨context, response, hanswered, hstatus⟩ := h
  exact ⟨context, response, hanswered.mono hsub, hstatus⟩

theorem dependsOn_emitsTruth :
    DependsOn (A := MiddlewareAnswer) (E := JsError) (fun c => isNext c = true) h.EmitsTruth := by
  rintro t u c ht ⟨receipt, context, outcome, hc, htruth⟩
  obtain ⟨hleft, hright⟩ := @invoked_append t u ht
  refine ⟨⟨receipt, context, outcome, hc, htruth.request, htruth.recorded, ?_, ?_, ?_⟩,
    ⟨receipt, context, outcome, hc, htruth.request, htruth.recorded, ?_, ?_, ?_⟩⟩
  · rw [hleft]; exact htruth.decision
  · rw [hleft]; exact htruth.denied
  · exact fun houtcome => served_mono (htruth.served houtcome) (List.subset_append_right t u)
  · rw [hright]; exact htruth.decision
  · rw [hright]; exact htruth.denied
  · exact fun houtcome => served_mono (htruth.served houtcome) (List.subset_append_left u t)

theorem Reports.of_quiet {α : Type} {p : MiddlewareProg α} (hp : Quiet p) : h.Reports p :=
  ⟨hp.emit.atMost 1, hp.emit.each⟩

/-- A first part that neither emits nor invokes. -/
theorem Reports.bind_right {α β : Type} {p : MiddlewareProg α} {f : α → MiddlewareProg β}
    (hemit : Avoids (fun c => isEmit c = true) p) (hnext : Avoids (fun c => isNext c = true) p)
    (hf : ∀ a, h.Reports (f a)) : h.Reports (p >>= f) where
  once := hemit.atMost_bind fun a => (hf a).once
  each := Each.bind_right dependsOn_emitsTruth hemit hnext fun a => (hf a).each

theorem Reports.quiet_bind {α β : Type} {p : MiddlewareProg α} {f : α → MiddlewareProg β}
    (hp : Quiet p) (hf : ∀ a, h.Reports (f a)) : h.Reports (p >>= f) :=
  .bind_right hp.emit hp.noCommit.next hf

theorem Reports.attempt {α : Type} {p : MiddlewareProg α} (hp : h.Reports p) :
    h.Reports p.attempt := ⟨hp.once.attempt, hp.each.attempt⟩

theorem Reports.bind_left {α β : Type} {p : MiddlewareProg α} {f : α → MiddlewareProg β}
    (hp : h.Reports p) (hf : ∀ a, Quiet (f a)) : h.Reports (p >>= f) where
  once := hp.once.bind_avoids fun a => (hf a).emit
  each := Each.bind_left dependsOn_emitsTruth hp.each (fun a => (hf a).emit)
    fun a => (hf a).noCommit.next

theorem Reports.ite {α : Type} {c : Prop} [Decidable c] {p q : MiddlewareProg α}
    (hp : h.Reports p) (hq : h.Reports q) : h.Reports (if c then p else q) :=
  ⟨hp.once.ite hq.once, hp.each.ite hq.each⟩

/-! ### The stages -/

/-- The context is that of this request, up to the evaluation. -/
def IsContext (h : Handling) (context : OatiMiddlewareContext) : Prop :=
  context.request = h.request ∧ context.envelope = h.extracted.envelope ∧
    context.mandate = h.extracted.mandate ∧ context.parentMandate = h.extracted.parentMandate ∧
    context.correlationId = h.correlationId ∧
    context.transactionId = h.extracted.envelope.view.id

theorem isContext_context (v : Verifications) (evaluation : EvaluationResult) :
    h.IsContext (h.context v evaluation) := ⟨rfl, rfl, rfl, rfl, rfl, rfl⟩

/-- The options are those the type of `allowedReceiptOutcome` admits. -/
def AllowedOptions (options : OatiMiddlewareOptions) : Prop :=
  ∀ outcome, options.allowedReceiptOutcome = some outcome →
    outcome = .succeeded ∨ outcome = .pending

theorem allowedOutcome_cases (hoptions : AllowedOptions h.options) :
    allowedOutcome h.options = .succeeded ∨ allowedOutcome h.options = .pending := by
  unfold allowedOutcome
  cases houtcome : h.options.allowedReceiptOutcome with
  | none => exact .inl rfl
  | some outcome => exact hoptions outcome houtcome

/-- A receipt with the outcome `denied` of a denied evaluation, without an invocation. -/
theorem reports_of_denied {α : Type} {p : MiddlewareProg α} {context : OatiMiddlewareContext}
    (hoptions : AllowedOptions h.options) (hcontext : h.IsContext context)
    (hdeny : context.evaluation.decision = .deny)
    (hp : EmitsOnly h.engine h.options context .denied p) : h.Reports p where
  once := hp.once
  each := by
    intro trace q hsteps event hevent hcall
    obtain ⟨receipt, hc, hrecorded⟩ := hp.each trace q hsteps event hevent hcall
    have hnot : ¬ Invoked trace := fun ⟨e, he, hnext⟩ => hp.unhandled trace q hsteps e he hnext
    refine ⟨receipt, context, .denied, hc, hcontext, hrecorded, ?_, fun _ => rfl, ?_⟩
    · rw [hdeny]
      exact iff_of_false (by decide) hnot
    · rintro (heq | heq)
      · cases heq
      · rcases allowedOutcome_cases hoptions with hallowed | hallowed <;>
          rw [hallowed] at heq <;> cases heq

theorem emitsOnly_refuse {context : OatiMiddlewareContext} {outcome : ReceiptOutcome} {status : ℕ}
    {code : OatiErrorCode} :
    EmitsOnly h.engine h.options context outcome (h.refuse context outcome status code) :=
  .bind_right (quiet_perform rfl) fun _ => emitsOnly_receiptResponse

theorem reports_refuse {context : OatiMiddlewareContext} {status : ℕ} {code : OatiErrorCode}
    (hoptions : AllowedOptions h.options) (hcontext : h.IsContext context)
    (hdeny : context.evaluation.decision = .deny) :
    h.Reports (h.refuse context .denied status code) :=
  reports_of_denied hoptions hcontext hdeny emitsOnly_refuse

theorem reports_denyVerification {verification : VerificationResult} {kind : OatiDocumentKind}
    {knownMandate knownParent : Option VerificationResult}
    (hoptions : AllowedOptions h.options) :
    h.Reports (h.denyVerification verification kind knownMandate knownParent) := by
  refine .quiet_bind (quiet_perform rfl) fun time => ?_
  refine reports_of_denied hoptions ?_ ?_
    (emitsOnly_receiptResponse.attempt.bind_left fun response => ?_)
  · exact ⟨rfl, rfl, rfl, rfl, rfl, rfl⟩
  · rfl
  · rcases response with e | response
    · exact avoids_ofExcept _
    · exact avoids_pure _

/-- Behind an invocation of the handler the decision is `allow`, and the outcome says what the
handler answered. -/
theorem reports_invoke {context : OatiMiddlewareContext} (hcontext : h.IsContext context)
    (hallow : context.evaluation.decision = .allow) (hoptions : AllowedOptions h.options) :
    h.Reports (h.invoke context) := by
  refine ⟨?_, ?_⟩
  · refine Avoids.atMost_bind (Avoids.attempt (avoids_perform Bool.false_ne_true))
      fun answer => ?_
    rcases answer with e | downstream
    · exact emitsOnly_refuse.once
    · exact (quiet_perform rfl).emit.atMost_bind fun _ =>
        emitsOnly_issueReceipt.once.bind_avoids fun _ => avoids_ofExcept _
  intro trace q hsteps event hevent hcall
  rcases steps_bind_iff.mp hsteps with ⟨p', hp', -⟩ | ⟨answer, t, u, rfl, ht, hu⟩
  · have hquiet : Avoids (fun c => isEmit c = true)
        (perform (A := MiddlewareAnswer) (E := JsError) (.next context)).attempt :=
      Avoids.attempt (avoids_perform Bool.false_ne_true)
    exact absurd hcall (hquiet _ _ hp' event hevent)
  · obtain ⟨_, rfl, hanswer⟩ := run_attempt_perform_iff.mp ht
    cases hanswer
    have hinvoked : Invoked ([⟨.next context, answer⟩] ++ u) :=
      ⟨⟨.next context, answer⟩, List.mem_append_left u (List.mem_singleton_self _), rfl⟩
    have hemitted : event ∈ u := by
      rcases List.mem_append.mp hevent with hmem | hmem
      · rw [List.mem_singleton.mp hmem] at hcall
        cases hcall
      · exact hmem
    -- the outcome is that of the answer, and the receipt is issued behind it
    rcases answer with e | downstream
    · obtain ⟨receipt, hc, hrecorded⟩ := emitsOnly_refuse.each u q hu event hemitted hcall
      refine ⟨receipt, context, .failed, hc, hcontext, hrecorded, ?_, ?_, ?_⟩
      · exact iff_of_true hallow hinvoked
      · exact fun hnot => absurd hinvoked hnot
      · rintro (heq | heq)
        · cases heq
        · rcases allowedOutcome_cases hoptions with hallowed | hallowed <;>
            rw [hallowed] at heq <;> cases heq
    · have hissue : EmitsOnly h.engine h.options context (h.handlerOutcome downstream)
          (perform (A := MiddlewareAnswer) (E := JsError) .now >>= fun time =>
            issueReceipt h.engine h.schemas h.options context (h.handlerOutcome downstream) time
              >>= fun receipt => ofExcept (attachReceipt h.engine downstream receipt context)) :=
        .bind_right (quiet_perform rfl) fun _ =>
          emitsOnly_issueReceipt.bind_left fun _ => quiet_ofExcept _
      obtain ⟨receipt, hc, hrecorded⟩ := hissue.each u q hu event hemitted hcall
      refine ⟨receipt, context, h.handlerOutcome downstream, hc, hcontext, hrecorded, ?_, ?_, ?_⟩
      · exact iff_of_true hallow hinvoked
      · exact fun hnot => absurd hinvoked hnot
      · intro houtcome
        refine ⟨context, downstream, List.mem_append_left u (List.mem_singleton_self _), ?_⟩
        by_contra hstatus
        rw [handlerOutcome, if_neg hstatus] at houtcome
        rcases allowedOutcome_cases hoptions with hallowed | hallowed <;>
          rw [hallowed] at houtcome <;> split_ifs at houtcome <;> simp at houtcome

theorem reports_commit {context : OatiMiddlewareContext} {previous : LoadedUsage}
    (hoptions : AllowedOptions h.options) (hcontext : h.IsContext context)
    (hallow : context.evaluation.decision = .allow) : h.Reports (h.commit context previous) := by
  refine .ite ?_ (reports_invoke hcontext hallow hoptions)
  refine .bind_right (avoids_perform Bool.false_ne_true) (avoids_perform Bool.false_ne_true)
    fun stored => .ite (reports_invoke hcontext hallow hoptions) ?_
  exact reports_refuse hoptions hcontext rfl

theorem reports_evaluate {v : Verifications} {extensions : OatiEvaluationExtensions}
    {previous : LoadedUsage} (hoptions : AllowedOptions h.options) :
    h.Reports (h.evaluate v extensions previous) := by
  refine .quiet_bind (quiet_perform rfl) fun _ => .quiet_bind (quiet_ofExcept _) fun _ =>
    .quiet_bind (quiet_ofExcept _) fun evaluation => ?_
  cases hdecision : evaluation.decision with
  | allow =>
    rw [if_neg (by simp)]
    exact reports_commit hoptions (isContext_context v evaluation) hdecision
  | deny =>
    rw [if_pos (by simp)]
    exact reports_refuse hoptions (isContext_context v evaluation) hdecision

theorem reports_authorize {v : Verifications} (hoptions : AllowedOptions h.options) :
    h.Reports (h.authorize v) := by
  have hprevious : ∀ {K : MiddlewareCall → Bool}, (∀ id, K (.load id) = false) →
      Avoids (fun c => K c = true) h.previousUsage := by
    intro K hK
    rw [previousUsage]
    exact Avoids.ite (avoids_perform (by simp [hK])) (avoids_pure _)
  refine .quiet_bind quiet_suppliedExtensions fun _ =>
    .bind_right (hprevious fun _ => rfl) (hprevious fun _ => rfl) fun _ => ?_
  exact .ite (reports_refuse hoptions (isContext_context _ _) rfl) (reports_evaluate hoptions)

theorem reports_bindRequest {v : Verifications} (hoptions : AllowedOptions h.options) :
    h.Reports (h.bindRequest v) := by
  refine .ite (.quiet_bind quiet_httpRequestDigest fun _ => .ite ?_ (reports_authorize hoptions))
    (reports_authorize hoptions)
  exact reports_refuse hoptions (isContext_context _ _) rfl

theorem reports_checkEnvelope {mandate : VerificationResult}
    {parentMandate : Option VerificationResult} (hoptions : AllowedOptions h.options) :
    h.Reports (h.checkEnvelope mandate parentMandate) :=
  .quiet_bind quiet_verifyEnvelope fun _ =>
    .ite (reports_bindRequest hoptions) (reports_denyVerification hoptions)

theorem reports_checkParent {mandate : VerificationResult} (hoptions : AllowedOptions h.options) :
    h.Reports (h.checkParent mandate) := by
  rw [checkParent]
  split
  · exact reports_checkEnvelope hoptions
  · exact .quiet_bind quiet_verifyReusable fun _ =>
      .ite (reports_checkEnvelope hoptions) (reports_denyVerification hoptions)

theorem reports_handle (hoptions : AllowedOptions h.options) : h.Reports h.handle :=
  .ite (.of_quiet (avoids_throw _)) (.quiet_bind quiet_verifyReusable fun _ =>
    .ite (reports_checkParent hoptions) (reports_denyVerification hoptions))

theorem reports_handleExtracted (hoptions : AllowedOptions h.options) :
    h.Reports (handleExtracted h) := by
  refine (reports_handle hoptions).attempt.bind_left fun response => ?_
  rcases response with e | response
  · exact avoids_ofExcept _
  · exact avoids_pure _

end Handling

/-! ### The middleware -/

/-- What precedes the handling of an extracted request is quiet. -/
theorem steps_handleRequest {engine : Engine} {schemas : Schemas}
    {options : OatiMiddlewareOptions} {request : HttpRequest} {trace : MiddlewareTrace}
    {q : MiddlewareProg HttpResponse}
    (hsteps : Steps (handleRequest engine schemas options request) trace q)
    {event : Event MiddlewareAnswer JsError} (hevent : event ∈ trace)
    (hcall : isEmit event.call = true) :
    ∃ correlationId extracted t e u q', trace = t ++ (e ++ u) ∧
      Run (correlation options (request.headers.get OATI_HTTP_HEADERS.correlationId)) t
        (.ok correlationId) ∧
      Run (extractRequest engine schemas options request) e (.ok extracted) ∧
      Steps (handleExtracted (Handling.mk engine schemas options request extracted correlationId))
        u q' ∧ event ∈ u := by
  have hcorrelate := (@quiet_correlation options
    (request.headers.get OATI_HTTP_HEADERS.correlationId)).emit.attempt
  rcases steps_bind_iff.mp hsteps with ⟨p', hp', -⟩ | ⟨correlated, t, rest, rfl, ht, hrest⟩
  · exact absurd hcall (hcorrelate _ _ hp' event hevent)
  have hmem : event ∈ rest := (List.mem_append.mp hevent).resolve_left fun hin =>
    hcorrelate _ _ ht event hin hcall
  obtain ⟨r, hr, heq⟩ := run_attempt_iff.mp ht
  cases heq
  rcases correlated with e | correlationId
  · obtain ⟨rfl, -⟩ := steps_done_iff.mp hrest
    cases hmem
  have hextract := (@quiet_extractRequest engine schemas options request).emit.attempt
  rcases steps_bind_iff.mp hrest with ⟨p', hp', -⟩ | ⟨outcome, e, u, rfl, he, hu⟩
  · exact absurd hcall (hextract _ _ hp' event hmem)
  have hmem' : event ∈ u := (List.mem_append.mp hmem).resolve_left fun hin =>
    hextract _ _ he event hin hcall
  obtain ⟨r', hr', heq⟩ := run_attempt_iff.mp he
  cases heq
  rcases outcome with error | extracted
  · obtain ⟨rfl, -⟩ := steps_done_iff.mp hu
    cases hmem'
  · exact ⟨correlationId, extracted, t, e, u, q, rfl, hr, hr', hu, hmem'⟩

theorem atMost_emit {engine : Engine} {schemas : Schemas} {options : OatiMiddlewareOptions}
    {request : HttpRequest} (hoptions : Handling.AllowedOptions options) :
    AtMost isEmit 1 (handleRequest engine schemas options request) := by
  refine quiet_correlation.emit.attempt.atMost_bind fun correlationId => ?_
  rcases correlationId with e | correlationId
  · exact (avoids_ofExcept _).atMost 1
  · refine quiet_extractRequest.emit.attempt.atMost_bind fun extracted => ?_
    rcases extracted with e | extracted
    · exact (avoids_ofExcept _).atMost 1
    · exact (@Handling.reports_handleExtracted
        (Handling.mk engine schemas options request extracted correlationId) hoptions).once

/-! ### A receipt for a refused note -/

/-- A mandate without a proof. -/
def unsignedMandate : Conforming AgentMandate :=
  { noteMandate with members := [("id", .str "oati:mandate:notes")] }

/-- The note under that mandate, with a generator of receipt identifiers and a sink. -/
def unsignedHandling : Handling :=
  { noteHandling with
    options :=
      { receiptIssuer := "oati:issuer:root", hasExtract := true, hasEmitReceipt := true
        hasGenerateReceiptId := true }
    extracted := { envelope := noteEnvelope, mandate := unsignedMandate } }

/-- The context of its refusal. -/
def unsignedContext : OatiMiddlewareContext :=
  middlewareContext unsignedHandling.request unsignedHandling.extracted "note-1"
    (failedVerification "ENVELOPE_NOT_VERIFIED")
    { verified := false, issues := [⟨.proofMissing, "OATI proof is required"⟩] } none
    (deniedEvaluation unsignedHandling.extracted ["MANDATE_PROOF_MISSING"])

/-- The members of the receipt for it. -/
def unsignedReceipt : Record :=
  ("oati_version", .str "1.0") ::
    receiptDraft unsignedHandling.options unsignedContext .denied "oati:receipt:1"
      (isoText noteTime)

theorem reaches_unsigned : ∃ trace receipt,
    Reaches (handleRequest plainEngine noteSchemas unsignedHandling.options
      unsignedHandling.request) trace (.emitReceipt receipt unsignedContext) := by
  have hcorrelation : Run (correlation unsignedHandling.options
      (unsignedHandling.request.headers.get OATI_HTTP_HEADERS.correlationId)) []
      (.ok "note-1") := by
    have hheader : unsignedHandling.request.headers.get OATI_HTTP_HEADERS.correlationId
        = some "note-1" := by decide
    rw [hheader, correlation, if_pos (by decide)]
    exact run_pure_iff.mpr ⟨rfl, rfl⟩
  let values : ExtractedValues :=
    { envelope := some (.obj noteEnvelope.members), mandate := some (.obj unsignedMandate.members) }
  have hextract : Run (extractRequest plainEngine noteSchemas unsignedHandling.options
      unsignedHandling.request) [⟨.extract, .ok values⟩] (.ok unsignedHandling.extracted) := by
    refine (run_perform (A := MiddlewareAnswer) .extract (.ok values)).bind ?_
    refine Run.bind (t := []) (run_ofExcept_iff.mpr ⟨rfl, rfl⟩) ?_
    exact Run.bind (t := []) (a := ()) (run_ofExcept_iff.mpr ⟨rfl, by decide⟩)
      (run_pure_iff.mpr ⟨rfl, rfl⟩)
  have hverify : Run (verifyReusable plainEngine .mandate unsignedMandate.members)
      [⟨.verificationPolicy .mandate, .ok (notePolicy noteTime)⟩]
      (.ok unsignedContext.mandateVerification) := by
    refine (run_perform (A := MiddlewareAnswer) (.verificationPolicy .mandate)
      (.ok (notePolicy noteTime))).bind ?_
    exact run_pure_iff.mpr ⟨rfl, rfl⟩
  obtain ⟨text, htext⟩ : ∃ text,
      canonicalJson plainEngine (.obj unsignedReceipt) = .ok text := ⟨_, rfl⟩
  have hfilter : unsignedReceipt.filter (fun m => m.1 != "proof") = unsignedReceipt := by rfl
  have hchecked : checkReceipt plainEngine unsignedReceipt.tail
      ⟨unsignedReceipt, "oati:receipt:1"⟩ = .ok () := by
    have hcons : ("oati_version", .str "1.0") :: unsignedReceipt.tail = unsignedReceipt := rfl
    simp only [checkReceipt, hfilter, hcons, htext]
    exact if_pos rfl
  have hissue : Reaches (issueReceipt plainEngine noteSchemas unsignedHandling.options
      unsignedContext .denied (some noteTime))
      [⟨.generateReceiptId "oati:tx:1", .ok (some "oati:receipt:1")⟩,
        ⟨.signReceipt unsignedReceipt.tail unsignedContext, .ok (.obj unsignedReceipt)⟩]
      (.emitReceipt ⟨unsignedReceipt, "oati:receipt:1"⟩ unsignedContext) := by
    have hid : Run (receiptId unsignedHandling.options "oati:tx:1")
        [⟨.generateReceiptId "oati:tx:1", .ok (some "oati:receipt:1")⟩]
        (.ok "oati:receipt:1") := by
      refine Run.bind (t := [_]) (a := some "oati:receipt:1") (run_perform_iff.mpr rfl) ?_
      exact run_pure_iff.mpr ⟨rfl, rfl⟩
    refine hid.reaches_bind ?_
    refine Run.reaches_bind (t := []) (run_ofExcept_iff.mpr ⟨rfl, rfl⟩) ?_
    refine (run_perform (A := MiddlewareAnswer) (.signReceipt unsignedReceipt.tail unsignedContext)
      (.ok (.obj unsignedReceipt))).reaches_bind ?_
    refine Run.reaches_bind (t := []) (u := []) (a := ⟨unsignedReceipt, "oati:receipt:1"⟩)
      (run_ofExcept_iff.mpr ⟨rfl, rfl⟩) ?_
    refine Run.reaches_bind (t := []) (u := []) (a := ())
      (run_ofExcept_iff.mpr ⟨rfl, hchecked.symm⟩) ?_
    exact reaches_bind_iff.mpr (.inl (reaches_perform_iff.mpr ⟨rfl, rfl⟩))
  have hhandle : Reaches unsignedHandling.handle
      ([⟨.verificationPolicy .mandate, .ok (notePolicy noteTime)⟩] ++
        ⟨.now, .ok (some noteTime)⟩ ::
          [⟨.generateReceiptId "oati:tx:1", .ok (some "oati:receipt:1")⟩,
            ⟨.signReceipt unsignedReceipt.tail unsignedContext, .ok (.obj unsignedReceipt)⟩])
      (.emitReceipt ⟨unsignedReceipt, "oati:receipt:1"⟩ unsignedContext) := by
    rw [Handling.handle, if_neg (by decide)]
    refine hverify.reaches_bind ?_
    refine (run_perform (A := MiddlewareAnswer) .now (.ok (some noteTime))).reaches_bind ?_
    exact reaches_bind_iff.mpr (.inl (reaches_attempt_iff.mpr (reaches_bind_iff.mpr (.inl hissue))))
  have hextracted : Reaches (handleExtracted unsignedHandling) _ _ :=
    reaches_bind_iff.mpr (.inl (reaches_attempt_iff.mpr hhandle))
  exact ⟨_, _, hcorrelation.attempt.reaches_bind (hextract.attempt.reaches_bind hextracted)⟩

/-- For every behaviour of its dependencies and of the handler, the middleware emits at most one
receipt. Its canonical text without the proof is that of the draft of this request; its decision
is `allow` exactly if the handler was invoked; its outcome is `denied` without an invocation, and
says success only of a response with a status below 400. -/
theorem receipts_truthful {engine : Engine} {schemas : Schemas} {options : OatiMiddlewareOptions}
    {middleware : HttpRequest → MiddlewareProg HttpResponse}
    (hcreated : createOatiMiddleware engine schemas options = .ok middleware)
    (hoptions : Handling.AllowedOptions options) (request : HttpRequest) :
    (∀ trace q, Steps (middleware request) trace q →
      (trace.countP fun event => isEmit event.call) ≤ 1) ∧
    ∀ trace q receipt context answer, Steps (middleware request) trace q →
      Answered trace (.emitReceipt receipt context) answer →
      ∃ correlationId extracted outcome,
        (∃ t e u, trace = t ++ (e ++ u) ∧
          Run (correlation options (request.headers.get OATI_HTTP_HEADERS.correlationId)) t
            (.ok correlationId) ∧
          Run (extractRequest engine schemas options request) e (.ok extracted)) ∧
        (Handling.mk engine schemas options request extracted correlationId).Truthful trace receipt
          context outcome ∧
        ((Json.obj receipt.members).Distinct → PrintsNumbers engine (.obj receipt.members) →
          receipt.members.lookup "decision" = some (.str context.evaluation.decision.name) ∧
          receipt.members.lookup "outcome" = some (.str outcome.name)) := by
  rw [createOatiMiddleware] at hcreated
  split_ifs at hcreated
  obtain rfl := Except.ok.inj hcreated
  refine ⟨atMost_emit hoptions, ?_⟩
  intro trace q receipt context answer hsteps hanswered
  obtain ⟨correlationId, extracted, t, e, u, q', rfl, ht, he, hu, hevent⟩ :=
    steps_handleRequest hsteps hanswered rfl
  set h := Handling.mk engine schemas options request extracted correlationId with hh
  obtain ⟨receipt', context', outcome, heq, htruth⟩ :=
    (@Handling.reports_handleExtracted h hoptions).each u q' hu _ hevent rfl
  cases heq
  -- the handler is invoked in the handling alone, so the whole trace says the same
  have hquiet : ∀ event ∈ t ++ e, ¬ isNext event.call = true := by
    intro event hin
    rcases List.mem_append.mp hin with hin | hin
    · exact quiet_correlation.noCommit.next _ _ ht event hin
    · exact quiet_extractRequest.noCommit.next _ _ he event hin
  have hall := (Handling.dependsOn_emitsTruth (h := h) (t ++ e) u (.emitReceipt receipt context)
    hquiet ⟨receipt, context, outcome, rfl, htruth⟩).1
  rw [List.append_assoc] at hall
  obtain ⟨receipt', context', outcome', heq, htruth'⟩ := hall
  cases heq
  refine ⟨correlationId, extracted, outcome', ⟨t, e, u, rfl, ht, he⟩, htruth', ?_⟩
  intro hdistinct hnumbers
  obtain ⟨-, -, hdecision, houtcome⟩ := htruth'.recorded.lookup hdistinct hnumbers
  exact ⟨hdecision, houtcome⟩

/-- The receipt for the refused note is truthful. -/
theorem receipts_truthful_unsigned : ∃ trace receipt outcome correlationId extracted,
    (Handling.mk plainEngine noteSchemas unsignedHandling.options unsignedHandling.request extracted
      correlationId).Truthful trace receipt unsignedContext outcome := by
  have hcreated : createOatiMiddleware plainEngine noteSchemas unsignedHandling.options
      = .ok (handleRequest plainEngine noteSchemas unsignedHandling.options) := by
    rw [createOatiMiddleware, if_neg (by decide)]
  have hoptions : Handling.AllowedOptions unsignedHandling.options := by
    rintro outcome ⟨⟩
  obtain ⟨trace, receipt, next, hreach⟩ := reaches_unsigned
  obtain ⟨correlationId, extracted, outcome, -, htruth, -⟩ :=
    (receipts_truthful hcreated hoptions unsignedHandling.request).2 _ _ receipt unsignedContext
      (.ok ()) (hreach.snoc (.ok ())) (List.mem_append_right _ (List.mem_singleton_self _))
  exact ⟨_, receipt, outcome, correlationId, extracted, htruth⟩

end Oati.TypeScript

import Oati.TypeScript.EvaluatorSpec

/-!
# The generic limits

`limits` is a free-form record: `max_calls`, `max_total` and `max_quantity` may each be written
as a number or as a decimal string. `checkConsumption` guards every limit with conditions of its
own (the type of the member, the profile of the mandate, a number it can add exactly), and a
limit that falls through its guard bounds nothing.

* `Bound`: what a limit states, in either form.
* `ConsumptionLimit.Read`: the guard lets the limit through, and compares it exactly.
* `keeps_of_read`: an allowed step stays within a limit that is read.
* `keepsLimits_iff`: an allowed step keeps all its limits exactly if it keeps those that are
  not read.
-/

namespace Oati.TypeScript

variable {engine : Engine}

/-! ### What a limit states -/

/-- The bound a limit states: a non-negative integer, or a decimal string. -/
def Bound (limit : Option Value) (m : ℚ) : Prop :=
  (∃ n : ℕ, limit = some (.num n) ∧ m = n) ∨ ∃ s, limit = some (.str s) ∧ Denotes s m

/-- The limits that apply to every mandate. -/
inductive ConsumptionLimit where
  | maxCalls
  | maxTotal
  | maxQuantity
  deriving DecidableEq, Repr

namespace ConsumptionLimit

/-- The member of `limits`. -/
def member : ConsumptionLimit → String
  | maxCalls => "max_calls"
  | maxTotal => "max_total"
  | maxQuantity => "max_quantity"

/-- The limit as the mandate states it. -/
def value (limit : ConsumptionLimit) (mandate : AgentMandate) : Option Value :=
  (mandate.limits.getD []).lookup limit.member

/-- The exact sum that the limit bounds: the prior usage and what the step adds to it. The
amount counts only when the step spends one. -/
def Sum (engine : Engine) (request : EvaluationRequest) : ConsumptionLimit → ℚ → Prop
  | maxCalls, sum =>
    sum = ((normalizedUsage request.usage).calls + (effectiveConsumption engine request).calls : ℕ)
  | maxTotal, sum => ∃ a d, Denotes (normalizedUsage request.usage).amount a ∧
    Denotes (effectiveConsumption engine request).amount d ∧ d ≠ 0 ∧ sum = a + d
  | maxQuantity, sum => ∃ text q d, Denotes (normalizedUsage request.usage).quantity q ∧
    (effectiveConsumption engine request).quantity = .str text ∧ Denotes text d ∧ sum = q + d

/-- `checkConsumption` reads the limit, and in a form that it compares exactly. -/
def Read (mandate : AgentMandate) : ConsumptionLimit → Prop
  | maxCalls => ∃ n : ℕ, n ≤ Double.maxSafeInteger ∧ maxCalls.value mandate = some (.num n)
  | maxTotal => ∃ s, maxTotal.value mandate = some (.str s)
  | maxQuantity => mandate.profile = none ∧
    ((∃ s, maxQuantity.value mandate = some (.str s)) ∨
      ∃ n : ℕ, n ≤ Double.maxSafeInteger ∧ maxQuantity.value mandate = some (.num n))

/-- The step stays within the limit, whichever way the limit is written. -/
def Keeps (engine : Engine) (request : EvaluationRequest) (limit : ConsumptionLimit) : Prop :=
  ∀ m sum, Bound (limit.value request.mandate) m → limit.Sum engine request sum → sum ≤ m

end ConsumptionLimit

/-! ### Limits that are read -/

/-- A string limit states what the string denotes. -/
theorem Bound.of_str {s : String} {m : ℚ} (h : Bound (some (.str s)) m) : Denotes s m := by
  obtain ⟨n, hn, -⟩ | ⟨t, ht, hm⟩ := h
  · cases hn
  · cases ht
    exact hm

/-- A numeric limit states its number. -/
theorem Bound.of_num {q m : ℚ} (h : Bound (some (.num q)) m) : m = q := by
  obtain ⟨n, hn, hm⟩ | ⟨t, ht, -⟩ := h
  · cases hn
    exact hm
  · cases ht

/-- The text that `checkConsumption` compares with denotes the bound. -/
theorem Bound.denotes_quantityLimit (engine : Engine) {mandate : AgentMandate} {m : ℚ}
    (hread : ConsumptionLimit.maxQuantity.Read mandate)
    (h : Bound (ConsumptionLimit.maxQuantity.value mandate) m) :
    ∃ limit, quantityLimit engine (mandate.limits.getD []) = some limit ∧ Denotes limit m := by
  obtain ⟨-, ⟨s, hs⟩ | ⟨n, hsafe, hn⟩⟩ := hread
  · rw [hs] at h
    refine ⟨s, ?_, h.of_str⟩
    change (mandate.limits.getD []).lookup "max_quantity" = _ at hs
    rw [quantityLimit, hs]
  · rw [hn] at h
    have hm : m = n := h.of_num
    refine ⟨numberText engine n, ?_, ?_⟩
    · change (mandate.limits.getD []).lookup "max_quantity" = _ at hn
      rw [quantityLimit, hn]
    · rw [hm]
      exact denotes_numberText engine hsafe

/-- A permitted step stays within every limit that is read. -/
theorem keeps_of_read {request : EvaluationRequest} {now : ℤ} (hp : Permits engine request now)
    {limit : ConsumptionLimit} (hread : limit.Read request.mandate) :
    limit.Keeps engine request := by
  have hconsumption := hp.consumption
  intro m sum hm hsum
  cases limit with
  | maxCalls =>
    obtain ⟨n, hsafe, hn⟩ := hread
    rw [hn] at hm
    obtain rfl := hm.of_num
    have hchecked := hconsumption.calls n hn
    -- below the bound the rounded sum is the exact one
    have hlt : Double.roundNat ((normalizedUsage request.usage).calls
        + (effectiveConsumption engine request).calls) ≤ n := by
      exact_mod_cast hchecked
    have hexact := Double.roundNat_eq_of_lt (Nat.lt_of_le_of_lt (hlt.trans hsafe) (by decide))
    rw [hexact] at hchecked
    change sum = _ at hsum
    rw [hsum]
    exact hchecked
  | maxTotal =>
    obtain ⟨s, hs⟩ := hread
    rw [hs] at hm
    obtain ⟨a, d, ha, hd, hne, rfl⟩ := hsum
    have hspends : (effectiveConsumption engine request).amount ≠ "0" := by
      intro hzero
      rw [hzero] at hd
      exact hne (hd.unique denotes_zero)
    obtain ⟨a', d', m', ha', hd', hm', hle⟩ := hconsumption.total s hs hspends
    rw [ha.unique ha', hd.unique hd', hm.of_str.unique hm']
    exact hle
  | maxQuantity =>
    obtain ⟨text, q, d, hq, htext, hd, rfl⟩ := hsum
    obtain ⟨limit, hlimit, hdenotes⟩ := hm.denotes_quantityLimit engine hread
    obtain ⟨text', htext', q', d', m', hq', hd', hm', hle⟩ :=
      hconsumption.quantity hread.1 limit hlimit
    obtain rfl : text = text' := by simpa [htext] using htext'
    rw [hq.unique hq', hd.unique hd', hdenotes.unique hm']
    exact hle

/-! ### Limits that are not read -/

/-- An allowed step keeps all limits of its mandate exactly if it keeps those that the evaluator
does not read. -/
theorem keepsLimits_iff {request : EvaluationRequest} {result : EvaluationResult}
    (heval : evaluateAuthority engine request = .ok result) (hallow : result.decision = .allow) :
    (∀ limit : ConsumptionLimit, limit.Keeps engine request) ↔
      ∀ limit : ConsumptionLimit, ¬ limit.Read request.mandate → limit.Keeps engine request := by
  obtain ⟨⟨now, hp⟩, -⟩ := evaluateAuthority_allow_iff.mp ⟨heval, hallow⟩
  constructor
  · intro hkeeps limit _
    exact hkeeps limit
  · intro hunread limit
    by_cases hread : limit.Read request.mandate
    · exact keeps_of_read hp hread
    · exact hunread limit hread

/-- The broker's order under limits it exceeds: no call, an amount of one, one item. -/
def overspentOrder : EvaluationRequest :=
  { brokerOrder with
    mandate := { brokerMandate with
      profile := some COMMERCE_PROFILE
      limits := some [("max_calls", .str "0"), ("max_total", .num 1),
        ("max_quantity", .str "1")] } }

/-- A condition of the kind holds of the order within its limits. -/
theorem keepsLimits_iff_brokerOrder :
    (∀ limit : ConsumptionLimit, limit.Keeps plainEngine brokerOrder) ↔
      ∀ limit : ConsumptionLimit, ¬ limit.Read brokerOrder.mandate →
        limit.Keeps plainEngine brokerOrder :=
  have heval : evaluateAuthority plainEngine brokerOrder = .ok orderResult := by decide +kernel
  keepsLimits_iff heval rfl

/-- An order that is allowed and exceeds all three limits. -/
theorem overspentOrder_allowed :
    evaluateAuthority plainEngine overspentOrder = .ok orderResult ∧
      orderResult.decision = .allow ∧
      ∀ limit : ConsumptionLimit, ¬ limit.Keeps plainEngine overspentOrder := by
  refine ⟨by decide +kernel, rfl, ?_⟩
  have hone : Denotes "1" 1 := by exact_mod_cast denotes_repr 1
  have hfour : Denotes "4" 4 := by exact_mod_cast denotes_repr 4
  have hten : Denotes "10" 10 := by exact_mod_cast denotes_repr 10
  have hquantity : (effectiveConsumption plainEngine overspentOrder).quantity = .str "4" := by
    have htext : numberText plainEngine 4 = "4" := by decide +kernel
    rw [← htext]
    rfl
  intro limit hkeeps
  cases limit with
  | maxCalls =>
    have hsum : ConsumptionLimit.Sum plainEngine overspentOrder .maxCalls 1 := by
      change (1 : ℚ) = ((0 + 1 : ℕ) : ℚ)
      norm_num
    have := hkeeps 0 1 (.inr ⟨"0", rfl, denotes_zero⟩) hsum
    norm_num at this
  | maxTotal =>
    have := hkeeps 1 10 (.inl ⟨1, rfl, by norm_num⟩)
      ⟨0, 10, denotes_zero, hten, by norm_num, by norm_num⟩
    norm_num at this
  | maxQuantity =>
    have := hkeeps 1 4 (.inr ⟨"1", rfl, hone⟩)
      ⟨"4", 0, 4, denotes_zero, hquantity, hfour, by norm_num⟩
    norm_num at this

end Oati.TypeScript

import Oati.Library.Rounding
import Oati.TypeScript.EvaluatorSpec

/-!
# Usage snapshots and their schema

The usage that an evaluation returns is the `usage` of the next request, which has a schema of its
own. A snapshot without a currency is normalized to the empty currency, which the schema rejects.

* `UsageSnapshot.Valid`, `Consumption.Valid`, `CommerceEvaluationContext.Conforms`: the definitions of
  `evaluation-request.schema.json`, as far as the types leave them open.
* `Usage.WellFormed`: a complete usage that is valid but for its currency, which both functions
  that build a snapshot keep.
* `nextUsage_valid_iff`: exactly when a returned snapshot is valid again.
-/

namespace Oati.TypeScript

variable {engine : Engine}

/-! ### The schema -/

/-- `^[A-Z]{3}$`. -/
def isCurrency (value : String) : Bool :=
  value.toList.length == 3 && value.toList.all fun c => 'A' ≤ c && c ≤ 'Z'

/-- `usage`. The counts are naturals by their type; what is left is that they are numbers of
JSON, that is finite doubles. -/
structure UsageSnapshot.Valid (usage : UsageSnapshot) : Prop where
  calls : ∀ n ∈ usage.calls, Double.IsFinite n
  amount : ∀ s ∈ usage.amount, isDecimal s = true
  currency : ∀ s ∈ usage.currency, isCurrency s = true
  quantity : ∀ s ∈ usage.quantity, isDecimal s = true
  idempotencyKeys : ∀ keys ∈ usage.idempotencyKeys, keys.Nodup
  mintedSupply : ∀ s ∈ usage.mintedSupply, isDecimal s = true

/-- `consumption`. -/
structure Consumption.Valid (consumption : Consumption) : Prop where
  calls : ∀ n ∈ consumption.calls, Double.IsFinite n
  amount : ∀ s ∈ consumption.amount, isDecimal s = true
  currency : ∀ s ∈ consumption.currency, isCurrency s = true
  quantity : ∀ s ∈ consumption.quantity, isDecimal s = true

/-- `commerce`. -/
structure CommerceEvaluationContext.Conforms (context : CommerceEvaluationContext) : Prop where
  currency : isCurrency context.currency = true
  quantity : ∃ n : ℕ, context.quantity = n ∧ 1 ≤ n
  unitPrice : isDecimal context.unitPrice = true
  totalAmount : isDecimal context.totalAmount = true
  idempotencyKey : context.idempotencyKey ≠ ""

/-- The accounting members of a request satisfy the schema. Nothing is asked of the others. -/
structure EvaluationRequest.AccountingValid (request : EvaluationRequest) : Prop where
  usage : request.usage.Valid
  consumption : ∀ c ∈ request.consumption, c.Valid
  commerce : ∀ c ∈ request.commerce, c.Conforms

/-- The empty currency is not one. -/
theorem ne_empty_of_isCurrency {value : String} (h : isCurrency value = true) : value ≠ "" := by
  rintro rfl
  exact absurd h Bool.false_ne_true

/-! ### Complete snapshots -/

/-- A complete usage is valid but for its currency. -/
structure Usage.WellFormed (usage : Usage) : Prop where
  calls : Double.IsFinite usage.calls
  amount : isDecimal usage.amount = true
  quantity : isDecimal usage.quantity = true
  idempotencyKeys : usage.idempotencyKeys.Nodup
  mintedSupply : isDecimal usage.mintedSupply = true

theorem Usage.toSnapshot_valid_iff {usage : Usage} :
    usage.toSnapshot.Valid ↔ usage.WellFormed ∧ isCurrency usage.currency = true := by
  constructor
  · intro h
    exact ⟨⟨h.calls _ rfl, h.amount _ rfl, h.quantity _ rfl, h.idempotencyKeys _ rfl,
      h.mintedSupply _ rfl⟩, h.currency _ rfl⟩
  · rintro ⟨h, hcurrency⟩
    refine ⟨?_, ?_, ?_, ?_, ?_, ?_⟩
    all_goals rintro _ ⟨⟩
    · exact h.calls
    · exact h.amount
    · exact hcurrency
    · exact h.quantity
    · exact h.idempotencyKeys
    · exact h.mintedSupply

theorem nodup_sortStrings {xs : List String} : (sortStrings xs).Nodup ↔ xs.Nodup :=
  (List.perm_insertionSort (fun a b => utf16 a ≤ utf16 b) xs).nodup_iff

/-- The normalized usage of a valid one has what the defaults can give it. -/
theorem normalizedUsage_wellFormed {usage : UsageSnapshot} (h : usage.Valid) :
    (normalizedUsage usage).WellFormed := by
  have hdecimal : ∀ {value : Option String}, (∀ s ∈ value, isDecimal s = true) →
      isDecimal (value.getD "0") = true := by
    intro value hvalue
    cases value with
    | none => decide
    | some s => exact hvalue s rfl
  have hcalls : Double.IsFinite (usage.calls.getD 0 : ℕ) := by
    cases hcalls : usage.calls with
    | none => exact ⟨by exact_mod_cast Double.round_zero, by norm_num [Double.overflow]⟩
    | some n => exact h.calls n hcalls
  have hkeys : (usage.idempotencyKeys.getD []).Nodup := by
    cases hkeys : usage.idempotencyKeys with
    | none => exact List.nodup_nil
    | some keys => exact h.idempotencyKeys keys hkeys
  exact ⟨hcalls, hdecimal h.amount, hdecimal h.quantity, nodup_sortStrings.mpr hkeys,
    hdecimal h.mintedSupply⟩

/-- The default of the currency is the empty one. -/
theorem isCurrency_normalizedUsage_iff {usage : UsageSnapshot} (h : usage.Valid) :
    isCurrency (normalizedUsage usage).currency = true ↔ usage.currency.isSome = true := by
  have hnormalized : (normalizedUsage usage).currency = usage.currency.getD "" := rfl
  rw [hnormalized]
  cases hcurrency : usage.currency with
  | none => exact iff_of_false Bool.false_ne_true Bool.false_ne_true
  | some currency => exact iff_of_true (h.currency currency hcurrency) rfl

/-! ### The update -/

/-- The request names a currency of its own. -/
def EvaluationRequest.NamesCurrency (request : EvaluationRequest) : Prop :=
  request.commerce.isSome = true ∨ (request.consumption.bind (·.currency)).isSome = true

/-- The calls after the request. -/
def EvaluationRequest.callsAfter (request : EvaluationRequest) : ℕ :=
  Double.roundNat ((request.usage.calls.getD 0) + ((request.consumption.getD {}).calls.getD 1))

theorem isDecimal_addDecimal {left right sum : String} (h : addDecimal left right = .ok sum) :
    isDecimal sum = true := by
  obtain ⟨p, q, -, -, hsum⟩ := addDecimal_denotes h
  exact hsum.isDecimal

/-- The calls are a number of JSON exactly if their sum does not overflow. -/
theorem isFinite_roundNat_iff {n : ℕ} :
    Double.IsFinite (Double.roundNat n : ℕ) ↔ (Double.roundNat n : ℚ) < Double.overflow := by
  have hround : Double.round (Double.roundNat n : ℕ) = (Double.roundNat n : ℕ) := by
    rw [← Double.round_natCast, Double.round_round]
  rw [Double.IsFinite, Nat.abs_cast]
  exact and_iff_right hround

/-- The currency after an update: the request names one, or the usage has one. -/
theorem isCurrency_applied_iff {request : EvaluationRequest} (h : request.AccountingValid) :
    isCurrency (if (effectiveConsumption engine request).currency = "" then
        (normalizedUsage request.usage).currency
      else (effectiveConsumption engine request).currency) = true ↔
      request.usage.currency.isSome = true ∨ request.NamesCurrency := by
  rw [EvaluationRequest.NamesCurrency]
  cases hcommerce : request.commerce with
  | some context =>
    have hcurrency := (h.commerce context hcommerce).currency
    have hdelta : (effectiveConsumption engine request).currency = context.currency := by
      simp only [effectiveConsumption, hcommerce]
    rw [hdelta, if_neg (ne_empty_of_isCurrency hcurrency)]
    exact iff_of_true hcurrency (.inr (.inl rfl))
  | none =>
    have hdelta : (effectiveConsumption engine request).currency
        = (request.consumption.bind (·.currency)).getD "" := by
      simp only [effectiveConsumption, hcommerce]
      cases request.consumption <;> rfl
    rw [hdelta]
    cases hnamed : request.consumption.bind (·.currency) with
    | some currency =>
      obtain ⟨consumption, hconsumption, hcurrency⟩ := Option.bind_eq_some_iff.mp hnamed
      have hvalid := (h.consumption consumption hconsumption).currency currency hcurrency
      rw [Option.getD_some, if_neg (ne_empty_of_isCurrency hvalid)]
      exact iff_of_true hvalid (.inr (.inr rfl))
    | none =>
      rw [Option.getD_none, if_pos rfl, isCurrency_normalizedUsage_iff h.usage]
      simp

/-- An updated usage is well-formed exactly if its calls do not overflow. -/
theorem applied_wellFormed_iff {request : EvaluationRequest} {next : Usage} {now : ℤ}
    (h : request.AccountingValid) (hpermits : Permits engine request now)
    (hnext : nextUsage engine request .allow = .ok next) :
    next.WellFormed ↔ (request.callsAfter : ℚ) < Double.overflow := by
  obtain ⟨amount, text, quantity, minted, hamount, -, hquantity, hminted, rfl⟩ :=
    applyConsumption_eq_ok.mp hnext
  have hnormalized := normalizedUsage_wellFormed h.usage
  constructor
  · intro hwell
    exact isFinite_roundNat_iff.mp hwell.calls
  · intro hcalls
    refine ⟨isFinite_roundNat_iff.mpr hcalls, isDecimal_addDecimal hamount,
      isDecimal_addDecimal hquantity, ?_, ?_⟩
    · dsimp only
      split_ifs with hkey
      · exact hnormalized.idempotencyKeys
      · -- a key that was used before would have been a replay
        have hunused := hpermits.consumption.unused hkey
        refine nodup_sortStrings.mpr (List.nodup_append.mpr
          ⟨hnormalized.idempotencyKeys, List.nodup_singleton _, ?_⟩)
        rintro key hmem _ hlast rfl
        exact hunused (List.mem_singleton.mp hlast ▸ hmem)
    · rw [nextMintedSupply] at hminted
      split_ifs at hminted with hrwa
      · obtain ⟨supply, -, hminted⟩ := bind_eq_ok.mp hminted
        obtain ⟨added, -, hminted⟩ := bind_eq_ok.mp hminted
        exact isDecimal_addDecimal hminted
      · obtain rfl := Except.ok.inj hminted
        exact hnormalized.mintedSupply

/-! ### Returned snapshots -/

/-- What a returned decision says about the request. -/
theorem decision_eq_allow_iff {request : EvaluationRequest} {result : EvaluationResult}
    (h : evaluateAuthority engine request = .ok result) :
    result.decision = .allow ↔ ∃ now, Permits engine request now := by
  constructor
  · intro hallow
    exact (evaluateAuthority_allow_iff.mp ⟨h, hallow⟩).1
  · intro hpermits
    obtain ⟨reasons, hreasons, h⟩ := bind_eq_ok.mp h
    obtain rfl : reasons = [] := by
      have hnil := checkAuthority_eq_nil.mpr hpermits
      exact Except.ok.inj (hreasons.symm.trans hnil)
    obtain ⟨next, -, h⟩ := bind_eq_ok.mp h
    obtain rfl := Except.ok.inj h
    rfl

/-- The usage that the evaluation of a request returns satisfies the schema exactly if a currency
is known and the calls do not overflow. A request that is denied names none for it. -/
theorem nextUsage_valid_iff {request : EvaluationRequest} {result : EvaluationResult}
    (hvalid : request.AccountingValid) (h : evaluateAuthority engine request = .ok result) :
    result.nextUsage.Valid ↔
      (request.usage.currency.isSome = true ∨
        (∃ now, Permits engine request now) ∧ request.NamesCurrency) ∧
      ((∃ now, Permits engine request now) →
        (request.callsAfter : ℚ) < Double.overflow) := by
  have hdecision := decision_eq_allow_iff h
  rcases evaluateAuthority_cases h with ⟨hdeny, hnext⟩ | ⟨hallow, ⟨now, hpermits⟩, next, hnext, heq⟩
  · have hnot : ¬ ∃ now, Permits engine request now := by
      intro hpermits
      rw [hdeny] at hdecision
      exact absurd (hdecision.mpr hpermits) (by decide)
    rw [hnext, Usage.toSnapshot_valid_iff, isCurrency_normalizedUsage_iff hvalid.usage]
    simp only [hnot, false_and, or_false, false_implies, and_true]
    exact and_iff_right (normalizedUsage_wellFormed hvalid.usage)
  · have hpermitted : ∃ now, Permits engine request now := ⟨now, hpermits⟩
    have hcurrency : isCurrency next.currency = true ↔
        request.usage.currency.isSome = true ∨ request.NamesCurrency := by
      rw [← @isCurrency_applied_iff engine request hvalid]
      obtain ⟨amount, text, quantity, minted, -, -, -, -, rfl⟩ := applyConsumption_eq_ok.mp hnext
      rfl
    rw [heq, Usage.toSnapshot_valid_iff, applied_wellFormed_iff hvalid hpermits hnext, hcurrency]
    simp only [hpermitted, true_and, forall_const]
    exact and_comm

/-- The broker's order on an empty usage leads to a valid one. -/
theorem nextUsage_valid_brokerOrder : orderResult.nextUsage.Valid := by
  have hvalid : brokerOrder.AccountingValid := by
    refine ⟨⟨?_, ?_, ?_, ?_, ?_, ?_⟩, ?_, ?_⟩
    all_goals rintro _ ⟨⟩
    exact ⟨by decide, ⟨4, rfl, by decide⟩, by decide, by decide, by decide⟩
  have hresult : evaluateAuthority plainEngine brokerOrder = .ok orderResult := by decide +kernel
  refine (nextUsage_valid_iff hvalid hresult).mpr ⟨.inr ⟨?_, .inl rfl⟩, fun _ => ?_⟩
  · exact (decision_eq_allow_iff hresult).mp rfl
  · have hcalls : brokerOrder.callsAfter = 1 := by decide
    rw [hcalls, Nat.cast_one]
    exact one_lt_pow₀ (by norm_num) (by norm_num)

/-- The broker's purchase without a quote. -/
def unquotedPurchase : EvaluationRequest :=
  { evaluationTime := "2026-06-01T12:00:00Z", mandate := brokerMandate
    envelope :=
      { id := "oati:tx:1", agentId := "oati:agent:broker", organisationId := "oati:org:desk"
        mandateId := "oati:mandate:broker", action := "purchase", resource := "quotes"
        purpose := some "procurement" } }

/-- An allowed request that names no currency returns a usage with the empty one. -/
theorem nextUsage_invalid_unquotedPurchase : ∃ result, unquotedPurchase.AccountingValid ∧
    evaluateAuthority plainEngine unquotedPurchase = .ok result ∧ result.decision = .allow ∧
    ¬ result.nextUsage.Valid := by
  have hvalid : unquotedPurchase.AccountingValid := by
    refine ⟨⟨?_, ?_, ?_, ?_, ?_, ?_⟩, ?_, ?_⟩
    all_goals rintro _ ⟨⟩
  let result : EvaluationResult :=
    { decision := .allow, mandateId := "oati:mandate:broker", transactionId := "oati:tx:1"
      reasonCodes := []
      nextUsage :=
        { calls := some 1, amount := some "0", currency := some "", quantity := some "0"
          consumed := some false, idempotencyKeys := some [], mintedSupply := some "0" } }
  have hresult : evaluateAuthority plainEngine unquotedPurchase = .ok result := by decide +kernel
  refine ⟨result, hvalid, hresult, rfl, fun h => ?_⟩
  exact absurd rfl (ne_empty_of_isCurrency (h.currency "" rfl))

end Oati.TypeScript

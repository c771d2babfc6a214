import Oati.Library.Rounding
import Oati.TypeScript.EvaluatorSpec

/-!
# Less usage allows no less

What is allowed on a usage is allowed on every smaller one, and the two returned usages are
ordered again: a service that retries with another snapshot cannot unlock anything by adding to
the history.

* `UsageSnapshot.AtMost`: the order of snapshots, by value in their decimals.
* `Fresher`: a smaller snapshot that also names what the larger one names.
* `allow_of_fresher`: the monotonicity of `evaluateAuthority`.
-/

namespace Oati.TypeScript

variable {engine : Engine} {u v : UsageSnapshot}

/-! ### The order of snapshots -/

/-- `v` records no more than `u`. -/
structure UsageSnapshot.AtMost (v u : UsageSnapshot) : Prop where
  calls : v.calls.getD 0 ≤ u.calls.getD 0
  amount : TextAtMost (v.amount.getD "0") (u.amount.getD "0")
  quantity : TextAtMost (v.quantity.getD "0") (u.quantity.getD "0")
  idempotencyKeys : v.idempotencyKeys.getD [] ⊆ u.idempotencyKeys.getD []
  consumed : v.consumed.getD false = true → u.consumed.getD false = true

/-- A zero amount is spelled `0`. -/
def ZeroSpelled (usage : UsageSnapshot) : Prop :=
  Denotes (usage.amount.getD "0") 0 → usage.amount.getD "0" = "0"

/-- `v` records no more than `u`, in the same currency, and a minted supply only if `u` records
the same one. -/
structure Fresher (v u : UsageSnapshot) : Prop where
  atMost : v.AtMost u
  currency : v.currency = u.currency
  mintedSupply : ∀ s, v.mintedSupply = some s →
    ∃ t q, u.mintedSupply = some t ∧ Denotes s q ∧ Denotes t q
  zeroSpelled : ZeroSpelled v ∧ ZeroSpelled u

/-- Sums are monotone in what is there already. -/
theorem SumAtMost.mono_left {less more right limit : String} (hle : TextAtMost less more)
    (h : SumAtMost more right limit) : SumAtMost less right limit := by
  obtain ⟨p, p', hp, hp', hpp⟩ := hle
  obtain ⟨q', r, m, hq', hr, hm, hsum⟩ := h
  rw [hq'.unique hp'] at hsum
  exact ⟨p, r, m, hp, hr, hm, by linarith⟩

/-- The same text added to two decimals keeps their order. -/
theorem TextAtMost.add {less more right sum sum' : String} (hle : TextAtMost less more)
    (hsum : addDecimal less right = .ok sum) (hsum' : addDecimal more right = .ok sum') :
    TextAtMost sum sum' := by
  obtain ⟨p, p', hp, hp', hpp⟩ := hle
  obtain ⟨a, b, ha, hb, hab⟩ := addDecimal_denotes hsum
  obtain ⟨a', b', ha', hb', hab'⟩ := addDecimal_denotes hsum'
  rw [ha.unique hp] at hab
  rw [ha'.unique hp', hb'.unique hb] at hab'
  exact ⟨p + b, p' + b, hab, hab', by linarith⟩

namespace Fresher

/-- An amount in the smaller snapshot is one in the larger. -/
theorem amount_ne (h : Fresher v u) (hv : (normalizedUsage v).amount ≠ "0") :
    (normalizedUsage u).amount ≠ "0" := by
  intro hu
  obtain ⟨p, q, hp, hq, hle⟩ := h.atMost.amount
  have hzero : Denotes "0" q := hu ▸ hq
  rw [hzero.unique denotes_zero] at hle
  have hp0 : p = 0 := le_antisymm hle hp.nonneg
  exact hv (h.zeroSpelled.1 (hp0 ▸ hp))

theorem currency_eq (h : Fresher v u) :
    (normalizedUsage v).currency = (normalizedUsage u).currency := by
  simp only [normalizedUsage, h.currency]

theorem mem_keys (h : Fresher v u) {key : String}
    (hmem : key ∈ (normalizedUsage v).idempotencyKeys) :
    key ∈ (normalizedUsage u).idempotencyKeys :=
  mem_sortStrings.mpr (h.atMost.idempotencyKeys (mem_sortStrings.mp hmem))

theorem unconsumed (h : Fresher v u) (hu : (normalizedUsage u).consumed = false) :
    (normalizedUsage v).consumed = false := by
  by_contra hv
  have hconsumed := h.atMost.consumed (Bool.not_eq_false _ ▸ hv)
  exact absurd (hu.symm.trans hconsumed) (by decide)

end Fresher

/-! ### One check at a time -/

section Checks

variable {mandate : AgentMandate} {delta : EffectiveConsumption} {limits : Record}
  {envelope : TransactionEnvelope}

theorem ConsumptionPermits.mono (h : Fresher v u)
    (hpermits : ConsumptionPermits engine mandate (normalizedUsage u) delta) :
    ConsumptionPermits engine mandate (normalizedUsage v) delta where
  unconsumed := h.unconsumed hpermits.unconsumed
  unused := fun hkey hmem => hpermits.unused hkey (h.mem_keys hmem)
  calls := by
    intro n hn
    have hround : Double.roundNat ((normalizedUsage v).calls + delta.calls)
        ≤ Double.roundNat ((normalizedUsage u).calls + delta.calls) :=
      Double.roundNat_mono (Nat.add_le_add_right h.atMost.calls _)
    exact (Nat.cast_le.mpr hround).trans (hpermits.calls n hn)
  quantity := by
    intro hprofile limit hlimit
    obtain ⟨quantity, hquantity, hsum⟩ := hpermits.quantity hprofile limit hlimit
    exact ⟨quantity, hquantity, hsum.mono_left h.atMost.quantity⟩
  currency := by
    intro total htotal hamount currency hcurrency hne
    obtain ⟨hdelta, husage⟩ := hpermits.currency total htotal hamount currency hcurrency hne
    exact ⟨hdelta, fun hv => h.currency_eq.trans (husage (h.amount_ne hv))⟩
  total := fun total htotal hamount => (hpermits.total total htotal hamount).mono_left h.atMost.amount

theorem CommercePermits.mono {context : CommerceEvaluationContext} (h : Fresher v u)
    (hpermits : CommercePermits engine limits envelope context (normalizedUsage u)) :
    CommercePermits engine limits envelope context (normalizedUsage v) :=
  { hpermits with
    usageCurrency := fun hv => h.currency_eq.trans (hpermits.usageCurrency (h.amount_ne hv))
    budget := hpermits.budget.mono_left h.atMost.amount
    unused := fun hmem => hpermits.unused (h.mem_keys hmem) }

theorem SupplyPermits.mono {context : Option Value} (h : Fresher v u)
    (hpermits : SupplyPermits context (normalizedUsage u) u.mintedSupply.isSome) :
    SupplyPermits context (normalizedUsage v) v.mintedSupply.isSome where
  reserve := hpermits.reserve
  maximum := hpermits.maximum
  minted := by
    intro hsome
    obtain ⟨s, hs⟩ := Option.isSome_iff_exists.mp hsome
    obtain ⟨t, q, ht, hsq, htq⟩ := h.mintedSupply s hs
    obtain ⟨supply, q', hsupply, hminted, hq'⟩ := hpermits.minted (by rw [ht]; rfl)
    have hu : (normalizedUsage u).mintedSupply = t := by simp [normalizedUsage, ht]
    have hv : (normalizedUsage v).mintedSupply = s := by simp [normalizedUsage, hs]
    rw [hu] at hminted
    exact ⟨supply, q, hsupply, hv ▸ hsq, hminted.unique htq ▸ hq'⟩

theorem RwaPermits.mono {context : Option Value} {now : ℤ} (h : Fresher v u)
    (hpermits : RwaPermits engine limits envelope context (normalizedUsage u)
      u.mintedSupply.isSome now) :
    RwaPermits engine limits envelope context (normalizedUsage v) v.mintedSupply.isSome now :=
  { hpermits with
    quantity := by
      obtain ⟨quantity, hquantity, hsum⟩ := hpermits.quantity
      exact ⟨quantity, hquantity, hsum.mono_left h.atMost.quantity⟩
    supply := hpermits.supply.mono h
    oneTime := fun honce => h.unconsumed (hpermits.oneTime honce) }

end Checks

/-! ### The evaluation -/

/-- Every check passes on a fresher usage. -/
theorem Permits.mono {request : EvaluationRequest} {now : ℤ} (h : Fresher v u)
    (hpermits : Permits engine (request.on u) now) : Permits engine (request.on v) now where
  time := hpermits.time
  mandate := hpermits.mandate
  link := hpermits.link
  agrees := hpermits.agrees
  consumption := hpermits.consumption.mono h
  commerce := by
    intro hneeds
    obtain ⟨context, limits, hcontext, hlimits, hcommerce⟩ := hpermits.commerce hneeds
    exact ⟨context, limits, hcontext, hlimits, hcommerce.mono h⟩
  rwa := by
    intro hneeds
    obtain ⟨htruthy, limits, hlimits, hrwa⟩ := hpermits.rwa hneeds
    exact ⟨htruthy, limits, hlimits, hrwa.mono h⟩

/-- Updating two ordered usages leads to ordered ones. -/
theorem exists_nextUsage {request : EvaluationRequest} {next : Usage} (h : Fresher v u)
    (hnext : nextUsage engine (request.on u) .allow = .ok next) :
    ∃ less, nextUsage engine (request.on v) .allow = .ok less ∧
      less.toSnapshot.AtMost next.toSnapshot := by
  obtain ⟨amount, text, quantity, minted, hamount, htext, hquantity, hminted, rfl⟩ :=
    applyConsumption_eq_ok.mp hnext
  obtain ⟨p, -, hp, -⟩ := h.atMost.amount
  obtain ⟨q, -, hq, -⟩ := h.atMost.quantity
  obtain ⟨-, b, -, hb, -⟩ := addDecimal_denotes hamount
  obtain ⟨-, d, -, hd, -⟩ := addDecimal_denotes hquantity
  obtain ⟨amount', hamount'⟩ := exists_addDecimal hp hb
  obtain ⟨quantity', hquantity'⟩ := exists_addDecimal hq hd
  obtain ⟨minted', hminted'⟩ : ∃ minted', nextMintedSupply (normalizedUsage v) (request.on v)
      = .ok minted' := by
    by_cases hrwa : truthy (request.on v).rwa = true
    · have hrwa' : truthy (request.on u).rwa = true := hrwa
      rw [nextMintedSupply, if_pos hrwa'] at hminted
      rw [nextMintedSupply, if_pos hrwa]
      exact ⟨minted, hminted⟩
    · rw [nextMintedSupply, if_neg hrwa]
      exact ⟨_, rfl⟩
  refine ⟨_, applyConsumption_eq_ok.mpr
    ⟨amount', text, quantity', minted', hamount', htext, hquantity', hminted', rfl⟩, ?_⟩
  constructor
  · exact Double.roundNat_mono (Nat.add_le_add_right h.atMost.calls _)
  · exact h.atMost.amount.add hamount' hamount
  · exact h.atMost.quantity.add hquantity' hquantity
  · -- both lists get the key of the request, if it has one
    have hdelta : effectiveConsumption engine (request.on v)
        = effectiveConsumption engine (request.on u) := rfl
    dsimp only [Usage.toSnapshot, Option.getD_some]
    rw [hdelta]
    intro key hmem
    split_ifs at hmem ⊢ with hkey
    · exact h.mem_keys hmem
    · exact mem_sortStrings.mpr (List.mem_append.mpr
        ((List.mem_append.mp (mem_sortStrings.mp hmem)).imp_left h.mem_keys))
  · intro hconsumed
    rcases Bool.or_eq_true_iff.mp hconsumed with hv | hdelta
    · exact Bool.or_eq_true_iff.mpr (.inl (h.atMost.consumed hv))
    · exact Bool.or_eq_true_iff.mpr (.inr hdelta)

/-- What is allowed on a usage is allowed on a fresher one, with a usage that records no more. -/
theorem allow_of_fresher {request : EvaluationRequest} {result : EvaluationResult}
    (h : Fresher v u) (heval : evaluateAuthority engine (request.on u) = .ok result)
    (hallow : result.decision = .allow) :
    ∃ result', evaluateAuthority engine (request.on v) = .ok result' ∧
      result'.decision = .allow ∧ result'.nextUsage.AtMost result.nextUsage := by
  obtain ⟨⟨now, hpermits⟩, next, hnext, rfl⟩ := evaluateAuthority_allow_iff.mp ⟨heval, hallow⟩
  obtain ⟨less, hless, hordered⟩ := exists_nextUsage h hnext
  obtain ⟨heval', hallow'⟩ :=
    evaluateAuthority_allow_iff.mpr ⟨⟨now, hpermits.mono h⟩, less, hless, rfl⟩
  exact ⟨_, heval', hallow', hordered⟩

/-- The broker's order after another one, and before it. -/
theorem allow_of_fresher_brokerOrder : ∃ result,
    evaluateAuthority plainEngine (brokerOrder.on { currency := some "EUR" }) = .ok result ∧
      result.decision = .allow := by
  let used : UsageSnapshot :=
    { calls := some 1, amount := some "10.00", currency := some "EUR", quantity := some "4"
      idempotencyKeys := some ["order-0"] }
  have hten : Denotes "10.00" 10 := ⟨⟨1000, 2⟩, by decide, by norm_num [Numeral.FixedPoint.value]⟩
  have hfour : Denotes "4" 4 := by exact_mod_cast denotes_repr 4
  have hfresher : Fresher { currency := some "EUR" } used := by
    refine ⟨⟨Nat.zero_le 1, ⟨0, 10, denotes_zero, hten, by norm_num⟩,
      ⟨0, 4, denotes_zero, hfour, by norm_num⟩, List.nil_subset _, fun h => (by cases h)⟩, rfl,
      fun _ h => (by cases h), fun _ => rfl, fun h => ?_⟩
    exact absurd (h.unique hten) (by norm_num)
  have heval : evaluateAuthority plainEngine (brokerOrder.on used)
      = .ok { orderResult with
          nextUsage :=
            { calls := some 2, amount := some "20.00", currency := some "EUR", quantity := some "8"
              consumed := some false, idempotencyKeys := some ["order-0", "order-1"]
              mintedSupply := some "0" } } := by decide +kernel
  obtain ⟨result', heval', hallow', -⟩ := allow_of_fresher hfresher heval rfl
  exact ⟨result', heval', hallow'⟩

end Oati.TypeScript

import Oati.Go.Readers
import Oati.Library.Returns
import Oati.TypeScript.Codes
import Oati.TypeScript.EvaluatorSpec

/-!
# The checks of the Go SDK and of the TypeScript SDK

On a request of the domain, a check of the Go evaluator adds the reasons that the TypeScript check
adds, provided that the latter returns. These are the checks of the consumption and of the
profiles, which agree throughout, and the usage after an allowed request.

* `Follows`: a Go check that adds what the TypeScript check added, from any set of reasons.
* `effectiveConsumption_isDelta`: both programs find the same consumption.
* `checkConsumption_follows`, `checkCommerceTerms_follows`, `checkRWATerms_follows`: the checks.
* `applyConsumption_eq`: both programs apply the consumption alike.
-/

namespace Oati.Go

open Except (ok_bind)
open JsonText (Literal)
open TypeScript (Engine Reasons EvaluationRequest EvaluationResult AgentMandate
  TransactionEnvelope CommerceEvaluationContext isDecimal strictEq truthy Denotes compareDecimal
  addDecimal)

variable {engine : Engine} {runtime : Runtime}

/-! ### Documents -/

/-- Related members are both missing or both there. -/
theorem rel_cases {α β : Type} {P : α → β → Prop} {v : Option α} {t : Option β}
    (h : Option.Rel P v t) : v = none ∧ t = none ∨ ∃ a b, v = some a ∧ t = some b ∧ P a b := by
  rcases h with hab | _
  · exact .inr ⟨_, _, rfl, rfl, hab⟩
  · exact .inl ⟨rfl, rfl⟩

/-- An object that is there is read as one. -/
theorem object_cases {α : Type} {P : Object → α → Prop} {v : Option Value} {t : Option α}
    (h : Option.Rel (IsObject P) v t) :
    object v = none ∧ t = none ∨ ∃ o a, object v = some o ∧ t = some a ∧ P o a := by
  rcases rel_cases h with ⟨rfl, rfl⟩ | ⟨_, a, rfl, rfl, o, rfl, ho⟩
  · exact .inl ⟨rfl, rfl⟩
  · exact .inr ⟨o, a, rfl, rfl, ho⟩

theorem IsRecord.eq_map {v : Option Value} {t : Option TypeScript.Record}
    (h : IsRecord engine v t) : t = (object v).map (toRecord engine) := by
  obtain ⟨o, rfl, rfl⟩ := h
  cases o <;> rfl

theorem members_toTypeScript (v : Value) :
    (toTypeScript engine v).members? = v.members?.map (toRecord engine) := by
  cases v <;> simp [toTypeScript, toRecord, Json.map, Json.members?]

/-- The terms of a profile are the same record. -/
theorem objectAt_eq {o : Object} {t : Option TypeScript.Record}
    (h : IsRecord engine (o.lookup "extensions") t) (profile : String) :
    TypeScript.objectAt t profile = (terms o profile).map (toRecord engine) := by
  rw [h.eq_map]
  unfold terms
  cases object (o.lookup "extensions") with
  | none => rfl
  | some extensions =>
    have hlookup := lookup_toRecord engine extensions profile
    simp only [TypeScript.objectAt, Option.map_some, Option.bind_some, hlookup, index_some, object]
    cases extensions.lookup profile with
    | none => rfl
    | some v => exact members_toTypeScript v

/-- The members of a nested object of an ordinary one are ordinary. -/
theorem Ordinary.object {o p : Object} (h : Ordinary (.obj o)) {key : String}
    (hp : Go.object (o.lookup key) = some p) : Ordinary (.obj p) := by
  simp only [Go.object, Option.bind_eq_some_iff, Json.members?_eq_some] at hp
  obtain ⟨_, hv, rfl⟩ := hp
  exact h.lookup hv

theorem Ordinary.terms {o t : Object} (h : Ordinary (.obj o)) {profile : String}
    (ht : Go.terms o profile = some t) : Ordinary (.obj t) := by
  unfold Go.terms at ht
  cases hextensions : Go.object (o.lookup "extensions") with
  | none =>
    rw [hextensions] at ht
    cases ht
  | some extensions =>
    rw [hextensions] at ht
    exact (h.object hextensions).object ht

/-- A flag counts as itself. -/
theorem truthy_eq_boolean {v : Option Value} (h : ∀ w, v = some w → ∃ b, w = .bool b) :
    truthy (v.map (toTypeScript engine)) = boolean v := by
  cases v with
  | none => rfl
  | some w =>
    obtain ⟨b, rfl⟩ := h w rfl
    simp [toTypeScript_bool, truthy, boolean]

/-! ### Usage and consumption -/

/-- The map of a TypeScript usage. -/
def ofUsage (usage : TypeScript.Usage) : Usage :=
  { calls := usage.calls, amount := usage.amount, currency := usage.currency,
    quantity := usage.quantity, consumed := usage.consumed,
    idempotencyKeys := usage.idempotencyKeys, mintedSupply := usage.mintedSupply }

/-- A text that is there is not empty. -/
theorem fallback_getD {s : Option String} (h : ∀ t, s = some t → OrdinaryText t) (d : String) :
    fallback (s.getD "") d = s.getD d := by
  cases s with
  | none => simp [fallback]
  | some t => simp [fallback, (h t rfl).nonempty]

/-- A missing text differs from every text that is not empty. -/
theorem getD_beq {a : Option String} {b : String} (hb : b ≠ "") :
    (a.getD "" == b) = (a == some b) := by
  rw [Bool.eq_iff_iff, beq_iff_eq, beq_iff_eq]
  cases a with
  | none => simpa using hb.symm
  | some a => simp

theorem getD_bne {a : Option String} {b : String} (hb : b ≠ "") :
    (a.getD "" != b) = (a != some b) := by
  rw [bne, bne, getD_beq hb]

theorem getD_bne_getD {a b : Option String} (ha : ∀ s, a = some s → OrdinaryText s)
    (hb : ∀ s, b = some s → OrdinaryText s) : (a.getD "" != b.getD "") = (a != b) := by
  cases b with
  | some b => exact getD_bne (hb b rfl).nonempty
  | none =>
    rw [Bool.eq_iff_iff, bne_iff_ne, bne_iff_ne]
    cases a with
    | none => simp
    | some a => simpa using (ha a rfl).nonempty

theorem integer_of_rel {v : Option Value} {n : Option ℕ}
    (h : Option.Rel (fun v n => IsInteger v (n : ℕ)) v n) (hv : ∀ w, v = some w → Ordinary w) :
    integer v = (n.getD 0 : ℕ) ∧ n.getD 0 ≤ 2 ^ 52 := by
  rcases rel_cases h with ⟨rfl, rfl⟩ | ⟨w, k, rfl, rfl, hn⟩
  · exact ⟨rfl, by simp⟩
  · have hle := hn.natAbs_le (hv w rfl)
    exact ⟨hn.integer (hv w rfl), by simpa using hle⟩

/-- The two programs read the same usage, of which the calls are few. -/
theorem normalizeUsage_eq {o : Object} {t : TypeScript.UsageSnapshot} (h : IsUsage o t)
    (ho : Ordinary (.obj o)) :
    normalizeUsage .sdk (some o) = ofUsage (TypeScript.normalizedUsage t) ∧
      (TypeScript.normalizedUsage t).calls ≤ 2 ^ 52 := by
  obtain ⟨hcalls, hle⟩ := integer_of_rel h.calls fun w hw => ho.lookup hw
  have hamount := fallback_getD (ho.lookup_map h.amount) "0"
  have hquantity := fallback_getD (ho.lookup_map h.quantity) "0"
  have hminted := fallback_getD (ho.lookup_map h.mintedSupply) "0"
  have hkeys : sortStrings (t.idempotencyKeys.getD [])
      = TypeScript.sortStrings (t.idempotencyKeys.getD []) := by
    refine sortStrings_eq fun s hs => ?_
    cases hsome : t.idempotencyKeys with
    | none => simp [hsome] at hs
    | some xs =>
      have hxs : o.lookup "idempotency_keys" = some (texts xs) := by
        rw [h.idempotencyKeys, hsome, Option.map_some]
      rw [hsome, Option.getD_some] at hs
      exact (ho.lookup_texts hxs s hs).basicPlane
  refine ⟨?_, hle⟩
  simp [normalizeUsage, ofUsage, TypeScript.normalizedUsage, Program.integer, hcalls, h.amount,
    h.currency, h.quantity, h.consumed, h.idempotencyKeys, h.mintedSupply, hamount, hquantity,
    hminted, hkeys]

/-- The members of a consumption that the evaluators read, as both have them. -/
structure IsDelta (d : Delta) (t : TypeScript.EffectiveConsumption) : Prop where
  calls : integer (some d.calls) = t.calls
  fewCalls : t.calls ≤ 2 ^ 52
  amount : d.amount = .str t.amount
  currency : d.currency = .str t.currency
  quantity : ∃ s, d.quantity = .str s ∧ t.quantity = .str s
  idempotencyKey : d.idempotencyKey = .str t.idempotencyKey
  consume : d.consume = .bool t.consume

/-- The supplied consumption; without one there is an empty one. -/
theorem index_consumption {o : Object} {t : EvaluationRequest} (h : IsRequest engine o t)
    (ho : Ordinary (.obj o)) :
    ∃ c, IsConsumption c (t.consumption.getD {}) ∧ Ordinary (.obj c) ∧
      ∀ key, index (object (o.lookup "consumption")) key = c.lookup key := by
  rcases object_cases h.consumption with ⟨hnone, ht⟩ | ⟨c, tc, hc, ht, hconsumption⟩
  · rw [hnone, ht]
    refine ⟨[], ⟨.none, rfl, rfl, rfl, rfl, rfl⟩, ⟨?_, ?_⟩, fun _ => rfl⟩
    · intro n hn
      simp [Json.numbers, Json.memberNumbers] at hn
    · intro s hs
      simp [Json.strings, Json.memberStrings] at hs
  · rw [hc, ht]
    exact ⟨c, hconsumption, ho.object hc, fun _ => rfl⟩

theorem getD_map_str (s : Option String) (d : String) :
    (s.map Json.str).getD (.str d : Value) = .str (s.getD d) := by
  cases s <;> rfl

/-- A mandate is for one use in both programs. -/
theorem oneTime_eq {o m : Object} {t : AgentMandate} (h : IsMandate engine m t)
    (hd : InDomain o) (hm : object (o.lookup "mandate") = some m) :
    oneTime m = (truthy ((TypeScript.objectAt t.extensions "rwa").bind (·.lookup "one_time"))
      || truthy (t.limits.bind (·.lookup "one_time"))) := by
  have hrwa : truthy ((TypeScript.objectAt t.extensions "rwa").bind (·.lookup "one_time"))
      = boolean (index (terms m "rwa") "one_time") := by
    rw [objectAt_eq h.extensions]
    cases hterms : terms m "rwa" with
    | none => rfl
    | some terms =>
      obtain ⟨b, hb⟩ := ((hd.mandate m hm).rwa _ hterms).oneTime
      rw [Option.map_some, Option.bind_some, lookup_toRecord, index_some]
      exact truthy_eq_boolean fun w hw => ⟨b, by rw [hb] at hw; exact (Option.some.inj hw).symm⟩
  have hlimits : truthy (t.limits.bind (·.lookup "one_time"))
      = boolean (index (object (m.lookup "limits")) "one_time") := by
    rw [h.limits.eq_map]
    cases hlimits : object (m.lookup "limits") with
    | none => rfl
    | some limits =>
      rw [Option.map_some, Option.bind_some, lookup_toRecord, index_some]
      exact truthy_eq_boolean (hd.limits m limits hm hlimits).oneTime
  rw [hrwa, hlimits, oneTime]

theorem itoa_natCast (n : ℕ) : Program.itoa n = Nat.repr n := Nat.repr_eq_ofList_toDigits.symm

/-- The RWA context is an object in both programs. -/
theorem rwa_cases {o : Object} {t : EvaluationRequest} (h : IsRequest engine o t) :
    object (o.lookup "rwa") = none ∧ t.rwa = none ∨
      ∃ w, object (o.lookup "rwa") = some w ∧ t.rwa = some (.obj (toRecord engine w)) := by
  rcases rel_cases h.rwa with ⟨hnone, ht⟩ | ⟨_, _, hsome, ht, w, rfl, rfl⟩
  · exact .inl ⟨by rw [hnone]; rfl, ht⟩
  · exact .inr ⟨w, by rw [hsome]; rfl, ht⟩

/-- Both programs find the same consumption. -/
theorem effectiveConsumption_isDelta {o m : Object} {t : EvaluationRequest}
    (h : IsRequest engine o t) (hmandate : IsMandate engine m t.mandate) (hd : InDomain o)
    (hm : object (o.lookup "mandate") = some m) :
    IsDelta (effectiveConsumption .sdk o m) (TypeScript.effectiveConsumption engine t) := by
  obtain ⟨c, hc, hordinary, hindex⟩ := index_consumption h hd.ordinary
  have hcalls : integer (some ((c.lookup "calls").getD (.num ⟨"1", by decide⟩)))
      = ((t.consumption.getD {}).calls.getD 1 : ℕ) ∧
        (t.consumption.getD {}).calls.getD 1 ≤ 2 ^ 52 := by
    rcases rel_cases hc.calls with ⟨hnone, ht⟩ | ⟨w, k, hw, ht, hk⟩
    · rw [hnone, ht]
      exact ⟨by decide, by norm_num⟩
    · have hle := hk.natAbs_le (hordinary.lookup hw)
      rw [hw, ht]
      exact ⟨hk.integer (hordinary.lookup hw), by simpa using hle⟩
  have hconsume : boolean (some ((c.lookup "consume").getD (.bool false)))
      = ((t.consumption.getD {}).consume == some true) := by
    rw [hc.consume]
    rcases (t.consumption.getD {}).consume with _ | _ | _ <;> rfl
  have honce := oneTime_eq hmandate hd hm
  refine ⟨?_, ?_, ?_, ?_, ?_, ?_, ?_⟩
  · simpa [effectiveConsumption, TypeScript.effectiveConsumption, hindex] using hcalls.1
  · exact hcalls.2
  · simp only [effectiveConsumption, TypeScript.effectiveConsumption, hindex, hc.amount,
      getD_map_str]
    rcases object_cases h.commerce with ⟨hnone, ht⟩ | ⟨k, tk, hk, ht, hcontext⟩
    · simp [hnone, ht]
    · simp [hk, ht, hcontext.totalAmount, str]
  · simp only [effectiveConsumption, TypeScript.effectiveConsumption, hindex, hc.currency,
      getD_map_str]
    rcases object_cases h.commerce with ⟨hnone, ht⟩ | ⟨k, tk, hk, ht, hcontext⟩
    · simp [hnone, ht]
    · simp [hk, ht, hcontext.currency, str]
  · simp only [effectiveConsumption, TypeScript.effectiveConsumption, hindex, hc.quantity,
      getD_map_str]
    rcases object_cases h.commerce with ⟨hnone, ht⟩ | ⟨k, tk, hk, ht, hcontext⟩
    · rcases rwa_cases h with ⟨hmissing, htrwa⟩ | ⟨w, hcontext, htrwa⟩
      · refine ⟨(t.consumption.getD {}).quantity.getD "0", by simp [hnone, hmissing], ?_⟩
        rw [ht, htrwa]
        cases (t.consumption.getD {}).quantity <;> rfl
      · obtain ⟨s, hs⟩ := (hd.rwa w hcontext).isText "quantity" (by simp)
        refine ⟨s, by simp [hnone, hcontext, hs, str], ?_⟩
        rw [ht, htrwa]
        simp [lookup_toRecord, hs, toTypeScript_str, TypeScript.nullish]
    · obtain ⟨v, n, hv, hn, hpos, hq⟩ := hcontext.quantity
      have hordinaryQuantity := (hd.ordinary.object hk).lookup hv
      have hle := hn.natAbs_le hordinaryQuantity
      have hinteger := hn.integer hordinaryQuantity
      have htext : TypeScript.numberText engine tk.quantity = Nat.repr n := by
        rw [hq, TypeScript.numberText_natCast]
        simp only [Double.maxSafeInteger]
        omega
      refine ⟨Nat.repr n, ?_, by simp [ht, htext]⟩
      simp [hk, Program.commerceQuantity, hv, hinteger, itoa_natCast]
  · simp only [effectiveConsumption, TypeScript.effectiveConsumption, hindex, hc.idempotencyKey,
      getD_map_str]
    rcases object_cases h.commerce with ⟨hnone, ht⟩ | ⟨k, tk, hk, ht, hcontext⟩
    · simp [hnone, ht]
    · simp [hk, ht, hcontext.idempotencyKey, str]
  · simp [effectiveConsumption, TypeScript.effectiveConsumption, hindex, Program.consumeValue,
      hconsume, honce, Bool.or_comm]

/-- The name of a member of a consumption. -/
def fieldName : TypeScript.ConsumptionField → String
  | .amount => "amount"
  | .currency => "currency"
  | .quantity => "quantity"
  | .idempotencyKey => "idempotency_key"
  | .consume => "consume"

/-- A member of an effective consumption. -/
def Delta.field (d : Delta) : TypeScript.ConsumptionField → Value
  | .amount => d.amount
  | .currency => d.currency
  | .quantity => d.quantity
  | .idempotencyKey => d.idempotencyKey
  | .consume => d.consume

/-- A supplied member prints like the effective one exactly if it is the same. -/
theorem sprint_field {c : Object} {t : TypeScript.Consumption} (h : IsConsumption c t) {d : Delta}
    {e : TypeScript.EffectiveConsumption} (hd : IsDelta d e)
    (field : TypeScript.ConsumptionField) :
    (c.lookup (fieldName field)).any (fun v => sprint v != sprint (d.field field))
      = (t.field field).any fun v => !strictEq (some v) (some (e.field field)) := by
  obtain ⟨s, hquantity, hs⟩ := hd.quantity
  have htext : ∀ a : Option String, ∀ b : String,
      (a.map Json.str : Option Value).any (fun v => sprint v != sprint (.str b))
        = (a.map Json.str : Option TypeScript.Value).any
          fun v => !strictEq (some v) (some (.str b)) := by
    intro a b
    cases a with
    | none => rfl
    | some a => simp [sprint, strictEq, bne]
  cases field with
  | amount =>
    rw [Delta.field, hd.amount, fieldName, h.amount]
    exact htext _ _
  | currency =>
    rw [Delta.field, hd.currency, fieldName, h.currency]
    exact htext _ _
  | quantity =>
    rw [Delta.field, hquantity, fieldName, h.quantity, TypeScript.EffectiveConsumption.field, hs]
    exact htext _ _
  | idempotencyKey =>
    rw [Delta.field, hd.idempotencyKey, fieldName, h.idempotencyKey]
    exact htext _ _
  | consume =>
    rw [Delta.field, hd.consume, fieldName, h.consume]
    simp only [TypeScript.Consumption.field, TypeScript.EffectiveConsumption.field]
    rcases t.consume with _ | _ | _ <;> rcases e.consume with _ | _ <;> decide

/-- The members that the context determines are the same. -/
theorem contextFields_eq {o : Object} {t : EvaluationRequest} (h : IsRequest engine o t)
    (d : Delta) : contextFields o d
      = (TypeScript.contextFields t).map fun field => (fieldName field, d.field field) := by
  unfold contextFields TypeScript.contextFields
  rcases object_cases h.commerce with ⟨hnone, ht⟩ | ⟨k, tk, hk, ht, -⟩
  · rcases rwa_cases h with ⟨hmissing, htrwa⟩ | ⟨w, hcontext, htrwa⟩
    · simp [hnone, ht, hmissing, htrwa, truthy]
    · simp [hnone, ht, hcontext, htrwa, truthy, fieldName, Delta.field]
  · simp [hk, ht, fieldName, Delta.field]

theorem checkConsumptionContext_eq {o : Object} {t : EvaluationRequest} (h : IsRequest engine o t)
    {d : Delta} {e : TypeScript.EffectiveConsumption} (hd : IsDelta d e) (reasons : Reasons) :
    checkConsumptionContext o d reasons = TypeScript.checkConsumptionContext t e reasons := by
  unfold checkConsumptionContext TypeScript.checkConsumptionContext
  rcases object_cases h.consumption with ⟨hnone, ht⟩ | ⟨c, tc, hc, ht, hconsumption⟩
  · simp only [hnone, ht]
  · have hwithdrawn : (boolean (some d.consume)
        && (c.lookup "consume").any fun v => !boolean (some v))
          = (e.consume && tc.consume == some false) := by
      rw [hd.consume, hconsumption.consume]
      rcases tc.consume with _ | _ | _ <;> cases e.consume <;> rfl
    have hfields : contextFields o d
        ++ (if (e.consume && tc.consume == some false) = true then [("consume", d.consume)] else [])
          = (TypeScript.contextFields t
            ++ if (e.consume && tc.consume == some false) = true then
                [TypeScript.ConsumptionField.consume] else []).map
              fun field => (fieldName field, d.field field) := by
      rw [contextFields_eq h, List.map_append]
      split_ifs <;> rfl
    simp only [hc, ht, hwithdrawn, hfields, List.any_map, Function.comp_def,
      sprint_field hconsumption hd]

/-! ### Checks -/

/-- A Go check that adds what the TypeScript check added to the reasons, and that adds to any
reasons it is given. -/
def Follows (go : Reasons → Except Fault Reasons) (reasons next : Reasons) : Prop :=
  ∃ adds : Reasons → Reasons, (∀ rs, go rs = .ok (adds rs)) ∧ adds reasons = next ∧
    ∀ rs, ∀ code ∈ rs, code ∈ adds rs

theorem Follows.intro {go : Reasons → Except Fault Reasons} {adds : Reasons → Reasons}
    {reasons next : Reasons} (hgo : ∀ rs, go rs = .ok (adds rs)) (hnext : adds reasons = next)
    (hkept : ∀ rs, ∀ code ∈ rs, code ∈ adds rs) : Follows go reasons next :=
  ⟨adds, hgo, hnext, hkept⟩

theorem Follows.refl (reasons : Reasons) : Follows .ok reasons reasons :=
  ⟨id, fun _ => rfl, rfl, fun _ _ => id⟩

/-- One check after the other. -/
theorem Follows.bind {first second : Reasons → Except Fault Reasons}
    {reasons between next : Reasons} (h : Follows first reasons between)
    (h' : Follows second between next) : Follows (fun rs => first rs >>= second) reasons next := by
  obtain ⟨adds, hadds, rfl, hkept⟩ := h
  obtain ⟨adds', hadds', rfl, hkept'⟩ := h'
  refine ⟨fun rs => adds' (adds rs), fun rs => ?_, rfl, fun rs code hcode => ?_⟩
  · simp only [hadds]
    exact hadds' _
  · exact hkept' _ code (hkept rs code hcode)

/-- What was added before is kept. -/
theorem Follows.comp {check : Reasons → Except Fault Reasons} {adds : Reasons → Reasons}
    {reasons next : Reasons} (hkept : ∀ rs, ∀ code ∈ rs, code ∈ adds rs)
    (h : Follows check (adds reasons) next) : Follows (fun rs => check (adds rs)) reasons next := by
  obtain ⟨adds', hadds', rfl, hkept'⟩ := h
  exact ⟨fun rs => adds' (adds rs), fun rs => hadds' _, rfl,
    fun rs code hcode => hkept' _ code (hkept rs code hcode)⟩

/-- A reason for a condition is added before the rest. -/
theorem Follows.addIf {check : Reasons → Except Fault Reasons} {condition : Bool} {code : String}
    {reasons next : Reasons} (h : Follows check (reasons.addIf condition code) next) :
    Follows (fun rs => check (rs.addIf condition code)) reasons next :=
  Follows.comp (fun _ _ hcode => Reasons.mem_addIf_of_mem hcode) h

/-! ### Limits -/

/-- A comparison with a limit that is written in another way. -/
theorem exceeds_of_reads {a b b' : String} {c : ℤ} {q : ℚ} (h : compareDecimal a b = .ok c)
    (hb : Denotes b q) (hb' : Reads b' q) : exceeds a b' = .ok (decide (c > 0)) := by
  obtain ⟨p, q', hp, hq', rfl⟩ := TypeScript.compareDecimal_eq_ok.mp h
  obtain rfl := hq'.unique hb
  refine exceeds_eq_ok.mpr ⟨p, q', reads_of_denotes hp, hb', ?_⟩
  rw [decide_eq_decide]
  split_ifs with heq hlt
  · simp [heq]
  · simp [hlt]
  · simp [hlt]

/-- The calls of two ordinary documents add up without rounding or wrapping. -/
theorem sumCalls_eq {usage : TypeScript.Usage} (hcalls : usage.calls ≤ 2 ^ 52) {d : Delta}
    {e : TypeScript.EffectiveConsumption} (hd : IsDelta d e) :
    Double.roundNat (usage.calls + e.calls) = usage.calls + e.calls ∧
      wrap ((ofUsage usage).calls + Program.sdk.integer (some d.calls) 0)
        = (usage.calls + e.calls : ℕ) := by
  have hfew := hd.fewCalls
  have hinteger : Program.sdk.integer (some d.calls) 0 = e.calls := hd.calls
  have husage : (ofUsage usage).calls = usage.calls := rfl
  refine ⟨Double.roundNat_of_le (by simp only [Double.exactBound]; omega), ?_⟩
  rw [hinteger, husage, wrap_of_natAbs_le (by omega), Nat.cast_add]

theorem callLimitExceeded_eq (hengine : ReadsIntegers engine) {limits : Object}
    (ho : Ordinary (.obj limits)) (hlimits : TypedLimits limits) {usage : TypeScript.Usage}
    (hcalls : usage.calls ≤ 2 ^ 52) {d : Delta} {e : TypeScript.EffectiveConsumption}
    (hd : IsDelta d e) : callLimitExceeded .sdk limits (ofUsage usage) d
      = TypeScript.callLimitExceeded (toRecord engine limits) usage e := by
  unfold callLimitExceeded TypeScript.callLimitExceeded
  rw [lookup_toRecord]
  cases hlookup : limits.lookup "max_calls" with
  | none => simp
  | some v =>
    obtain ⟨k, hk⟩ := hlimits.maxCalls v hlookup
    obtain ⟨hsum, hwrap⟩ := sumCalls_eq hcalls hd
    have hlimit : Program.sdk.integer (some v) 0 = k := hk.integer (ho.lookup hlookup)
    rw [hwrap, hlimit, Option.map_some, hk.toTypeScript hengine (ho.lookup hlookup)]
    simp only [hsum, Option.isSome_some, Bool.true_and, decide_eq_decide]
    exact_mod_cast Iff.rfl

theorem budgetCurrencyMismatch_eq {limits : Object} {usage : TypeScript.Usage} {d : Delta}
    {e : TypeScript.EffectiveConsumption} (hd : IsDelta d e) :
    budgetCurrencyMismatch limits (ofUsage usage) d
      = TypeScript.budgetCurrencyMismatch (toRecord engine limits) usage e := by
  unfold budgetCurrencyMismatch TypeScript.budgetCurrencyMismatch
  rw [lookup_toRecord, hd.currency]
  cases limits.lookup "currency" with
  | none => rfl
  | some v => cases v <;> simp [toTypeScript, Json.map, str, ofUsage]

theorem checkBudget_follows {limits : Object} (ho : Ordinary (.obj limits))
    (hlimits : TypedLimits limits) {usage : TypeScript.Usage} {d : Delta}
    {e : TypeScript.EffectiveConsumption} (hd : IsDelta d e) {reasons next : Reasons}
    (h : TypeScript.checkBudget (toRecord engine limits) usage e reasons = .ok next) :
    Follows (checkBudget limits (ofUsage usage) d) reasons next := by
  have hcurrency := @budgetCurrencyMismatch_eq engine limits usage d e hd
  unfold TypeScript.checkBudget at h
  unfold checkBudget
  rw [lookup_toRecord] at h
  cases hlookup : limits.lookup "max_total" with
  | none =>
    simp only [hlookup, Option.map_none, Except.ok.injEq] at h
    rw [← h]
    exact Follows.refl reasons
  | some v =>
    obtain ⟨total, rfl, -⟩ := hlimits.maxTotal v hlookup
    have hnonempty := (ho.lookup_str hlookup).nonempty
    rw [hlookup, Option.map_some, toTypeScript_str] at h
    by_cases hamount : e.amount = "0"
    · simp only [hamount, ne_eq, not_true_eq_false, decide_false, Except.ok.injEq] at h
      rw [← h]
      simp only [hd.amount, hamount, str, ne_eq, not_true_eq_false, and_false, if_false]
      exact Follows.refl reasons
    · simp only [ne_eq, hamount, not_false_eq_true, decide_true, TypeScript.bind_eq_ok,
        TypeScript.pure_eq_ok] at h
      obtain ⟨sum, hsum, c, hc, rfl⟩ := h
      have hsum' : decimalAdd (ofUsage usage).amount e.amount = .ok sum := decimalAdd_of_ok hsum
      have hexceeds := exceeds_of_compareDecimal hc
      refine ⟨fun rs => (rs.addIf (TypeScript.budgetCurrencyMismatch (toRecord engine limits)
        usage e) "BUDGET_CURRENCY_MISMATCH").addIf (decide (c > 0)) "BUDGET_EXCEEDED",
        fun rs => ?_, rfl, fun rs code hcode => ?_⟩
      · simp only [hd.amount, str, ne_eq, hnonempty, hamount, not_false_eq_true, and_self, if_true,
          hsum', hexceeds, hcurrency, bind, Except.bind, pure, Except.pure]
      · exact Reasons.mem_addIf_of_mem (Reasons.mem_addIf_of_mem hcode)

/-- The quantity limit denotes in TypeScript what Go reads in its print. -/
theorem quantityLimit_reads (hengine : ReadsIntegers engine) {limits : Object}
    (ho : Ordinary (.obj limits)) (hlimits : TypedLimits limits) {v : Value}
    (hv : limits.lookup "max_quantity" = some v) :
    ∃ limit q, TypeScript.quantityLimit engine (toRecord engine limits) = some limit ∧
      Denotes limit q ∧ Reads (sprint v) q := by
  unfold TypeScript.quantityLimit
  rw [lookup_toRecord, hv, Option.map_some]
  rcases hlimits.maxQuantity v hv with ⟨s, rfl, hs⟩ | ⟨k, hk⟩
  · obtain ⟨q, hq, -⟩ := TypeScript.exists_denotes hs
    exact ⟨s, q, by rw [toTypeScript_str], hq, reads_of_denotes hq⟩
  · have hle := hk.natAbs_le (ho.lookup hv)
    rw [hk.toTypeScript hengine (ho.lookup hv)]
    obtain ⟨n, rfl, hn⟩ := hk
    refine ⟨_, k, rfl, ?_, by simpa [sprint] using reads_of_setString hn⟩
    rw [Int.cast_natCast]
    refine TypeScript.denotes_numberText engine ?_
    simp only [Double.maxSafeInteger]
    omega

theorem quantityLimitExceeded_eq (hengine : ReadsIntegers engine) {m limits : Object}
    {tm : AgentMandate} (hmandate : IsMandate engine m tm) (hm : Ordinary (.obj m))
    (ho : Ordinary (.obj limits)) (hlimits : TypedLimits limits) {usage : TypeScript.Usage}
    {d : Delta} {e : TypeScript.EffectiveConsumption} (hd : IsDelta d e) {exceeded : Bool}
    (h : TypeScript.quantityLimitExceeded engine tm (toRecord engine limits) usage e
      = .ok exceeded) :
    quantityLimitExceeded .sdk m limits (ofUsage usage) d = .ok exceeded := by
  obtain ⟨s, hquantity, hs⟩ := hd.quantity
  unfold quantityLimitExceeded
  unfold TypeScript.quantityLimitExceeded at h
  rw [hmandate.profile, hquantity]
  cases hprofile : tm.profile with
  | some profile =>
    have hnonempty := (hm.lookup_map hmandate.profile _ hprofile).nonempty
    simp only [hprofile, Except.ok.injEq] at h
    simp [str, hnonempty, h]
  | none =>
    cases hlookup : limits.lookup "max_quantity" with
    | none =>
      have hlimit : TypeScript.quantityLimit engine (toRecord engine limits) = none := by
        simp [TypeScript.quantityLimit, lookup_toRecord, hlookup]
      simp only [hprofile, hlimit, Except.ok.injEq] at h
      simp [h]
    | some v =>
      obtain ⟨limit, q, hlimit, hq, hread⟩ := quantityLimit_reads hengine ho hlimits hlookup
      simp only [hprofile, hlimit, hs, TypeScript.bind_eq_ok, TypeScript.decimalText_eq_ok,
        TypeScript.pure_eq_ok, Option.some.injEq, Json.str.injEq] at h
      obtain ⟨_, rfl, sum, hsum, c, hc, rfl⟩ := h
      have hsum' : decimalAdd (ofUsage usage).quantity s = .ok sum := decimalAdd_of_ok hsum
      have hexceeds := exceeds_of_reads hc hq hread
      simp only [Option.map_none, str, Option.isSome_some, and_self, if_true, hsum',
        Program.limitText, sprintOption, Option.elim_some, ok_bind, hexceeds]

/-- The limits are checked alike. -/
theorem checkConsumption_follows (hengine : ReadsIntegers engine) {m : Object}
    {tm : AgentMandate} (hmandate : IsMandate engine m tm) (hm : Ordinary (.obj m))
    (hlimits : ∀ limits, object (m.lookup "limits") = some limits → TypedLimits limits)
    {usage : TypeScript.Usage} (hcalls : usage.calls ≤ 2 ^ 52) {d : Delta}
    {e : TypeScript.EffectiveConsumption} (hd : IsDelta d e) {reasons next : Reasons}
    (h : TypeScript.checkConsumption engine tm usage e reasons = .ok next) :
    Follows (checkConsumption .sdk m (ofUsage usage) d) reasons next := by
  have hkey : str (some d.idempotencyKey) = e.idempotencyKey := by rw [hd.idempotencyKey]; rfl
  simp only [TypeScript.checkConsumption, TypeScript.bind_eq_ok] at h
  obtain ⟨exceeded, hexceeded, hbudget⟩ := h
  rw [hmandate.limits.eq_map] at hexceeded hbudget
  have hkept : ∀ rs : Reasons, ∀ code ∈ rs,
      code ∈ (rs.addIf usage.consumed "MANDATE_ALREADY_CONSUMED").addIf
        (e.idempotencyKey != "" && usage.idempotencyKeys.contains e.idempotencyKey)
        "IDEMPOTENCY_REPLAY" :=
    fun rs code hcode => Reasons.mem_addIf_of_mem (Reasons.mem_addIf_of_mem hcode)
  cases hsome : object (m.lookup "limits") with
  | none =>
    -- without limits TypeScript checks an empty record
    rw [hsome, Option.map_none, Option.getD_none] at hexceeded hbudget
    have hfalse : exceeded = false := by
      have hlimit : TypeScript.quantityLimit engine [] = none := rfl
      cases hprofile : tm.profile <;>
        simpa [TypeScript.quantityLimitExceeded, hprofile, hlimit] using hexceeded.symm
    have hcall : TypeScript.callLimitExceeded [] usage e = false := rfl
    refine ⟨_, fun rs => ?_, ?_, hkept⟩
    · simp only [checkConsumption, hsome, hkey]
      rfl
    · simpa [TypeScript.checkBudget, hfalse, hcall, Reasons.addIf_false] using hbudget
  | some limits =>
    rw [hsome, Option.map_some, Option.getD_some] at hexceeded hbudget
    have ho := hm.object hsome
    have hcall := callLimitExceeded_eq hengine ho (hlimits limits hsome) hcalls hd
    have hquantity := quantityLimitExceeded_eq hengine hmandate hm ho (hlimits limits hsome) hd
      hexceeded
    obtain ⟨adds, hadds, hnext, hkept'⟩ := checkBudget_follows ho (hlimits limits hsome) hd hbudget
    refine ⟨fun rs => adds ((((rs.addIf usage.consumed "MANDATE_ALREADY_CONSUMED").addIf
      (e.idempotencyKey != "" && usage.idempotencyKeys.contains e.idempotencyKey)
      "IDEMPOTENCY_REPLAY").addIf (TypeScript.callLimitExceeded (toRecord engine limits) usage e)
      "CALL_LIMIT_EXCEEDED").addIf exceeded "QUANTITY_LIMIT_EXCEEDED"), fun rs => ?_, hnext,
      fun rs code hcode => hkept' _ code ?_⟩
    · simp only [checkConsumption, hsome, hkey, hcall, hquantity, ok_bind]
      exact hadds _
    · exact Reasons.mem_addIf_of_mem (Reasons.mem_addIf_of_mem (hkept rs code hcode))

/-! ### Signed members -/

/-- A member of the type of a text is a text. -/
theorem IsText.of_sameType {v w : Option Value} (h : Option.Rel SameType v w) (hw : IsText w) :
    IsText v := by
  rcases rel_cases h with ⟨rfl, -⟩ | ⟨x, y, rfl, rfl, hxy⟩
  · intro x hx
    cases hx
  · obtain ⟨t, rfl⟩ := hw y rfl
    intro z hz
    obtain rfl := Option.some.inj hz
    cases x with
    | str s => exact ⟨s, rfl⟩
    | _ => exact hxy.elim

/-- A signed member prints like the member of the context exactly if it is the same: texts, and
integers other than zero. -/
theorem printed_eq (hengine : ReadsIntegers engine) {v w : Option Value}
    (h : Option.Rel SameType v w) (hv : ∀ x, v = some x → Ordinary x)
    (hw : ∀ x, w = some x → Ordinary x)
    (hkind : IsText w ∨ ∃ x k, w = some x ∧ IsInteger x k ∧ k ≠ 0) :
    (sprintOption v == sprintOption w)
      = strictEq (v.map (toTypeScript engine)) (w.map (toTypeScript engine)) := by
  rcases hkind with htext | ⟨y, k, rfl, hk, hzero⟩
  · exact sprintOption_eq_iff (IsText.of_sameType h htext) htext hv hw
  · obtain ⟨n, rfl, hn⟩ := hk
    rcases rel_cases h with ⟨-, hnone⟩ | ⟨x, _, rfl, hy, hxy⟩
    · cases hnone
    · obtain rfl := Option.some.inj hy
      cases x with
      | num m =>
        obtain ⟨l, hl, -⟩ := (hv _ rfl).smallInteger
        exact sprint_eq_iff_of_integer hengine ⟨m, rfl, hl⟩ ⟨n, rfl, hn⟩ (hv _ rfl) (hw _ rfl)
          hzero
      | _ => exact hxy.elim

theorem all_eq_of_forall {α : Type} {p q : α → Bool} {xs : List α} (h : ∀ x ∈ xs, p x = q x) :
    xs.all p = xs.all q := by
  induction xs with
  | nil => rfl
  | cons x rest ih =>
    obtain ⟨hx, hrest⟩ := List.forall_mem_cons.mp h
    rw [List.all_cons, List.all_cons, hx, ih hrest]

/-- Two objects whose members are texts have the same fields in both programs. -/
theorem sameFields_eq {a b : Object} (ha : Ordinary (.obj a)) (hb : Ordinary (.obj b))
    {fields : List String} (hatext : ∀ key ∈ fields, IsText (a.lookup key))
    (hbtext : ∀ key ∈ fields, IsText (b.lookup key)) : sameFields a b fields
      = TypeScript.sameFields ((toRecord engine a).lookup ·) ((toRecord engine b).lookup ·)
        fields := by
  refine all_eq_of_forall fun key hkey => ?_
  simp only [lookup_toRecord]
  exact sprintOption_eq_iff (hatext key hkey) (hbtext key hkey) (fun _ hx => ha.lookup hx)
    fun _ hx => hb.lookup hx

/-! ### Commerce -/

/-- The members of a context that are compared with signed ones. -/
theorem lookup_commerceContext (hengine : ReadsIntegers engine) {c : Object}
    {tc : CommerceEvaluationContext} (h : IsCommerceContext c tc) (ho : Ordinary (.obj c)) :
    ∀ field ∈ signedCommerceFields,
      tc.lookup field.2 = (c.lookup field.2).map (toTypeScript engine) ∧
        (IsText (c.lookup field.2) ∨ ∃ x k, c.lookup field.2 = some x ∧ IsInteger x k ∧ k ≠ 0) := by
  have htext : ∀ key s, c.lookup key = some (.str s) →
      some (.str s) = (c.lookup key).map (toTypeScript engine) ∧ IsText (c.lookup key) := by
    intro key s hs
    rw [hs, Option.map_some, toTypeScript_str]
    exact ⟨rfl, fun w hw => ⟨s, (Option.some.inj hw).symm⟩⟩
  have hkey : ∀ key s, c.lookup key = some (.str s) →
      some (.str s) = (c.lookup key).map (toTypeScript engine) ∧
        (IsText (c.lookup key) ∨ ∃ x k, c.lookup key = some x ∧ IsInteger x k ∧ k ≠ 0) :=
    fun key s hs => ⟨(htext key s hs).1, .inl (htext key s hs).2⟩
  intro field hfield
  simp only [signedCommerceFields, List.mem_cons, List.not_mem_nil, or_false] at hfield
  rcases hfield with rfl | rfl | rfl | rfl | rfl | rfl | rfl
  · exact hkey _ _ h.offer
  · exact hkey _ _ h.currency
  · obtain ⟨v, k, hv, hk, hpos, hq⟩ := h.quantity
    refine ⟨?_, .inr ⟨v, k, hv, hk, by omega⟩⟩
    rw [hv, Option.map_some, hk.toTypeScript hengine (ho.lookup hv)]
    simp [CommerceEvaluationContext.lookup, hq]
  · exact hkey _ _ h.unitPrice
  · exact hkey _ _ h.totalAmount
  · exact hkey _ _ h.idempotencyKey
  · simp only [h.termsDigest, CommerceEvaluationContext.lookup]
    cases tc.termsDigest with
    | none => exact ⟨rfl, .inl fun w hw => by cases hw⟩
    | some digest =>
      simp only [Option.map_some, toTypeScript_str, true_and]
      exact .inl fun w hw => ⟨digest, (Option.some.inj hw).symm⟩

/-- The signed quote is compared alike. -/
theorem commerceEnvelopeMismatch_eq (hengine : ReadsIntegers engine) {e c : Object}
    {te : TransactionEnvelope} {tc : CommerceEvaluationContext} (henvelope : IsEnvelope engine e te)
    (he : Ordinary (.obj e)) (hcontext : IsCommerceContext c tc) (hc : Ordinary (.obj c))
    (hsigned : ∀ signed, terms e "commerce" = some signed →
      SignedLike signed c signedCommerceFields) :
    commerceEnvelopeMismatch e c = TypeScript.commerceEnvelopeMismatch te tc := by
  unfold commerceEnvelopeMismatch TypeScript.commerceEnvelopeMismatch
  rw [objectAt_eq henvelope.extensions]
  cases hterms : terms e "commerce" with
  | none => rfl
  | some signed =>
    have ho := he.terms hterms
    have hfields : sameMappedFields signed c signedCommerceFields
        = TypeScript.sameMappedFields ((toRecord engine signed).lookup ·) tc.lookup
          signedCommerceFields := by
      refine all_eq_of_forall fun field hfield => ?_
      obtain ⟨hlookup, hkind⟩ := lookup_commerceContext hengine hcontext hc field hfield
      have hprinted := printed_eq hengine (hsigned signed hterms field hfield)
        (fun _ hx => ho.lookup hx) (fun _ hx => hc.lookup hx) hkind
      simpa only [lookup_toRecord, hlookup] using hprinted
    have hmerchant := (hc.lookup_str hcontext.merchant).nonempty
    have hcounterparty := @getD_bne te.counterparty _ hmerchant
    simp only [signedCommerceFields] at hfields
    simp only [Option.map_some, henvelope.resource, hcontext.service, henvelope.counterparty,
      hcontext.merchant, hfields, str_map, str_str, hcounterparty]

/-- A member of the context differs from the terms. -/
theorem differs_eq {l : Object} {key a : String} (hl : IsText (l.lookup key)) (ha : a ≠ "") :
    (!strictEq (some (.str a)) ((toRecord engine l).lookup key)) = (a != str (l.lookup key)) := by
  rw [lookup_toRecord]
  cases hlookup : l.lookup key with
  | none => simpa [strictEq, str] using ha
  | some v =>
    obtain ⟨s, rfl⟩ := hl v hlookup
    simp [toTypeScript_str, strictEq, bne]

/-- The digest of the terms differs from the terms. -/
theorem termsDigest_eq {l : Object} (ho : Ordinary (.obj l))
    (hl : IsText (l.lookup "terms_digest")) (a : Option String) :
    (truthy ((toRecord engine l).lookup "terms_digest")
        && !strictEq (a.map .str) ((toRecord engine l).lookup "terms_digest"))
      = (str (l.lookup "terms_digest") != "" && a.getD "" != str (l.lookup "terms_digest")) := by
  rw [lookup_toRecord]
  cases hlookup : l.lookup "terms_digest" with
  | none => simp [truthy, str]
  | some v =>
    obtain ⟨s, rfl⟩ := hl v hlookup
    have hnonempty := (ho.lookup_str hlookup).nonempty
    have hdiffers := @getD_bne a s hnonempty
    simp only [Option.map_some, toTypeScript_str, truthy, str_str, hdiffers]
    cases a <;> simp [strictEq, bne]

/-- A decimal of the terms. -/
theorem optionText_eq {l : Object} {key : String} (h : IsDecimalText (l.lookup key)) :
    TypeScript.optionText engine ((toRecord engine l).lookup key) = str (l.lookup key) := by
  obtain ⟨s, hs, -⟩ := h
  simp [lookup_toRecord, hs, toTypeScript_str, TypeScript.optionText, TypeScript.text]

/-- The quantities are compared as integers in Go and as decimals in TypeScript. -/
theorem quantityExceeded_eq (hengine : ReadsIntegers engine) {l c : Object}
    {tc : CommerceEvaluationContext} (hcontext : IsCommerceContext c tc)
    (hc : Ordinary (.obj c)) (hterms : CommerceTerms l) (hl : Ordinary (.obj l)) {d : ℤ}
    (h : compareDecimal (TypeScript.numberText engine tc.quantity)
      (TypeScript.optionText engine ((toRecord engine l).lookup "max_quantity")) = .ok d) :
    Program.sdk.quantityExceeded (c.lookup "quantity") (l.lookup "max_quantity")
      = .ok (decide (d > 0)) := by
  obtain ⟨v, n, hv, hn, -, hq⟩ := hcontext.quantity
  obtain ⟨w, k, hw, hk⟩ := hterms.maxQuantity
  have hnle := hn.natAbs_le (hc.lookup hv)
  have hkle := hk.natAbs_le (hl.lookup hw)
  have hquantity : Denotes (TypeScript.numberText engine tc.quantity) n := by
    rw [hq]
    refine TypeScript.denotes_numberText engine ?_
    simp only [Double.maxSafeInteger]
    omega
  have hlimit : Denotes
      (TypeScript.optionText engine ((toRecord engine l).lookup "max_quantity")) k := by
    rw [lookup_toRecord, hw, Option.map_some, hk.toTypeScript hengine (hl.lookup hw),
      Int.cast_natCast]
    refine TypeScript.denotes_numberText engine ?_
    simp only [Double.maxSafeInteger]
    omega
  obtain ⟨p, q, hp, hq', rfl⟩ := TypeScript.compareDecimal_eq_ok.mp h
  obtain rfl := hp.unique hquantity
  obtain rfl := hq'.unique hlimit
  simp only [Program.quantityExceeded, hv, hw, hn.integer (hc.lookup hv),
    hk.integer (hl.lookup hw), Except.ok.injEq, decide_eq_decide]
  split_ifs with heq hlt
  · have hnk : n = k := by exact_mod_cast heq
    simp [hnk]
  · have hkn : k < n := by exact_mod_cast hlt
    omega
  · have hnk : n ≤ k := by exact_mod_cast not_lt.mp hlt
    omega

/-- The total of a context is compared with the product of its price and quantity. -/
theorem decimalMultiply_eq {c : Object} {tc : CommerceEvaluationContext}
    (hcontext : IsCommerceContext c tc) (hc : Ordinary (.obj c)) {v product : String}
    (h : TypeScript.multiplyDecimal v tc.quantity = .ok product) :
    decimalMultiply v (Program.sdk.integer (c.lookup "quantity") 0) = .ok product := by
  obtain ⟨w, n, hw, hn, -, hq⟩ := hcontext.quantity
  have hinteger : Program.sdk.integer (c.lookup "quantity") 0 = n := by
    rw [hw]
    exact hn.integer (hc.lookup hw)
  rw [hinteger]
  refine decimalMultiply_of_ok ?_
  rw [Int.cast_natCast, ← hq]
  exact h

/-- The Commerce profile is checked alike. -/
theorem checkCommerce_follows (hengine : ReadsIntegers engine) {m e c : Object}
    {tm : AgentMandate} {te : TransactionEnvelope} {tc : CommerceEvaluationContext}
    (hmandate : IsMandate engine m tm) (hm : Ordinary (.obj m))
    (henvelope : IsEnvelope engine e te) (he : Ordinary (.obj e))
    (hcontext : IsCommerceContext c tc) (hc : Ordinary (.obj c))
    (hterms : ∀ l, terms m "commerce" = some l → CommerceTerms l)
    (hsigned : ∀ signed, terms e "commerce" = some signed →
      SignedLike signed c signedCommerceFields)
    {usage : TypeScript.Usage} {reasons next : Reasons}
    (h : TypeScript.checkCommerce engine tm te (some tc) usage reasons = .ok next) :
    Follows (checkCommerce .sdk m e (some c) (ofUsage usage)) reasons next := by
  unfold TypeScript.checkCommerce at h
  rw [objectAt_eq hmandate.extensions] at h
  cases hl : terms m "commerce" with
  | none =>
    simp only [hl, Option.map_none, Except.ok.injEq] at h
    refine ⟨fun rs => rs.add "COMMERCE_CONTEXT_REQUIRED", fun rs => ?_, h, fun rs code hcode => ?_⟩
    · simp only [checkCommerce, hl]
    · exact Reasons.mem_add_of_mem hcode
  | some l =>
    have ht := hterms l hl
    have ho := hm.terms hl
    simp only [hl, Option.map_some, TypeScript.bind_eq_ok, TypeScript.pure_eq_ok,
      optionText_eq ht.maxUnitPrice, optionText_eq ht.maxTotal] at h
    obtain ⟨unitPrice, hunitPrice, product, hproduct, total, htotal, sum, hsum, budget, hbudget,
      quantity, hquantity, rfl⟩ := h
    have hunitPrice' := exceeds_of_compareDecimal hunitPrice
    have hproduct' := decimalMultiply_eq hcontext hc hproduct
    have htotal' := decimalCompare_of_ok htotal
    have hsum' : decimalAdd (ofUsage usage).amount tc.totalAmount = .ok sum := decimalAdd_of_ok hsum
    have hbudget' := exceeds_of_compareDecimal hbudget
    have hquantity' := quantityExceeded_eq hengine hcontext hc ht ho hquantity
    have hsigned' := commerceEnvelopeMismatch_eq hengine henvelope he hcontext hc hsigned
    have hdiffers : ∀ key ∈ ["merchant_organisation_id", "service_id", "offer_id", "currency"],
        ∀ a, c.lookup key = some (.str a) →
          (!strictEq (some (.str a)) ((toRecord engine l).lookup key)) = (a != str (l.lookup key)) := by
      intro key hkey a ha
      refine differs_eq (ht.isText key ?_) (hc.lookup_str ha).nonempty
      simp only [List.mem_cons, List.not_mem_nil, or_false] at hkey ⊢
      tauto
    have hdigest := @termsDigest_eq engine _ ho (ht.isText _ (by simp)) tc.termsDigest
    apply Follows.intro
    · intro rs
      simp only [checkCommerce, hl, hcontext.merchant, hcontext.service, hcontext.offer,
        hcontext.currency, hcontext.unitPrice, hcontext.totalAmount, hcontext.idempotencyKey,
        hcontext.termsDigest, str_str, str_map, hunitPrice', hproduct', htotal', hsum', hbudget',
        hquantity', hsigned', ok_bind, pure, Except.pure]
      rfl
    · simp only [hdiffers _ (by simp) _ hcontext.merchant, hdiffers _ (by simp) _ hcontext.service,
        hdiffers _ (by simp) _ hcontext.offer, hdiffers _ (by simp) _ hcontext.currency, hdigest]
      rfl
    · intro rs code hcode
      repeat apply Reasons.mem_addIf_of_mem
      exact hcode

theorem checkCommerceTerms_follows (hengine : ReadsIntegers engine) {o m e : Object}
    {t : EvaluationRequest} (h : IsRequest engine o t) (hd : InDomain o)
    (hm : object (o.lookup "mandate") = some m) (hmandate : IsMandate engine m t.mandate)
    (he : object (o.lookup "envelope") = some e) (henvelope : IsEnvelope engine e t.envelope)
    {reasons next : Reasons} (hnext : TypeScript.checkCommerceTerms engine t reasons = .ok next) :
    Follows (checkCommerceTerms .sdk o m e (ofUsage (TypeScript.normalizedUsage t.usage)))
      reasons next := by
  have hneeds : ((object (o.lookup "commerce")).isSome
      || str (m.lookup "profile") == commerceProfile) = TypeScript.needsCommerce t := by
    have hprofile := @getD_beq t.mandate.profile commerceProfile (by decide)
    rw [hmandate.profile, str_map, hprofile]
    rcases object_cases h.commerce with ⟨hnone, ht⟩ | ⟨c, tc, hc, ht, -⟩
    · simp only [hnone, TypeScript.needsCommerce, ht]
      rfl
    · simp only [hc, TypeScript.needsCommerce, ht]
      rfl
  unfold TypeScript.checkCommerceTerms at hnext
  by_cases hcheck : TypeScript.needsCommerce t = true
  · rw [if_pos hcheck] at hnext
    have hgo : checkCommerceTerms .sdk o m e (ofUsage (TypeScript.normalizedUsage t.usage))
        = checkCommerce .sdk m e (object (o.lookup "commerce"))
          (ofUsage (TypeScript.normalizedUsage t.usage)) := by
      funext rs
      simp only [checkCommerceTerms, hneeds, if_pos hcheck]
    rw [hgo]
    rcases object_cases h.commerce with ⟨hnone, ht⟩ | ⟨c, tc, hc, ht, hcontext⟩
    · rw [ht] at hnext
      rw [hnone]
      simp only [TypeScript.checkCommerce, Except.ok.injEq] at hnext
      refine ⟨fun rs => rs.add "COMMERCE_CONTEXT_REQUIRED", fun rs => rfl, hnext,
        fun rs code hcode => Reasons.mem_add_of_mem hcode⟩
    · rw [ht] at hnext
      rw [hc]
      exact checkCommerce_follows hengine hmandate (hd.ordinary.object hm) henvelope
        (hd.ordinary.object he) hcontext (hd.ordinary.object hc) (hd.mandate m hm).commerce
        (fun signed hsigned => hd.signedCommerce e c signed he hc hsigned) hnext
  · rw [if_neg hcheck, Except.ok.injEq] at hnext
    have hgo : checkCommerceTerms .sdk o m e (ofUsage (TypeScript.normalizedUsage t.usage))
        = .ok := by
      funext rs
      simp only [checkCommerceTerms, hneeds, if_neg hcheck]
    rw [hgo, ← hnext]
    exact Follows.refl reasons

/-! ### RWA -/

/-- The signed target is compared alike. -/
theorem rwaEnvelopeMismatch_eq (hengine : ReadsIntegers engine) {e w : Object}
    {te : TransactionEnvelope} (henvelope : IsEnvelope engine e te) (he : Ordinary (.obj e))
    (hw : TypedRwaContext w) (ho : Ordinary (.obj w))
    (hsigned : ∀ signed, terms e "rwa" = some signed →
      SignedLike signed w (signedRwaFields.map fun field => (field, field))) :
    rwaEnvelopeMismatch e w
      = TypeScript.rwaEnvelopeMismatch te (some (.obj (toRecord engine w))) := by
  unfold rwaEnvelopeMismatch TypeScript.rwaEnvelopeMismatch
  rw [objectAt_eq henvelope.extensions]
  cases hterms : terms e "rwa" with
  | none => rfl
  | some signed =>
    have hs := he.terms hterms
    have htext : ∀ key ∈ signedRwaFields, IsText (w.lookup key) := by
      intro key hkey
      obtain ⟨s, hs⟩ := hw.isText key (by
        simp only [signedRwaFields, List.mem_cons, List.not_mem_nil, or_false] at hkey ⊢
        tauto)
      exact fun v hv => ⟨s, by rw [hs] at hv; exact (Option.some.inj hv).symm⟩
    have hfields : sameFields signed w signedRwaFields
        = TypeScript.sameFields ((toRecord engine signed).lookup ·)
          (TypeScript.get (some (.obj (toRecord engine w)))) signedRwaFields := by
      refine all_eq_of_forall fun key hkey => ?_
      have hlike := hsigned signed hterms (key, key) (List.mem_map.mpr ⟨key, hkey, rfl⟩)
      have hprinted := printed_eq hengine hlike (fun _ hx => hs.lookup hx)
        (fun _ hx => ho.lookup hx) (.inl (htext key hkey))
      simpa only [lookup_toRecord, TypeScript.get_obj] using hprinted
    obtain ⟨asset, hasset⟩ := hw.isText "asset_id" (by simp)
    have hresource : (te.resource != asset) = !strictEq (some (.str te.resource))
        (TypeScript.get (some (.obj (toRecord engine w))) "asset_id") := by
      simp [lookup_toRecord, hasset, toTypeScript_str, strictEq, bne]
    simp only [signedRwaFields] at hfields
    simp only [Option.map_some, henvelope.resource, hasset, str_str, hfields, hresource]

/-- The loop over the required roles finds the same. -/
theorem checkRequiredRoles_eq (roles required : List String) (reasons : Reasons) :
    TypeScript.checkRequiredRoles (some (.arr (roles.map .str))) required reasons
      = .ok (checkRequiredRoles roles required reasons) := by
  induction required generalizing reasons with
  | nil => rfl
  | cons role rest ih =>
    have hincludes : TypeScript.includes (roles.map .str) (.str role) = roles.contains role := by
      rw [Bool.eq_iff_iff]
      simp [TypeScript.includes, strictEq]
    simp only [TypeScript.checkRequiredRoles, TypeScript.includesMethod, hincludes, ok_bind, ih]
    rfl

theorem mem_checkRequiredRoles {roles required : List String} {reasons : Reasons} {code : String}
    (h : code ∈ reasons) : code ∈ checkRequiredRoles roles required reasons := by
  induction required generalizing reasons with
  | nil => exact h
  | cons role rest ih => exact ih (Reasons.mem_addIf_of_mem h)

/-- The second operand of `&&` is only evaluated when the first holds, in both programs. -/
theorem andAlso_eq {a : Bool} {x : Except Fault Bool} {y : Except TypeScript.JsError Bool}
    {b : Bool} (hxy : a = true → ∀ c, y = .ok c → x = .ok c)
    (h : TypeScript.andThrow (.ok a) y = .ok b) : andAlso (.ok a) x = .ok b := by
  cases a with
  | false => simpa [TypeScript.andThrow, andAlso, bind, Except.bind, pure, Except.pure] using h
  | true => exact hxy rfl b (by simpa [TypeScript.andThrow, bind, Except.bind] using h)

/-- A supply is held against an optional maximum. -/
theorem maximumExceeded_eq {w : Object} (htext : IsText (w.lookup "maximum_supply"))
    {supply : String} {exceeded : Bool}
    (h : TypeScript.andThrow
      (.ok (truthy (TypeScript.get (some (.obj (toRecord engine w))) "maximum_supply")))
      (do return decide ((← compareDecimal supply (← TypeScript.decimalText
        (TypeScript.get (some (.obj (toRecord engine w))) "maximum_supply"))) > 0))
        = .ok exceeded) :
    andAlso (.ok (str (w.lookup "maximum_supply") != ""))
      (exceeds supply (str (w.lookup "maximum_supply"))) = .ok exceeded := by
  have htruthy : truthy (TypeScript.get (some (.obj (toRecord engine w))) "maximum_supply")
      = (str (w.lookup "maximum_supply") != "") := by
    rw [TypeScript.get_obj, lookup_toRecord]
    cases hlookup : w.lookup "maximum_supply" with
    | none => rfl
    | some v =>
      obtain ⟨s, rfl⟩ := htext v hlookup
      simp [toTypeScript_str, truthy]
  rw [htruthy] at h
  refine andAlso_eq (fun hthere c hc => ?_) h
  cases hlookup : w.lookup "maximum_supply" with
  | none => simp [hlookup, str] at hthere
  | some v =>
    obtain ⟨s, rfl⟩ := htext v hlookup
    simp only [TypeScript.get_obj, lookup_toRecord, hlookup, Option.map_some, toTypeScript_str,
      TypeScript.bind_eq_ok, TypeScript.decimalText_eq_ok, TypeScript.pure_eq_ok,
      Option.some.injEq, Json.str.injEq] at hc
    obtain ⟨_, rfl, d, hd, rfl⟩ := hc
    exact exceeds_of_compareDecimal hd

/-- A tracked supply is held against the current one. -/
theorem supplyMismatch_eq {tracked : Bool} {minted current : String} {mismatch : Bool}
    (h : TypeScript.andThrow (.ok tracked)
      (do return decide ((← compareDecimal minted current) ≠ 0)) = .ok mismatch) :
    andAlso (.ok tracked) (do return decide ((← decimalCompare minted current) ≠ 0))
      = .ok mismatch := by
  refine andAlso_eq (fun _ c hc => ?_) h
  rw [TypeScript.bind_eq_ok] at hc
  obtain ⟨d, hd, hc⟩ := hc
  rw [TypeScript.pure_eq_ok] at hc
  rw [decimalCompare_of_ok hd, ← hc]
  rfl

/-- The RWA profile is checked alike. -/
theorem checkRWA_follows (hengine : ReadsIntegers engine) {m e w : Object} {tm : AgentMandate}
    {te : TransactionEnvelope} (hmandate : IsMandate engine m tm) (hm : Ordinary (.obj m))
    (henvelope : IsEnvelope engine e te) (he : Ordinary (.obj e)) (hw : TypedRwaContext w)
    (ho : Ordinary (.obj w)) (hterms : ∀ l, terms m "rwa" = some l → RwaTerms l)
    (hsigned : ∀ signed, terms e "rwa" = some signed →
      SignedLike signed w (signedRwaFields.map fun field => (field, field)))
    {usage : TypeScript.Usage} {tracked : Bool} {now : ℤ} {reasons next : Reasons}
    (h : TypeScript.checkRwa engine tm te (some (.obj (toRecord engine w))) usage tracked
      (1000 * now) reasons = .ok next) :
    Follows (checkRWA runtime .sdk m e (some w) (ofUsage usage) tracked (1000000000 * now))
      reasons next := by
  unfold TypeScript.checkRwa at h
  rw [objectAt_eq hmandate.extensions] at h
  cases hl : terms m "rwa" with
  | none =>
    simp only [hl, Option.map_none, truthy, Except.ok.injEq] at h
    refine ⟨fun rs => rs.add "RWA_CONTEXT_REQUIRED", fun rs => ?_, h, fun rs code hcode => ?_⟩
    · simp only [checkRWA, hl]
    · exact Reasons.mem_add_of_mem hcode
  | some l =>
    have ht := hterms l hl
    have hlo := hm.terms hl
    obtain ⟨quantity, hquantity⟩ := hw.isText "quantity" (by simp)
    obtain ⟨current, hcurrent⟩ := hw.isText "current_supply" (by simp)
    obtain ⟨reserve, hreserve⟩ := hw.isText "reserve" (by simp)
    obtain ⟨stop, hstop, hsecond⟩ := hw.claimValidUntil
    obtain ⟨roles, hroles⟩ := hw.approvalRoles
    obtain ⟨count, k, hcount, hk⟩ := hw.approvalCount
    obtain ⟨minimum, n, hminimum, hn⟩ := ht.minimumApprovals
    obtain ⟨once, honce⟩ := ht.oneTime
    obtain ⟨time, htime, hparse⟩ := hsecond.reads engine runtime
    have hget : ∀ key, TypeScript.get (some (.obj (toRecord engine w))) key
        = (w.lookup key).map (toTypeScript engine) := fun key => lookup_toRecord engine w key
    have hrecord : ∀ key, (toRecord engine l).lookup key
        = (l.lookup key).map (toTypeScript engine) := lookup_toRecord engine l
    simp only [hl, Option.map_some, truthy, TypeScript.bind_eq_ok, TypeScript.pure_eq_ok,
      TypeScript.decimalText_eq_ok, optionText_eq ht.maxQuantity] at h
    obtain ⟨until', huntil, _, hq, sum, hsum, c, hc, _, hs, supply, hsupply, _, hr, c', hc',
      maximum, hmaximum, mismatch, hmismatch, before, hbefore, rfl⟩ := h
    have hmaximum' := maximumExceeded_eq hw.maximumSupply hmaximum
    simp only [hget, hquantity, hcurrent, hreserve, hstop, Option.map_some, toTypeScript_str,
      Option.some.injEq, Json.str.injEq] at hq hs hr huntil
    subst hq hs hr
    have hmismatch' := supplyMismatch_eq hmismatch
    have hsum' : decimalAdd (ofUsage usage).quantity quantity = .ok sum := decimalAdd_of_ok hsum
    have hquantity' := exceeds_of_compareDecimal hc
    have hsupply' := decimalAdd_of_ok hsupply
    have hreserve' := exceeds_of_compareDecimal hc'
    have htimestamp : until' = 1000 * time := by
      have hok : TypeScript.timestamp engine stop = .ok until' := huntil
      rw [htime] at hok
      exact (Except.ok.inj hok).symm
    have hexpired : Program.sdk.onTime runtime stop (fun t => !decide (t > 1000000000 * now))
        = decide (until' ≤ 1000 * now) := by
      simp only [Program.onTime, hparse, Option.getD_some, htimestamp]
      rw [← decide_not, decide_eq_decide]
      omega
    have htext : ∀ key ∈ ["asset_id", "state_claim_id", "network", "token_contract", "operation",
        "unit"], IsText (w.lookup key) := by
      intro key hkey
      obtain ⟨s, hs⟩ := hw.isText key (by
        simp only [List.mem_cons, List.not_mem_nil, or_false] at hkey ⊢
        tauto)
      exact fun v hv => ⟨s, by rw [hs] at hv; exact (Option.some.inj hv).symm⟩
    have hsame : sameFields w l
        ["asset_id", "state_claim_id", "network", "token_contract", "operation", "unit"]
          = TypeScript.sameFields (TypeScript.get (some (.obj (toRecord engine w))))
            ((toRecord engine l).lookup ·)
            ["asset_id", "state_claim_id", "network", "token_contract", "operation", "unit"] :=
      sameFields_eq ho hlo htext ht.isText
    have happrovals : decide (Program.sdk.integer (w.lookup "approval_count") 0
          < Program.sdk.integer (l.lookup "minimum_approvals") 0)
        = TypeScript.numberLt
          (TypeScript.toNumber engine ((w.lookup "approval_count").map (toTypeScript engine)))
          (TypeScript.toNumber engine
            ((l.lookup "minimum_approvals").map (toTypeScript engine))) := by
      rw [hcount, hminimum]
      simp only [Option.map_some, hk.toTypeScript hengine (ho.lookup hcount),
        hn.toTypeScript hengine (hlo.lookup hminimum), Program.integer,
        hk.integer (ho.lookup hcount), hn.integer (hlo.lookup hminimum), TypeScript.toNumber,
        TypeScript.numberLt, decide_eq_decide]
      exact_mod_cast Iff.rfl
    have hrequired := @stringArray_toTypeScript engine (l.lookup "required_roles")
    have honce' : strictEq ((l.lookup "one_time").map (toTypeScript engine)) (some (.bool true))
        = boolean (l.lookup "one_time") := by
      rw [honce]
      cases once <;> simp [toTypeScript_bool, strictEq, boolean]
    have hmismatchSigned := rwaEnvelopeMismatch_eq hengine henvelope he hw ho hsigned
    rw [← hsame, ← hmismatchSigned] at hbefore
    simp only [hget, hrecord, hroles, Option.map_some, toTypeScript_texts, hrequired,
      ← happrovals, checkRequiredRoles_eq, Except.ok.injEq] at hbefore
    subst hbefore
    have hminted : (ofUsage usage).mintedSupply = usage.mintedSupply := rfl
    apply Follows.intro
    · intro rs
      simp only [checkRWA, hl, hquantity, hcurrent, hreserve, hstop, str_str, hsum', hquantity',
        hsupply', hreserve', hmaximum', hminted, hmismatch', hroles, stringsFrom_texts, ok_bind,
        hexpired]
      rfl
    · rw [hrecord, honce']
      rfl
    · intro rs code hcode
      repeat apply Reasons.mem_addIf_of_mem
      apply mem_checkRequiredRoles
      repeat apply Reasons.mem_addIf_of_mem
      exact hcode

theorem checkRWATerms_follows (hengine : ReadsIntegers engine) {o m e u : Object}
    {t : EvaluationRequest} (h : IsRequest engine o t) (hd : InDomain o)
    (hm : object (o.lookup "mandate") = some m) (hmandate : IsMandate engine m t.mandate)
    (he : object (o.lookup "envelope") = some e) (henvelope : IsEnvelope engine e t.envelope)
    (hu : object (o.lookup "usage") = some u) (husage : IsUsage u t.usage) {now : ℤ}
    {reasons next : Reasons}
    (hnext : TypeScript.checkRwaTerms engine t (1000 * now) reasons = .ok next) :
    Follows (checkRWATerms runtime .sdk o m e (ofUsage (TypeScript.normalizedUsage t.usage))
      (1000000000 * now)) reasons next := by
  have htracked : (index (object (o.lookup "usage")) "minted_supply").isSome
      = t.usage.mintedSupply.isSome := by
    rw [hu, index_some, husage.mintedSupply, Option.isSome_map]
  have hneeds : ((object (o.lookup "rwa")).isSome || str (m.lookup "profile") == rwaProfile)
      = TypeScript.needsRwa t := by
    have hprofile := @getD_beq t.mandate.profile rwaProfile (by decide)
    rw [hmandate.profile, str_map, hprofile]
    rcases rwa_cases h with ⟨hnone, ht⟩ | ⟨w, hw, ht⟩
    · simp only [hnone, TypeScript.needsRwa, ht]
      rfl
    · simp only [hw, TypeScript.needsRwa, ht]
      rfl
  unfold TypeScript.checkRwaTerms at hnext
  by_cases hcheck : TypeScript.needsRwa t = true
  · rw [if_pos hcheck] at hnext
    have hgo : checkRWATerms runtime .sdk o m e
        (ofUsage (TypeScript.normalizedUsage t.usage)) (1000000000 * now)
          = checkRWA runtime .sdk m e (object (o.lookup "rwa"))
            (ofUsage (TypeScript.normalizedUsage t.usage)) t.usage.mintedSupply.isSome
            (1000000000 * now) := by
      funext rs
      simp only [checkRWATerms, hneeds, if_pos hcheck, htracked]
    rw [hgo]
    rcases rwa_cases h with ⟨hnone, ht⟩ | ⟨w, hw, ht⟩
    · rw [ht] at hnext
      rw [hnone]
      simp only [TypeScript.checkRwa, truthy, Except.ok.injEq] at hnext
      refine ⟨fun rs => rs.add "RWA_CONTEXT_REQUIRED", fun rs => rfl, hnext,
        fun rs code hcode => Reasons.mem_add_of_mem hcode⟩
    · rw [ht] at hnext
      rw [hw]
      exact checkRWA_follows hengine hmandate (hd.ordinary.object hm) henvelope
        (hd.ordinary.object he) (hd.rwa w hw) (hd.ordinary.object hw) (hd.mandate m hm).rwa
        (fun signed hsigned => hd.signedRwa e w signed he hw hsigned) hnext
  · rw [if_neg hcheck, Except.ok.injEq] at hnext
    have hgo : checkRWATerms runtime .sdk o m e
        (ofUsage (TypeScript.normalizedUsage t.usage)) (1000000000 * now) = .ok := by
      funext rs
      simp only [checkRWATerms, hneeds, if_neg hcheck]
    rw [hgo, ← hnext]
    exact Follows.refl reasons

/-! ### The usage after an allowed request -/

/-- The supply that an allowed request leaves. -/
theorem nextMintedSupply_eq {o : Object} {t : EvaluationRequest} (h : IsRequest engine o t)
    (hd : InDomain o) {usage : TypeScript.Usage} {supply : String}
    (hnext : TypeScript.nextMintedSupply usage t = .ok supply) :
    nextMintedSupply (ofUsage usage) (object (o.lookup "rwa")) = .ok supply := by
  unfold TypeScript.nextMintedSupply at hnext
  rcases rwa_cases h with ⟨hnone, ht⟩ | ⟨w, hw, ht⟩
  · rw [hnone]
    simpa [ht, truthy, nextMintedSupply, ofUsage] using hnext
  · obtain ⟨current, hcurrent⟩ := (hd.rwa w hw).isText "current_supply" (by simp)
    obtain ⟨quantity, hquantity⟩ := (hd.rwa w hw).isText "quantity" (by simp)
    simp only [ht, truthy, if_true, TypeScript.get_obj, lookup_toRecord, hcurrent, hquantity,
      Option.map_some, toTypeScript_str, TypeScript.bind_eq_ok, TypeScript.decimalText_eq_ok,
      Option.some.injEq, Json.str.injEq] at hnext
    obtain ⟨_, rfl, _, rfl, hsum⟩ := hnext
    simp only [hw, nextMintedSupply, hcurrent, hquantity, str_str]
    exact decimalAdd_of_ok hsum

/-- Both programs apply the consumption alike. -/
theorem applyConsumption_eq {o : Object} {t : EvaluationRequest} (h : IsRequest engine o t)
    (hd : InDomain o) {usage next : TypeScript.Usage} (hcalls : usage.calls ≤ 2 ^ 52)
    (hkeys : ∀ s ∈ usage.idempotencyKeys, ∀ c ∈ s.toList, c.toNat < 0x10000)
    (hsorted : TypeScript.sortStrings usage.idempotencyKeys = usage.idempotencyKeys)
    {d : Delta} {e : TypeScript.EffectiveConsumption} (hdelta : IsDelta d e)
    (hkey : ∀ c ∈ e.idempotencyKey.toList, c.toNat < 0x10000)
    (hnext : TypeScript.applyConsumption usage e t = .ok next) :
    applyConsumption .sdk (ofUsage usage) d (object (o.lookup "rwa")) = .ok (ofUsage next) := by
  obtain ⟨s, hquantity, hs⟩ := hdelta.quantity
  simp only [TypeScript.applyConsumption, hs, TypeScript.bind_eq_ok, TypeScript.decimalText_eq_ok,
    TypeScript.pure_eq_ok, Option.some.injEq, Json.str.injEq] at hnext
  obtain ⟨amount, hamount, _, rfl, quantity, hsum, supply, hsupply, rfl⟩ := hnext
  have hamount' : decimalAdd (ofUsage usage).amount e.amount = .ok amount := decimalAdd_of_ok hamount
  have hsum' : decimalAdd (ofUsage usage).quantity s = .ok quantity := decimalAdd_of_ok hsum
  have hsupply' := nextMintedSupply_eq h hd hsupply
  obtain ⟨hround, hwrap⟩ := sumCalls_eq hcalls hdelta
  have hsort : sortStrings (usage.idempotencyKeys
      ++ if e.idempotencyKey = "" then [] else [e.idempotencyKey])
        = if e.idempotencyKey = "" then usage.idempotencyKeys
          else TypeScript.sortStrings (usage.idempotencyKeys ++ [e.idempotencyKey]) := by
    split_ifs
    · rw [List.append_nil, sortStrings_eq hkeys, hsorted]
    · refine sortStrings_eq fun x hx => ?_
      rcases List.mem_append.mp hx with hx | hx
      · exact hkeys x hx
      · rw [List.mem_singleton.mp hx]
        exact hkey
  simp only [applyConsumption, hdelta.amount, hquantity, hdelta.idempotencyKey, hdelta.currency,
    hdelta.consume, str_str, hamount', hsum', hsupply', ok_bind, hwrap, fallback]
  simp [ofUsage, hsort, hround, boolean, pure, Except.pure]

end Oati.Go

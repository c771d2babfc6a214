import Oati.TypeScript.Evaluator

/-!
# What a passed check says

One inversion per check of the evaluator: the check adds no reason exactly if the conditions
named here hold. The later modules reason with these structures and never unfold a check.

* `ChildOf` and `ProfileSubset`: one delegation link.
* `MandatePermits`: the checks that read neither usage nor consumption.
* `ConsumptionPermits`, `CommercePermits`, `RwaPermits`: the accounting rules, with decimals as
  the rationals they denote.
* `evaluateAuthority_allow_iff`: the decision is `allow` exactly if every check passes and the
  usage can be updated.
-/

namespace Oati.TypeScript

variable {engine : Engine}

/-! ### Decimals under a limit -/

/-- Both values are decimal strings and the first is at most the second. -/
def DecimalAtMost (child parent : Option Value) : Prop :=
  ∃ c p a b, child = some (.str c) ∧ parent = some (.str p) ∧ Denotes c a ∧ Denotes p b ∧ a ≤ b

/-- Both values are numbers and the first is at most the second. -/
def NumberAtMost (child parent : Option Value) : Prop :=
  ∃ c p : ℚ, child = some (.num c) ∧ parent = some (.num p) ∧ c ≤ p

theorem decimalAtMost_eq_true {child parent : Option Value} :
    decimalAtMost child parent = .ok true ↔ DecimalAtMost child parent := by
  unfold decimalAtMost DecimalAtMost
  split
  next c p =>
    have hiff := @compareDecimal_nonpos_iff c p
    simp only [bind_eq_ok, pure_eq_ok, decide_eq_true_eq, Option.some.injEq, Json.str.injEq]
    rw [hiff]
    constructor
    · rintro ⟨a, b, ha, hb, hle⟩
      exact ⟨c, p, a, b, rfl, rfl, ha, hb, hle⟩
    · rintro ⟨_, _, a, b, rfl, rfl, ha, hb, hle⟩
      exact ⟨a, b, ha, hb, hle⟩
  next hns =>
    simp only [Except.ok.injEq, Bool.false_eq_true, false_iff]
    rintro ⟨c, p, a, b, rfl, rfl, -⟩
    exact hns c p rfl rfl

theorem numberAtMost_eq_true {child parent : Option Value} :
    numberAtMost child parent = true ↔ NumberAtMost child parent := by
  unfold numberAtMost NumberAtMost
  split
  next c p => simp
  next hns =>
    simp only [Bool.false_eq_true, false_iff]
    rintro ⟨c, p, rfl, rfl, -⟩
    exact hns c p rfl rfl

theorem numberAtLeast_eq_true {child parent : Option Value} :
    numberAtLeast child parent = true ↔ NumberAtMost parent child := by
  unfold numberAtLeast NumberAtMost
  split
  next c p =>
    simp only [decide_eq_true_eq, Option.some.injEq, Json.num.injEq]
    exact ⟨fun h => ⟨p, c, rfl, rfl, h⟩, by rintro ⟨_, _, rfl, rfl, h⟩; exact h⟩
  next hns =>
    simp only [Bool.false_eq_true, false_iff]
    rintro ⟨p, c, rfl, rfl, -⟩
    exact hns c p rfl rfl

theorem DecimalAtMost.trans {a b c : Option Value} (hab : DecimalAtMost a b)
    (hbc : DecimalAtMost b c) : DecimalAtMost a c := by
  obtain ⟨s, t, p, q, rfl, rfl, hp, hq, hpq⟩ := hab
  obtain ⟨t', u, q', r, ht, rfl, hq', hr, hqr⟩ := hbc
  cases ht
  exact ⟨s, u, p, r, rfl, rfl, hp, hr, hpq.trans (hq.unique hq' ▸ hqr)⟩

theorem NumberAtMost.trans {a b c : Option Value} (hab : NumberAtMost a b)
    (hbc : NumberAtMost b c) : NumberAtMost a c := by
  obtain ⟨p, q, rfl, rfl, hpq⟩ := hab
  obtain ⟨q', r, hq, rfl, hqr⟩ := hbc
  cases hq
  exact ⟨p, r, rfl, rfl, hpq.trans hqr⟩

/-! ### Membership tests -/

theorem subset_iff {child parent : List String} :
    subset child parent = true ↔ ∀ item ∈ child, item ∈ parent := by
  simp [subset]

theorem constrainedSubset_iff {child parent : Option (List String)} :
    constrainedSubset child parent = true ↔
      ∀ p, parent = some p → ∃ c, child = some c ∧ ∀ item ∈ c, item ∈ p := by
  cases parent with
  | none => simp [constrainedSubset]
  | some p => cases child <;> simp [constrainedSubset, subset_iff]

theorem checkSetConstraint_eq_nil {allowed : Option (List String)} {actual : Option String}
    {code : String} {reasons : Reasons} :
    checkSetConstraint allowed actual code reasons = [] ↔
      reasons = [] ∧ ∀ items, allowed = some items → ∃ a, actual = some a ∧ a ≠ "" ∧ a ∈ items := by
  cases allowed with
  | none => simp [checkSetConstraint]
  | some items => cases actual <;> simp [checkSetConstraint]

theorem sameFields_trans {a b c : String → Option Value} {fields : List String}
    (hab : sameFields a b fields = true) (hbc : sameFields b c fields = true) :
    sameFields a c fields = true := by
  simp only [sameFields, List.all_eq_true] at hab hbc ⊢
  exact fun field hf => strictEq_trans (hab field hf) (hbc field hf)

/-! ### One delegation link -/

/-- The Commerce terms of a child are within the parent's. -/
structure CommerceWithin (child parent : Record) : Prop where
  identities : sameFields (child.lookup ·) (parent.lookup ·)
    ["merchant_organisation_id", "service_id", "offer_id", "currency", "billing_model",
      "terms_digest"] = true
  unitPrice : DecimalAtMost (child.lookup "max_unit_price") (parent.lookup "max_unit_price")
  total : DecimalAtMost (child.lookup "max_total") (parent.lookup "max_total")
  quantity : NumberAtMost (child.lookup "max_quantity") (parent.lookup "max_quantity")

/-- The RWA terms of a child are within the parent's. -/
structure RwaWithin (child parent : Record) : Prop where
  target : sameFields (child.lookup ·) (parent.lookup ·)
    ["asset_id", "state_claim_id", "network", "token_contract", "operation", "unit"] = true
  quantity : DecimalAtMost (child.lookup "max_quantity") (parent.lookup "max_quantity")
  approvals : NumberAtMost (parent.lookup "minimum_approvals") (child.lookup "minimum_approvals")
  roles : ∀ role ∈ stringArray (parent.lookup "required_roles"),
    role ∈ stringArray (child.lookup "required_roles")
  oneTime : strictEq (parent.lookup "one_time") (some (.bool true)) = true →
    strictEq (child.lookup "one_time") (some (.bool true)) = true

theorem CommerceWithin.trans {a b c : Record} (hab : CommerceWithin a b)
    (hbc : CommerceWithin b c) : CommerceWithin a c where
  identities := sameFields_trans hab.identities hbc.identities
  unitPrice := hab.unitPrice.trans hbc.unitPrice
  total := hab.total.trans hbc.total
  quantity := hab.quantity.trans hbc.quantity

theorem RwaWithin.trans {a b c : Record} (hab : RwaWithin a b) (hbc : RwaWithin b c) :
    RwaWithin a c where
  target := sameFields_trans hab.target hbc.target
  quantity := hab.quantity.trans hbc.quantity
  approvals := hbc.approvals.trans hab.approvals
  roles := fun role h => hab.roles role (hbc.roles role h)
  oneTime := fun h => hab.oneTime (hbc.oneTime h)

/-- The profile terms of a child are within the parent's. -/
structure ProfileSubset (child parent : AgentMandate) : Prop where
  commerce : ∀ p, objectAt parent.extensions "commerce" = some p →
    ∃ c, objectAt child.extensions "commerce" = some c ∧ CommerceWithin c p
  rwa : ∀ p, objectAt parent.extensions "rwa" = some p →
    ∃ c, objectAt child.extensions "rwa" = some c ∧ RwaWithin c p

theorem ProfileSubset.trans {a b c : AgentMandate} (hab : ProfileSubset a b)
    (hbc : ProfileSubset b c) : ProfileSubset a c where
  commerce := fun p hp => by
    obtain ⟨m, hm, hmp⟩ := hbc.commerce p hp
    obtain ⟨n, hn, hnm⟩ := hab.commerce m hm
    exact ⟨n, hn, hnm.trans hmp⟩
  rwa := fun p hp => by
    obtain ⟨m, hm, hmp⟩ := hbc.rwa p hp
    obtain ⟨n, hn, hnm⟩ := hab.rwa m hm
    exact ⟨n, hn, hnm.trans hmp⟩

/-- A string the code takes for absent: none, or the empty one. -/
def Falsy (value : Option String) : Prop := value.any (· != "") = false

theorem commerceWidened_eq_false {child parent : Option Record} :
    commerceWidened child parent = .ok false ↔
      ∀ p, parent = some p → ∃ c, child = some c ∧ CommerceWithin c p := by
  rcases parent with _ | p
  · simp [commerceWidened]
  rcases child with _ | c
  · simp [commerceWidened]
  simp only [commerceWidened, orThrow_eq_false, map_eq_ok, Except.ok.injEq,
    Bool.not_eq_eq_eq_not, Bool.not_false, exists_eq_right, decimalAtMost_eq_true,
    numberAtMost_eq_true, Option.some.injEq, forall_eq', exists_eq_left']
  exact ⟨fun h => ⟨h.1, h.2.1, h.2.2.1, h.2.2.2⟩, fun h => ⟨h.1, h.2, h.3, h.4⟩⟩

theorem rwaWidened_eq_false {child parent : Option Record} :
    rwaWidened child parent = .ok false ↔
      ∀ p, parent = some p → ∃ c, child = some c ∧ RwaWithin c p := by
  rcases parent with _ | p
  · simp [rwaWidened]
  rcases child with _ | c
  · simp [rwaWidened]
  simp only [rwaWidened, orThrow_eq_false, map_eq_ok, Except.ok.injEq,
    Bool.not_eq_eq_eq_not, Bool.not_false, exists_eq_right, decimalAtMost_eq_true,
    numberAtLeast_eq_true, subset_iff, Bool.or_eq_false_iff, Bool.and_eq_false_imp,
    Option.some.injEq, forall_eq', exists_eq_left']
  exact ⟨fun h => ⟨h.1, h.2.1, h.2.2.1.1, h.2.2.1.2, h.2.2.2⟩,
    fun h => ⟨h.1, h.2, ⟨h.3, h.4⟩, h.5⟩⟩

/-- `checkProfileSubset` adds no reason: the profiles are equal and the terms are within the
parent's, or the profiles differ only in how their absence is written. -/
theorem checkProfileSubset_eq_nil {child parent : AgentMandate} {reasons : Reasons} :
    checkProfileSubset child parent reasons = .ok [] ↔
      reasons = [] ∧ (child.profile = parent.profile ∧ ProfileSubset child parent ∨
        child.profile ≠ parent.profile ∧ Falsy child.profile ∧ Falsy parent.profile) := by
  unfold checkProfileSubset
  by_cases hprofile : child.profile = parent.profile
  · simp only [bind_eq_ok, pure_eq_ok, Reasons.addIf_eq_nil, hprofile, ne_eq,
      not_true_eq_false, if_false, false_and, or_false, true_and]
    constructor
    · rintro ⟨a, ha, b, hb, ⟨hr, rfl⟩, rfl⟩
      exact ⟨hr, commerceWidened_eq_false.mp ha, rwaWidened_eq_false.mp hb⟩
    · rintro ⟨hr, h⟩
      exact ⟨false, commerceWidened_eq_false.mpr h.commerce, false,
        rwaWidened_eq_false.mpr h.rwa, ⟨hr, rfl⟩, rfl⟩
  · rw [if_pos hprofile]
    simp only [pure_eq_ok, Reasons.addIf_eq_nil, hprofile, false_and, ne_eq, not_false_eq_true,
      true_and, false_or, Bool.or_eq_false_iff]
    exact Iff.rfl

/-- One link of a delegation chain: `child` delegates from `parent` at distance `depth`. -/
structure ChildOf (engine : Engine) (child parent : AgentMandate) (depth now : ℤ) : Prop where
  reference : child.parentMandate = some parent.id
  status : parent.status = .active
  started : ∃ t, timestamp engine parent.notBefore = .ok t ∧ t ≤ now
  unexpired : ∃ t, timestamp engine parent.expiresAt = .ok t ∧ now < t
  delegation : ∃ d, parent.delegation = some d ∧ d.allowed = true ∧ depth ≤ d.maxDepth ∧
    ∀ c, child.delegation = some c → c.allowed = true →
      c.maxDepth ≤ max 0 (Double.roundInt (d.maxDepth - depth))
  actions : ∀ action ∈ child.actions, action ∈ parent.actions
  resources : constrainedSubset child.resources parent.resources = true
  counterparties : constrainedSubset child.counterparties parent.counterparties = true
  destinations : constrainedSubset child.destinations parent.destinations = true
  purpose : child.purpose = parent.purpose
  starts : ∃ c p, timestamp engine child.notBefore = .ok c ∧
    timestamp engine parent.notBefore = .ok p ∧ p ≤ c
  ends : ∃ c p, timestamp engine child.expiresAt = .ok c ∧
    timestamp engine parent.expiresAt = .ok p ∧ c ≤ p
  limits : narrowerObject child.limits parent.limits = true
  dataUse : narrowerObject child.dataUse parent.dataUse = true
  profile : checkProfileSubset child parent [] = .ok []

theorem delegationWidened_eq_false {child : Option Delegation} {parent : Delegation} {depth : ℤ} :
    delegationWidened child (some parent) depth = .ok false ↔
      ∀ c, child = some c → c.allowed = true →
        c.maxDepth ≤ max 0 (Double.roundInt (parent.maxDepth - depth)) := by
  rcases child with _ | c
  · simp [delegationWidened]
  · cases hc : c.allowed <;>
      simp only [delegationWidened, hc, if_true, Bool.false_eq_true, if_false, Except.ok.injEq,
        decide_eq_false_iff_not, gt_iff_lt, not_lt, Option.some.injEq, forall_eq', forall_const,
        false_implies]

theorem inactive_eq_false {mandate : AgentMandate} {now : ℤ} :
    (orThrow (.ok (mandate.status != .active))
      <| orThrow (do return decide ((← timestamp engine mandate.notBefore) > now))
      <| do return decide ((← timestamp engine mandate.expiresAt) ≤ now)) = .ok false ↔
      mandate.status = .active ∧ (∃ t, timestamp engine mandate.notBefore = .ok t ∧ t ≤ now) ∧
        ∃ t, timestamp engine mandate.expiresAt = .ok t ∧ now < t := by
  simp only [orThrow_eq_false, bind_eq_ok, pure_eq_ok, decide_eq_false_iff_not, gt_iff_lt,
    not_lt, not_le, Except.ok.injEq, bne_eq_false_iff_eq]

theorem longer_eq_false {child parent : AgentMandate} :
    (orThrow
      (do return decide ((← timestamp engine child.notBefore) < (← timestamp engine parent.notBefore)))
      <| do return decide ((← timestamp engine child.expiresAt) > (← timestamp engine parent.expiresAt)))
      = .ok false ↔
      (∃ c p, timestamp engine child.notBefore = .ok c ∧
        timestamp engine parent.notBefore = .ok p ∧ p ≤ c) ∧
      ∃ c p, timestamp engine child.expiresAt = .ok c ∧
        timestamp engine parent.expiresAt = .ok p ∧ c ≤ p := by
  simp only [orThrow_eq_false, bind_eq_ok, pure_eq_ok, decide_eq_false_iff_not, gt_iff_lt,
    not_lt, exists_and_left]

/-- `checkChildMandate` adds no reason exactly to a link. -/
theorem checkChildMandate_eq_nil {child parent : AgentMandate} {depth now : ℤ}
    {reasons : Reasons} : checkChildMandate engine child parent depth now reasons = .ok [] ↔
      reasons = [] ∧ ChildOf engine child parent depth now := by
  unfold checkChildMandate
  simp only [bind_eq_ok, checkProfileSubset_eq_nil, Reasons.addIf_eq_nil, bne_eq_false_iff_eq,
    Bool.not_eq_false', and_assoc]
  constructor
  · rintro ⟨inactive, hinactive, longer, hlonger, deeper, hdeeper, hreasons, href, rfl, hdel,
      hactions, hres, hcp, hdest, hpurpose, rfl, hlimits, hdata, rfl, hprofile⟩
    obtain ⟨hstatus, hstart, hend⟩ := inactive_eq_false.mp hinactive
    obtain ⟨hstarts, hends⟩ := longer_eq_false.mp hlonger
    refine ⟨hreasons, href, hstatus, hstart, hend, ?_, subset_iff.mp hactions, hres, hcp, hdest,
      hpurpose, hstarts, hends, hlimits, hdata, checkProfileSubset_eq_nil.mpr ⟨rfl, hprofile⟩⟩
    cases hd : parent.delegation with
    | none => simp [hd] at hdel
    | some d =>
      rw [hd] at hdel hdeeper
      simp only [Bool.or_eq_false_iff, Bool.not_eq_false', decide_eq_false_iff_not, gt_iff_lt,
        not_lt] at hdel
      exact ⟨d, rfl, hdel.1, hdel.2, delegationWidened_eq_false.mp hdeeper⟩
  · rintro ⟨hreasons, h⟩
    obtain ⟨d, hd, hallowed, hdepth, hpassed⟩ := h.delegation
    refine ⟨false, inactive_eq_false.mpr ⟨h.status, h.started, h.unexpired⟩, false,
      longer_eq_false.mpr ⟨h.starts, h.ends⟩, false, ?_, hreasons, h.reference, rfl, ?_,
      subset_iff.mpr h.actions, h.resources, h.counterparties, h.destinations, h.purpose, rfl,
      h.limits, h.dataUse, rfl, (checkProfileSubset_eq_nil.mp h.profile).2⟩
    · rw [hd]; exact delegationWidened_eq_false.mpr hpassed
    · simp [hd, hallowed, hdepth]

/-! ### The mandate and the envelope -/

/-- The checks that compare the envelope with the mandate and the mandate with the time. -/
structure MandatePermits (engine : Engine) (mandate : AgentMandate)
    (envelope : TransactionEnvelope) (now : ℤ) : Prop where
  status : mandate.status = .active
  started : ∃ t, timestamp engine mandate.notBefore = .ok t ∧ t ≤ now
  unexpired : ∃ t, timestamp engine mandate.expiresAt = .ok t ∧ now < t
  reference : envelope.mandateId = mandate.id
  subject : envelope.agentId = mandate.subject
  action : envelope.action ∈ mandate.actions
  resource : ∀ items, mandate.resources = some items →
    envelope.resource ≠ "" ∧ envelope.resource ∈ items
  purpose : envelope.purpose = some mandate.purpose
  counterparty : ∀ items, mandate.counterparties = some items →
    ∃ a, envelope.counterparty = some a ∧ a ≠ "" ∧ a ∈ items
  destination : ∀ items, mandate.destinations = some items →
    ∃ a, envelope.destination = some a ∧ a ≠ "" ∧ a ∈ items
  profile : envelope.profile.isSome = true → envelope.profile = mandate.profile

/-- The mandate is a root, or the request carries its parent and the link is within it. -/
def LinkPermits (engine : Engine) (request : EvaluationRequest) (now : ℤ) : Prop :=
  match request.parentMandate with
  | some parent =>
    ChildOf engine request.mandate parent (request.delegationDepth.getD 1) now
  | none => Falsy request.mandate.parentMandate

theorem checkMandate_eq_nil {request : EvaluationRequest} {now : ℤ} :
    checkMandate engine request now = .ok [] ↔
      MandatePermits engine request.mandate request.envelope now ∧
        LinkPermits engine request now := by
  unfold checkMandate LinkPermits
  cases request.parentMandate <;>
    simp only [bind_eq_ok, pure_eq_ok, checkChildMandate_eq_nil, checkSetConstraint_eq_nil,
      Reasons.addIf_eq_nil, bne_eq_false_iff_eq, Bool.not_eq_false', decide_eq_false_iff_not,
      Bool.and_eq_false_imp, List.contains_iff_mem, gt_iff_lt, not_lt, not_le, Option.some.injEq,
      exists_eq_left', true_and, and_assoc]
  all_goals
    constructor
    · rintro ⟨nb, hnb, ex, hex, hstatus, hstart, hend, href, hsubj, hact, hres, hpurp, hcp, hdest,
        hprof, hlink⟩
      exact ⟨⟨hstatus, ⟨nb, hnb, hstart⟩, ⟨ex, hex, hend⟩, href, hsubj, hact, hres, hpurp, hcp,
        hdest, hprof⟩, hlink⟩
    · rintro ⟨h, hlink⟩
      obtain ⟨nb, hnb, hstart⟩ := h.started
      obtain ⟨ex, hex, hend⟩ := h.unexpired
      exact ⟨nb, hnb, ex, hex, h.status, hstart, hend, h.reference, h.subject, h.action,
        h.resource, h.purpose, h.counterparty, h.destination, h.profile, hlink⟩

/-! ### Accounting -/

/-- The first decimal is at most the second. -/
def TextAtMost (left right : String) : Prop :=
  ∃ p q, Denotes left p ∧ Denotes right q ∧ p ≤ q

/-- The sum of two decimals is at most a third. -/
def SumAtMost (left right limit : String) : Prop :=
  ∃ p q m, Denotes left p ∧ Denotes right q ∧ Denotes limit m ∧ p + q ≤ m

/-- What a limit bounds together with something else is within it. -/
theorem SumAtMost.right {left right limit : String} (h : SumAtMost left right limit) :
    TextAtMost right limit := by
  obtain ⟨p, q, m, hp, hq, hm, hle⟩ := h
  exact ⟨q, m, hq, hm, by linarith [hp.nonneg]⟩

/-- A text denotes what `addDecimal` returns exactly if it is the sum. -/
theorem denotes_addDecimal {left right sum : String} {q : ℚ}
    (h : addDecimal left right = .ok sum) :
    Denotes sum q ↔ ∃ a b, Denotes left a ∧ Denotes right b ∧ q = a + b := by
  obtain ⟨a, b, ha, hb, hab⟩ := addDecimal_denotes h
  constructor
  · intro hq
    exact ⟨a, b, ha, hb, hq.unique hab⟩
  · rintro ⟨a', b', ha', hb', rfl⟩
    rwa [ha'.unique ha, hb'.unique hb]

theorem compareDecimal_addDecimal_iff {left right limit : String} :
    (∃ sum, addDecimal left right = .ok sum ∧ ∃ c, compareDecimal sum limit = .ok c ∧ c ≤ 0) ↔
      SumAtMost left right limit := by
  constructor
  · rintro ⟨sum, hsum, hle⟩
    obtain ⟨p, m, hp, hm, hpm⟩ := compareDecimal_nonpos_iff.mp hle
    obtain ⟨a, b, ha, hb, rfl⟩ := (denotes_addDecimal hsum).mp hp
    exact ⟨a, b, m, ha, hb, hm, hpm⟩
  · rintro ⟨a, b, m, ha, hb, hm, hle⟩
    obtain ⟨sum, hsum⟩ := exists_addDecimal ha hb
    refine ⟨sum, hsum, compareDecimal_nonpos_iff.mpr ⟨a + b, m, ?_, hm, hle⟩⟩
    exact (denotes_addDecimal hsum).mpr ⟨a, b, ha, hb, rfl⟩

/-- A sum of decimals is compared with a decimal. -/
theorem compare_sum {left right limit : String} {p q m : ℚ} (hp : Denotes left p)
    (hq : Denotes right q) (hm : Denotes limit m) :
    ∃ sum, addDecimal left right = .ok sum ∧ ∃ c, compareDecimal sum limit = .ok c ∧
      (decide (c > 0) = true ↔ ¬ SumAtMost left right limit) := by
  obtain ⟨sum, hsum⟩ := exists_addDecimal hp hq
  have hdenotes : Denotes sum (p + q) := (denotes_addDecimal hsum).mpr ⟨p, q, hp, hq, rfl⟩
  obtain ⟨c, hc⟩ : ∃ c, compareDecimal sum limit = .ok c :=
    ⟨_, compareDecimal_eq_ok.mpr ⟨p + q, m, hdenotes, hm, rfl⟩⟩
  refine ⟨sum, hsum, c, hc, ?_⟩
  rw [decide_eq_true_iff, gt_iff_lt, ← not_le, ← compareDecimal_addDecimal_iff]
  refine not_congr ⟨fun h => ⟨sum, hsum, c, hc, h⟩, ?_⟩
  rintro ⟨sum', hsum', c', hc', h⟩
  obtain rfl : sum = sum' := Except.ok.inj (hsum.symm.trans hsum')
  obtain rfl : c = c' := Except.ok.inj (hc.symm.trans hc')
  exact h

@[simp] theorem decimalText_eq_ok {value : Option Value} {s : String} :
    decimalText value = .ok s ↔ value = some (.str s) := by
  unfold decimalText
  split <;> simp_all

/-- What `checkConsumption` establishes. -/
structure ConsumptionPermits (engine : Engine) (mandate : AgentMandate) (usage : Usage)
    (delta : EffectiveConsumption) : Prop where
  unconsumed : usage.consumed = false
  unused : delta.idempotencyKey ≠ "" → delta.idempotencyKey ∉ usage.idempotencyKeys
  calls : ∀ n, (mandate.limits.getD []).lookup "max_calls" = some (.num n) →
    (Double.roundNat (usage.calls + delta.calls) : ℚ) ≤ n
  quantity : mandate.profile = none → ∀ limit,
    quantityLimit engine (mandate.limits.getD []) = some limit →
      ∃ quantity, delta.quantity = .str quantity ∧ SumAtMost usage.quantity quantity limit
  currency : ∀ total, (mandate.limits.getD []).lookup "max_total" = some (.str total) →
    delta.amount ≠ "0" → ∀ currency,
      (mandate.limits.getD []).lookup "currency" = some (.str currency) → currency ≠ "" →
        delta.currency = currency ∧ (usage.amount ≠ "0" → usage.currency = currency)
  total : ∀ total, (mandate.limits.getD []).lookup "max_total" = some (.str total) →
    delta.amount ≠ "0" → SumAtMost usage.amount delta.amount total

theorem callLimitExceeded_eq_false {limits : Record} {usage : Usage}
    {delta : EffectiveConsumption} : callLimitExceeded limits usage delta = false ↔
      ∀ n, limits.lookup "max_calls" = some (.num n) →
        (Double.roundNat (usage.calls + delta.calls) : ℚ) ≤ n := by
  unfold callLimitExceeded
  split
  next n hn => simp [hn]
  next hn => simp only [true_iff]; exact fun n h => absurd h (hn n)

theorem quantityLimitExceeded_eq_false {mandate : AgentMandate} {limits : Record} {usage : Usage}
    {delta : EffectiveConsumption} :
    quantityLimitExceeded engine mandate limits usage delta = .ok false ↔
      (mandate.profile = none → ∀ limit, quantityLimit engine limits = some limit →
        ∃ quantity, delta.quantity = .str quantity ∧ SumAtMost usage.quantity quantity limit) := by
  unfold quantityLimitExceeded
  split
  next limit hp hl =>
    rw [bind_eq_ok]
    simp only [decimalText_eq_ok, bind_eq_ok, pure_eq_ok, decide_eq_false_iff_not, gt_iff_lt,
      not_lt, compareDecimal_addDecimal_iff, Option.some.injEq, hl, hp, forall_const, forall_eq']
  next hn => simp only [true_iff]; exact fun hp limit hl => absurd hl (hn limit hp)

theorem budgetCurrencyMismatch_eq_false {limits : Record} {usage : Usage}
    {delta : EffectiveConsumption} : budgetCurrencyMismatch limits usage delta = false ↔
      ∀ currency, limits.lookup "currency" = some (.str currency) → currency ≠ "" →
        delta.currency = currency ∧ (usage.amount ≠ "0" → usage.currency = currency) := by
  unfold budgetCurrencyMismatch
  split
  next c hc => simp [hc]
  next hn => simp only [true_iff]; exact fun c h => absurd h (hn c)

theorem checkBudget_eq_nil {limits : Record} {usage : Usage} {delta : EffectiveConsumption}
    {reasons : Reasons} : checkBudget limits usage delta reasons = .ok [] ↔
      reasons = [] ∧ ∀ total, limits.lookup "max_total" = some (.str total) →
        delta.amount ≠ "0" → budgetCurrencyMismatch limits usage delta = false ∧
          SumAtMost usage.amount delta.amount total := by
  unfold checkBudget
  split
  next total htotal hamount =>
    simp only [bind_eq_ok, pure_eq_ok, Reasons.addIf_eq_nil, decide_eq_false_iff_not, gt_iff_lt,
      not_lt, htotal, Option.some.injEq, Json.str.injEq, forall_eq', of_decide_eq_true hamount,
      ne_eq, not_false_eq_true, forall_const, ← compareDecimal_addDecimal_iff]
    constructor
    · rintro ⟨sum, hsum, c, hc, ⟨hr, hcur⟩, hle⟩
      exact ⟨hr, hcur, sum, hsum, c, hc, hle⟩
    · rintro ⟨hr, hcur, sum, hsum, c, hc, hle⟩
      exact ⟨sum, hsum, c, hc, ⟨hr, hcur⟩, hle⟩
  next hn =>
    simp only [Except.ok.injEq, iff_self_and]
    exact fun _ total htotal hamount => absurd (decide_eq_true hamount) (hn total htotal)

theorem checkConsumption_eq_nil {mandate : AgentMandate} {usage : Usage}
    {delta : EffectiveConsumption} {reasons : Reasons} :
    checkConsumption engine mandate usage delta reasons = .ok [] ↔
      reasons = [] ∧ ConsumptionPermits engine mandate usage delta := by
  unfold checkConsumption
  simp only [bind_eq_ok, checkBudget_eq_nil, Reasons.addIf_eq_nil, callLimitExceeded_eq_false,
    budgetCurrencyMismatch_eq_false, Bool.and_eq_false_imp, bne_iff_ne, ne_eq,
    List.contains_eq_mem, decide_eq_false_iff_not, and_assoc]
  constructor
  · rintro ⟨_, hq, hr, hconsumed, hkey, hcalls, rfl, hbudget⟩
    exact ⟨hr, hconsumed, hkey, hcalls, quantityLimitExceeded_eq_false.mp hq,
      fun t ht ha => (hbudget t ht ha).1, fun t ht ha => (hbudget t ht ha).2⟩
  · rintro ⟨hr, h⟩
    exact ⟨false, quantityLimitExceeded_eq_false.mpr h.quantity, hr, h.unconsumed, h.unused,
      h.calls, rfl, fun t ht ha => ⟨h.currency t ht ha, h.total t ht ha⟩⟩

/-- A supplied consumption does not contradict the context, nor leave unconsumed what the
mandate consumes. -/
def ConsumptionAgrees (request : EvaluationRequest) (effective : EffectiveConsumption) : Prop :=
  ∀ supplied, request.consumption = some supplied →
    (∀ field ∈ contextFields request, ∀ v, supplied.field field = some v →
      strictEq (some v) (some (effective.field field)) = true) ∧
    (effective.consume = true → supplied.consume ≠ some false)

theorem checkConsumptionContext_eq_nil {request : EvaluationRequest}
    {effective : EffectiveConsumption} {reasons : Reasons} :
    checkConsumptionContext request effective reasons = [] ↔
      reasons = [] ∧ ConsumptionAgrees request effective := by
  unfold ConsumptionAgrees checkConsumptionContext
  cases request.consumption with
  | none => simp
  | some supplied =>
    have hfield : ∀ field, ((supplied.field field).any fun v =>
        !strictEq (some v) (some (effective.field field))) = false ↔
        ∀ v, supplied.field field = some v →
          strictEq (some v) (some (effective.field field)) = true := by
      intro field
      cases supplied.field field <;> simp
    simp only [Reasons.addIf_eq_nil, List.any_append, Bool.or_eq_false_iff, List.any_eq_false,
      Bool.not_eq_true, hfield, Option.some.injEq, forall_eq']
    refine and_congr_right fun _ => and_congr_right fun _ => ?_
    cases hc : effective.consume <;> cases hs : supplied.consume with
    | none => simp
    | some b =>
      cases b <;> simp [Consumption.field, EffectiveConsumption.field, hc, hs, strictEq]

/-! ### Commerce -/

theorem strictEq_str_left {s : String} {v : Option Value} :
    strictEq (some (.str s)) v = true ↔ v = some (.str s) := by
  constructor
  · intro h; exact (eq_of_strictEq h).symm
  · rintro rfl; simp [strictEq]

/-- What `checkCommerce` establishes. -/
structure CommercePermits (engine : Engine) (limits : Record) (envelope : TransactionEnvelope)
    (context : CommerceEvaluationContext) (usage : Usage) : Prop where
  merchant : limits.lookup "merchant_organisation_id" = some (.str context.merchantOrganisationId)
  service : limits.lookup "service_id" = some (.str context.serviceId)
  offer : limits.lookup "offer_id" = some (.str context.offerId)
  currency : limits.lookup "currency" = some (.str context.currency)
  usageCurrency : usage.amount ≠ "0" → usage.currency = context.currency
  unitPrice : TextAtMost context.unitPrice (optionText engine (limits.lookup "max_unit_price"))
  total : ∃ product q, multiplyDecimal context.unitPrice context.quantity = .ok product ∧
    Denotes context.totalAmount q ∧ Denotes product q
  budget : SumAtMost usage.amount context.totalAmount
    (optionText engine (limits.lookup "max_total"))
  quantity : TextAtMost (numberText engine context.quantity)
    (optionText engine (limits.lookup "max_quantity"))
  terms : truthy (limits.lookup "terms_digest") = true →
    strictEq (context.termsDigest.map .str) (limits.lookup "terms_digest") = true
  unused : context.idempotencyKey ∉ usage.idempotencyKeys
  envelope : commerceEnvelopeMismatch envelope context = false

theorem compareDecimal_eq_zero_iff {left right : String} :
    compareDecimal left right = .ok 0 ↔ ∃ q, Denotes left q ∧ Denotes right q := by
  rw [compareDecimal_eq_ok]
  constructor
  · rintro ⟨p, q, hp, hq, h⟩
    by_cases hpq : p = q
    · exact ⟨q, hpq ▸ hp, hq⟩
    · rw [if_neg hpq] at h
      split_ifs at h; norm_num at h
  · rintro ⟨q, hl, hr⟩
    exact ⟨q, q, hl, hr, by simp⟩

theorem checkCommerce_eq_nil {mandate : AgentMandate} {envelope : TransactionEnvelope}
    {context : Option CommerceEvaluationContext} {usage : Usage} {reasons : Reasons} :
    checkCommerce engine mandate envelope context usage reasons = .ok [] ↔
      reasons = [] ∧ ∃ c limits, context = some c ∧
        objectAt mandate.extensions "commerce" = some limits ∧
        CommercePermits engine limits envelope c usage := by
  unfold checkCommerce
  split
  next c limits hlimits =>
    simp only [bind_eq_ok, pure_eq_ok, Reasons.addIf_eq_nil, Reasons.addUnlessSome_eq_nil,
      Bool.not_eq_false', strictEq_str_left, Bool.or_eq_false_iff, Bool.and_eq_false_imp,
      bne_iff_ne, bne_eq_false_iff_eq, List.contains_eq_mem, decide_eq_false_iff_not, gt_iff_lt,
      not_lt, ne_eq, not_not, and_assoc, Option.some.injEq, hlimits]
    constructor
    · rintro ⟨_, hunit, product, hproduct, _, htotal, sum, hsum, _, hbudget, _, hquantity, hr,
        hmerchant, hservice, hoffer, hcurrency, husage, hunit', rfl, hbudget', hquantity', hterms,
        hkey, henvelope⟩
      obtain ⟨q, hq, hp⟩ := compareDecimal_eq_zero_iff.mp htotal
      refine ⟨hr, c, limits, rfl, rfl, hmerchant, hservice, hoffer, hcurrency, husage,
        compareDecimal_nonpos_iff.mp ⟨_, hunit, hunit'⟩, ⟨product, q, hproduct, hq, hp⟩,
        compareDecimal_addDecimal_iff.mp ⟨sum, hsum, _, hbudget, hbudget'⟩,
        compareDecimal_nonpos_iff.mp ⟨_, hquantity, hquantity'⟩, hterms, hkey, henvelope⟩
    · rintro ⟨hr, _, _, rfl, rfl, h⟩
      obtain ⟨_, hunit, hunit'⟩ := compareDecimal_nonpos_iff.mpr h.unitPrice
      obtain ⟨product, q, hproduct, hq, hp⟩ := h.total
      obtain ⟨sum, hsum, _, hbudget, hbudget'⟩ := compareDecimal_addDecimal_iff.mpr h.budget
      obtain ⟨_, hquantity, hquantity'⟩ := compareDecimal_nonpos_iff.mpr h.quantity
      exact ⟨_, hunit, product, hproduct, 0, compareDecimal_eq_zero_iff.mpr ⟨q, hq, hp⟩, sum,
        hsum, _, hbudget, _, hquantity, hr, h.merchant, h.service, h.offer, h.currency,
        h.usageCurrency, hunit', rfl, hbudget', hquantity', h.terms, h.unused, h.envelope⟩
  next hn =>
    simp only [Except.ok.injEq, Reasons.add_ne_nil, false_iff]
    rintro ⟨-, c, limits, rfl, hlimits, -⟩
    exact hn c limits rfl hlimits

/-! ### RWA -/

/-- The supply rules of `checkRwa`, which read no limit of the mandate. -/
structure SupplyPermits (context : Option Value) (usage : Usage) (hasMintedSupply : Bool) :
    Prop where
  reserve : ∃ supply quantity reserve, get context "current_supply" = some (.str supply) ∧
    get context "quantity" = some (.str quantity) ∧ get context "reserve" = some (.str reserve) ∧
    SumAtMost supply quantity reserve
  maximum : truthy (get context "maximum_supply") = true → ∃ supply quantity maximum,
    get context "current_supply" = some (.str supply) ∧
    get context "quantity" = some (.str quantity) ∧
    get context "maximum_supply" = some (.str maximum) ∧ SumAtMost supply quantity maximum
  minted : hasMintedSupply = true → ∃ supply q, get context "current_supply" = some (.str supply) ∧
    Denotes usage.mintedSupply q ∧ Denotes supply q

/-- What `checkRwa` establishes. -/
structure RwaPermits (engine : Engine) (limits : Record) (envelope : TransactionEnvelope)
    (context : Option Value) (usage : Usage) (hasMintedSupply : Bool) (now : ℤ) : Prop where
  envelope : rwaEnvelopeMismatch envelope context = false
  target : sameFields (get context) (limits.lookup ·)
    ["asset_id", "state_claim_id", "network", "token_contract", "operation", "unit"] = true
  claim : ∃ t, timestamp engine (optionText engine (get context "claim_valid_until")) = .ok t ∧
    now < t
  quantity : ∃ quantity, get context "quantity" = some (.str quantity) ∧
    SumAtMost usage.quantity quantity (optionText engine (limits.lookup "max_quantity"))
  supply : SupplyPermits context usage hasMintedSupply
  approvals : numberLt (toNumber engine (get context "approval_count"))
    (toNumber engine (limits.lookup "minimum_approvals")) = false
  roles : ∀ role ∈ stringArray (limits.lookup "required_roles"),
    includesMethod (get context "approval_roles") role = .ok true
  oneTime : strictEq (limits.lookup "one_time") (some (.bool true)) = true →
    usage.consumed = false

theorem checkRequiredRoles_eq_nil {approvalRoles : Option Value} {roles : List String}
    {reasons : Reasons} : checkRequiredRoles approvalRoles roles reasons = .ok [] ↔
      reasons = [] ∧ ∀ role ∈ roles, includesMethod approvalRoles role = .ok true := by
  induction roles generalizing reasons with
  | nil => simp [checkRequiredRoles]
  | cons role rest ih =>
    simp only [checkRequiredRoles, bind_eq_ok, ih, Reasons.addIf_eq_nil, Bool.not_eq_false',
      List.forall_mem_cons]
    constructor
    · rintro ⟨b, hb, ⟨hr, rfl⟩, hrest⟩
      exact ⟨hr, hb, hrest⟩
    · rintro ⟨hr, hb, hrest⟩
      exact ⟨true, hb, ⟨hr, rfl⟩, hrest⟩

theorem compareDecimal_ne_zero_eq_false {left right : String} :
    ((do return decide ((← compareDecimal left right) ≠ 0)) : Except JsError Bool) = .ok false ↔
      ∃ q, Denotes left q ∧ Denotes right q := by
  simp only [bind_eq_ok, pure_eq_ok, decide_eq_false_iff_not, ne_eq, not_not,
    ← compareDecimal_eq_zero_iff, exists_eq_right]

theorem checkRwa_eq_nil {mandate : AgentMandate} {envelope : TransactionEnvelope}
    {context : Option Value} {usage : Usage} {hasMintedSupply : Bool} {now : ℤ}
    {reasons : Reasons} :
    checkRwa engine mandate envelope context usage hasMintedSupply now reasons = .ok [] ↔
      reasons = [] ∧ truthy context = true ∧ ∃ limits,
        objectAt mandate.extensions "rwa" = some limits ∧
        RwaPermits engine limits envelope context usage hasMintedSupply now := by
  unfold checkRwa
  split
  next limits hcontext hlimits =>
    simp only [bind_eq_ok, pure_eq_ok, Reasons.addIf_eq_nil, decimalText_eq_ok, hlimits, hcontext,
      true_and, Option.some.injEq, exists_eq_left']
    constructor
    · rintro ⟨t, ht, quantity, hq, total, htotal, _, hle, supply, hsupply, result, hresult, reserve,
        hreserve, _, hle', maximum, hmaximum, minted, hminted, reasons', hroles, rfl, honce⟩
      simp only [checkRequiredRoles_eq_nil, Reasons.addIf_eq_nil, Bool.not_eq_false',
        decide_eq_false_iff_not, gt_iff_lt, not_lt, not_le, and_assoc] at hroles
      obtain ⟨hr, henvelope, htarget, htime, hquantity, hreserve', rfl, rfl, happrovals, hroles⟩ :=
        hroles
      refine ⟨hr, henvelope, htarget, ⟨t, ht, htime⟩,
        ⟨quantity, hq, compareDecimal_addDecimal_iff.mp ⟨total, htotal, _, hle, hquantity⟩⟩,
        ⟨⟨supply, quantity, reserve, hsupply, hq, hreserve,
          compareDecimal_addDecimal_iff.mp ⟨result, hresult, _, hle', hreserve'⟩⟩, ?_, ?_⟩,
        happrovals, hroles, by simpa using honce⟩
      · intro hset
        simp only [andThrow_eq_false, hset, Except.ok.injEq, Bool.true_eq_false, false_or,
          true_and, bind_eq_ok, decimalText_eq_ok, pure_eq_ok, decide_eq_false_iff_not, gt_iff_lt,
          not_lt] at hmaximum
        obtain ⟨m, hm, hmax⟩ := hmaximum
        exact ⟨supply, quantity, m, hsupply, hq, hm,
          compareDecimal_addDecimal_iff.mp ⟨result, hresult, hmax⟩⟩
      · rintro rfl
        simp only [andThrow_eq_false, Except.ok.injEq, Bool.true_eq_false, false_or, true_and,
          compareDecimal_ne_zero_eq_false] at hminted
        obtain ⟨q, hu, hs⟩ := hminted
        exact ⟨supply, q, hsupply, hu, hs⟩
    · rintro ⟨hr, h⟩
      obtain ⟨t, ht, htime⟩ := h.claim
      obtain ⟨quantity, hq, hsum⟩ := h.quantity
      obtain ⟨total, htotal, _, hle, hquantity⟩ := compareDecimal_addDecimal_iff.mpr hsum
      obtain ⟨supply, quantity', reserve, hsupply, hq', hreserve, hsum'⟩ := h.supply.reserve
      obtain rfl : quantity = quantity' := by simpa [hq] using hq'
      obtain ⟨result, hresult, _, hle', hreserve'⟩ := compareDecimal_addDecimal_iff.mpr hsum'
      refine ⟨t, ht, quantity, hq, total, htotal, _, hle, supply, hsupply, result, hresult,
        reserve, hreserve, _, hle', false, ?_, false, ?_, [], ?_, rfl, by simpa using h.oneTime⟩
      · by_cases hset : truthy (get context "maximum_supply") = true
        · obtain ⟨supply', quantity', m, hs, hq', hm, hsum''⟩ := h.supply.maximum hset
          obtain rfl : quantity = quantity' := by simpa [hq] using hq'
          obtain rfl : supply = supply' := by simpa [hsupply] using hs
          obtain ⟨result', hresult', c, hc, hc'⟩ := compareDecimal_addDecimal_iff.mpr hsum''
          obtain rfl : result = result' := by simpa [hresult] using hresult'
          rw [hset, andThrow_eq_false]
          simp [hm, hc, hc']
        · simp [hset]
      · cases hasMintedSupply with
        | false => simp
        | true =>
          obtain ⟨supply', q, hs, hu, hq'⟩ := h.supply.minted rfl
          obtain rfl : supply = supply' := by simpa [hsupply] using hs
          rw [andThrow_eq_false, compareDecimal_ne_zero_eq_false]
          exact .inr ⟨rfl, q, hu, hq'⟩
      · simp only [checkRequiredRoles_eq_nil, Reasons.addIf_eq_nil, Bool.not_eq_false',
          decide_eq_false_iff_not, gt_iff_lt, not_lt, not_le, and_assoc]
        exact ⟨hr, h.envelope, h.target, htime, hquantity, hreserve', trivial, trivial, h.approvals,
          h.roles⟩
  next hn =>
    simp only [Except.ok.injEq, Reasons.add_ne_nil, false_iff]
    rintro ⟨-, hcontext, limits, hlimits, -⟩
    exact hn limits hcontext hlimits

/-! ### The update of the usage -/

theorem applyConsumption_eq_ok {usage next : Usage} {delta : EffectiveConsumption}
    {request : EvaluationRequest} : applyConsumption usage delta request = .ok next ↔
      ∃ amount text quantity mintedSupply, addDecimal usage.amount delta.amount = .ok amount ∧
        delta.quantity = .str text ∧ addDecimal usage.quantity text = .ok quantity ∧
        nextMintedSupply usage request = .ok mintedSupply ∧
        next = { calls := Double.roundNat (usage.calls + delta.calls)
                 amount := amount
                 currency := if delta.currency = "" then usage.currency else delta.currency
                 quantity := quantity
                 consumed := usage.consumed || delta.consume
                 idempotencyKeys :=
                   if delta.idempotencyKey = "" then usage.idempotencyKeys
                   else sortStrings (usage.idempotencyKeys ++ [delta.idempotencyKey])
                 mintedSupply := mintedSupply } := by
  unfold applyConsumption
  simp only [bind_eq_ok, pure_eq_ok, decimalText_eq_ok, Option.some.injEq]
  constructor
  · rintro ⟨amount, ha, text, ht, quantity, hq, minted, hm, rfl⟩
    exact ⟨amount, text, quantity, minted, ha, ht, hq, hm, rfl⟩
  · rintro ⟨amount, text, quantity, minted, ha, ht, hq, hm, rfl⟩
    exact ⟨amount, ha, text, ht, quantity, hq, minted, hm, rfl⟩

/-! ### The whole evaluation -/

/-- A request, evaluated on a usage. -/
def EvaluationRequest.on (request : EvaluationRequest) (usage : UsageSnapshot) :
    EvaluationRequest := { request with usage := usage }

/-- Every check of `evaluateAuthority` passes at the time `now`. -/
structure Permits (engine : Engine) (request : EvaluationRequest) (now : ℤ) : Prop where
  time : timestamp engine request.evaluationTime = .ok now
  mandate : MandatePermits engine request.mandate request.envelope now
  link : LinkPermits engine request now
  agrees : ConsumptionAgrees request (effectiveConsumption engine request)
  consumption : ConsumptionPermits engine request.mandate (normalizedUsage request.usage)
    (effectiveConsumption engine request)
  commerce : needsCommerce request = true → ∃ context limits, request.commerce = some context ∧
    objectAt request.mandate.extensions "commerce" = some limits ∧
    CommercePermits engine limits request.envelope context (normalizedUsage request.usage)
  rwa : needsRwa request = true → truthy request.rwa = true ∧ ∃ limits,
    objectAt request.mandate.extensions "rwa" = some limits ∧
    RwaPermits engine limits request.envelope request.rwa (normalizedUsage request.usage)
      request.usage.mintedSupply.isSome now

theorem checkCommerceTerms_eq_nil {request : EvaluationRequest} {reasons : Reasons} :
    checkCommerceTerms engine request reasons = .ok [] ↔ reasons = [] ∧
      (needsCommerce request = true → ∃ context limits, request.commerce = some context ∧
        objectAt request.mandate.extensions "commerce" = some limits ∧
        CommercePermits engine limits request.envelope context
          (normalizedUsage request.usage)) := by
  unfold checkCommerceTerms
  split_ifs with hneeds
  · simp only [checkCommerce_eq_nil, hneeds, forall_const]
  · simp [hneeds]

theorem checkRwaTerms_eq_nil {request : EvaluationRequest} {now : ℤ} {reasons : Reasons} :
    checkRwaTerms engine request now reasons = .ok [] ↔ reasons = [] ∧
      (needsRwa request = true → truthy request.rwa = true ∧ ∃ limits,
        objectAt request.mandate.extensions "rwa" = some limits ∧
        RwaPermits engine limits request.envelope request.rwa (normalizedUsage request.usage)
          request.usage.mintedSupply.isSome now) := by
  unfold checkRwaTerms
  split_ifs with hneeds
  · simp only [checkRwa_eq_nil, hneeds, forall_const]
  · simp [hneeds]

theorem checkAuthority_eq_nil {request : EvaluationRequest} :
    checkAuthority engine request = .ok [] ↔ ∃ now, Permits engine request now := by
  unfold checkAuthority
  simp only [bind_eq_ok]
  constructor
  · rintro ⟨now, htime, _, hmandate, _, hconsumption, _, hcommerce, hrwa⟩
    -- a check that returns no reason was given none, so the checks are inverted last first
    obtain ⟨rfl, hrwaTerms⟩ := checkRwaTerms_eq_nil.mp hrwa
    obtain ⟨rfl, hcommerceTerms⟩ := checkCommerceTerms_eq_nil.mp hcommerce
    obtain ⟨hcontext, hpermitted⟩ := checkConsumption_eq_nil.mp hconsumption
    obtain ⟨rfl, hagrees⟩ := checkConsumptionContext_eq_nil.mp hcontext
    obtain ⟨hpermits, hlink⟩ := checkMandate_eq_nil.mp hmandate
    exact ⟨now, htime, hpermits, hlink, hagrees, hpermitted, hcommerceTerms, hrwaTerms⟩
  · rintro ⟨now, h⟩
    have hcontext := checkConsumptionContext_eq_nil.mpr ⟨rfl, h.agrees⟩
    exact ⟨now, h.time, [], checkMandate_eq_nil.mpr ⟨h.mandate, h.link⟩, [],
      checkConsumption_eq_nil.mpr ⟨hcontext, h.consumption⟩, [],
      checkCommerceTerms_eq_nil.mpr ⟨rfl, h.commerce⟩, checkRwaTerms_eq_nil.mpr ⟨rfl, h.rwa⟩⟩

/-- A result that allows: every check passed, and the usage is updated. -/
theorem evaluateAuthority_allow_iff {request : EvaluationRequest} {result : EvaluationResult} :
    evaluateAuthority engine request = .ok result ∧ result.decision = .allow ↔
      (∃ now, Permits engine request now) ∧ ∃ next, nextUsage engine request .allow = .ok next ∧
        result = { decision := .allow, mandateId := request.mandate.id,
                   transactionId := request.envelope.id, reasonCodes := [],
                   nextUsage := next.toSnapshot } := by
  unfold evaluateAuthority
  simp only [bind_eq_ok, pure_eq_ok, ← checkAuthority_eq_nil]
  constructor
  · rintro ⟨⟨reasons, hreasons, next, hnext, rfl⟩, hallow⟩
    have hnil : sortStrings reasons = [] := by
      by_contra hne
      simp [hne] at hallow
    rw [hnil, if_pos rfl] at hnext
    rw [sortStrings_eq_nil.mp hnil] at hreasons
    exact ⟨hreasons, next, hnext, by simp [hnil]⟩
  · rintro ⟨hreasons, next, hnext, rfl⟩
    exact ⟨⟨[], hreasons, next, hnext, rfl⟩, rfl⟩

/-- A result that denies leaves the usage as it was read. -/
theorem nextUsage_of_deny {request : EvaluationRequest} {result : EvaluationResult}
    (h : evaluateAuthority engine request = .ok result) (hdeny : result.decision = .deny) :
    result.nextUsage = (normalizedUsage request.usage).toSnapshot := by
  unfold evaluateAuthority at h
  simp only [bind_eq_ok, pure_eq_ok] at h
  obtain ⟨reasons, -, next, hnext, rfl⟩ := h
  dsimp only at hdeny ⊢
  rw [hdeny] at hnext
  cases hnext
  rfl

/-- An evaluation that returns either denies and leaves the usage as it was read, or allows and
updates it. -/
theorem evaluateAuthority_cases {request : EvaluationRequest} {result : EvaluationResult}
    (h : evaluateAuthority engine request = .ok result) :
    (result.decision = .deny ∧
      result.nextUsage = (normalizedUsage request.usage).toSnapshot) ∨
    (result.decision = .allow ∧ (∃ now, Permits engine request now) ∧
      ∃ next, nextUsage engine request .allow = .ok next ∧
        result.nextUsage = next.toSnapshot) := by
  cases hdecision : result.decision with
  | deny => exact .inl ⟨rfl, nextUsage_of_deny h hdecision⟩
  | allow =>
    obtain ⟨hpermits, next, hnext, hresult⟩ := evaluateAuthority_allow_iff.mp ⟨h, hdecision⟩
    exact .inr ⟨rfl, hpermits, next, hnext, by rw [hresult]⟩

end Oati.TypeScript

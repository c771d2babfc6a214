import Oati.TypeScript.Narrowing

/-!
# Delegation

The evaluator checks one link of a delegation chain at a time. Here the links are composed, and
one link is related to the evaluation it belongs to.

* `Within`: everything a mandate inherits as a bound, a transitive relation that every link
  satisfies (`ChildOf.within`).
* `depthSum_le_maxDepth`: the depths along a chain are paid from the root's `max_depth`.
* `permits_under_parent`: what a child mandate permits, its parent permits for the same
  transaction, rule by rule.
-/

namespace Oati.TypeScript

variable {engine : Engine}

/-! ### What a link bounds -/

/-- The scope of `child` lies inside that of `root`. -/
structure Within (engine : Engine) (child root : AgentMandate) : Prop where
  actions : ∀ action ∈ child.actions, action ∈ root.actions
  resources : constrainedSubset child.resources root.resources = true
  counterparties : constrainedSubset child.counterparties root.counterparties = true
  destinations : constrainedSubset child.destinations root.destinations = true
  purpose : child.purpose = root.purpose
  profile : child.profile = root.profile
  starts : ∃ c r, timestamp engine child.notBefore = .ok c ∧
    timestamp engine root.notBefore = .ok r ∧ r ≤ c
  ends : ∃ c r, timestamp engine child.expiresAt = .ok c ∧
    timestamp engine root.expiresAt = .ok r ∧ c ≤ r
  limits : narrowerObject child.limits root.limits = true
  dataUse : narrowerObject child.dataUse root.dataUse = true
  terms : checkProfileSubset child root [] = .ok []

theorem constrainedSubset_trans {a b c : Option (List String)}
    (hab : constrainedSubset a b = true) (hbc : constrainedSubset b c = true) :
    constrainedSubset a c = true := by
  refine constrainedSubset_iff.mpr fun p hp => ?_
  obtain ⟨m, hm, hmp⟩ := constrainedSubset_iff.mp hbc p hp
  obtain ⟨n, hn, hnm⟩ := constrainedSubset_iff.mp hab m hm
  exact ⟨n, hn, fun item h => hmp item (hnm item h)⟩

/-- With equal profiles, no reason is added exactly if the terms are within the parent's. -/
theorem checkProfileSubset_eq_nil_of_eq {child parent : AgentMandate}
    (h : child.profile = parent.profile) :
    checkProfileSubset child parent [] = .ok [] ↔ ProfileSubset child parent := by
  simp [checkProfileSubset_eq_nil, h]

/-- A profile is written, or left out: it is not the empty string. -/
def NonemptyProfile (mandate : AgentMandate) : Prop := mandate.profile ≠ some ""

/-- Two profiles that are not written as the empty string pass only if they are equal. -/
theorem profile_eq_of_checkProfileSubset {child parent : AgentMandate}
    (hchild : NonemptyProfile child) (hparent : NonemptyProfile parent)
    (h : checkProfileSubset child parent [] = .ok []) : child.profile = parent.profile := by
  obtain ⟨-, ⟨heq, -⟩ | ⟨-, hc, hp⟩⟩ := checkProfileSubset_eq_nil.mp h
  · exact heq
  · have none_of_falsy : ∀ {p : Option String}, Falsy p → p ≠ some "" → p = none := by
      intro p hp hne
      cases p <;> simp_all [Falsy]
    rw [none_of_falsy hc hchild, none_of_falsy hp hparent]

theorem ChildOf.within {child parent : AgentMandate} {depth now : ℤ}
    (h : ChildOf engine child parent depth now) (hchild : NonemptyProfile child)
    (hparent : NonemptyProfile parent) : Within engine child parent where
  actions := h.actions
  resources := h.resources
  counterparties := h.counterparties
  destinations := h.destinations
  purpose := h.purpose
  profile := profile_eq_of_checkProfileSubset hchild hparent h.profile
  starts := h.starts
  ends := h.ends
  limits := h.limits
  dataUse := h.dataUse
  terms := h.profile

/-- The scopes of a chain shrink; the names of the outermost records are ordinary ones. -/
theorem Within.trans {a b c : AgentMandate} (hlimits : NoProto c.limits)
    (hdataUse : NoProto c.dataUse) (hab : Within engine a b) (hbc : Within engine b c) :
    Within engine a c where
  actions := fun action h => hbc.actions action (hab.actions action h)
  resources := constrainedSubset_trans hab.resources hbc.resources
  counterparties := constrainedSubset_trans hab.counterparties hbc.counterparties
  destinations := constrainedSubset_trans hab.destinations hbc.destinations
  purpose := hab.purpose.trans hbc.purpose
  profile := hab.profile.trans hbc.profile
  starts := by
    obtain ⟨x, y, hx, hy, hxy⟩ := hab.starts
    obtain ⟨y', z, hy', hz, hyz⟩ := hbc.starts
    obtain rfl : y = y' := by simpa [hy] using hy'
    exact ⟨x, z, hx, hz, hyz.trans hxy⟩
  ends := by
    obtain ⟨x, y, hx, hy, hxy⟩ := hab.ends
    obtain ⟨y', z, hy', hz, hyz⟩ := hbc.ends
    obtain rfl : y = y' := by simpa [hy] using hy'
    exact ⟨x, z, hx, hz, hxy.trans hyz⟩
  limits := narrowerObject_trans hlimits hab.limits hbc.limits
  dataUse := narrowerObject_trans hdataUse hab.dataUse hbc.dataUse
  terms := by
    have h1 := (checkProfileSubset_eq_nil_of_eq hab.profile).mp hab.terms
    have h2 := (checkProfileSubset_eq_nil_of_eq hbc.profile).mp hbc.terms
    exact (checkProfileSubset_eq_nil_of_eq (hab.profile.trans hbc.profile)).mpr (h1.trans h2)

/-! ### Chains -/

/-- `links` delegate from `root` one after the other, each at its own depth. -/
def IsChain (engine : Engine) (now : ℤ) : AgentMandate → List (AgentMandate × ℤ) → Prop
  | _, [] => True
  | parent, (child, depth) :: rest =>
    1 ≤ depth ∧ checkChildMandate engine child parent depth now [] = .ok [] ∧
      IsChain engine now child rest

/-- The sum of the depths of a chain. -/
def depthSum (links : List (AgentMandate × ℤ)) : ℤ := (links.map Prod.snd).sum

theorem IsChain.childOf {now : ℤ} {parent child : AgentMandate} {depth : ℤ}
    {rest : List (AgentMandate × ℤ)} (h : IsChain engine now parent ((child, depth) :: rest)) :
    ChildOf engine child parent depth now :=
  (checkChildMandate_eq_nil.mp h.2.1).2

/-- Every hop costs at least one. -/
theorem IsChain.length_le_depthSum {now : ℤ} {root : AgentMandate}
    {links : List (AgentMandate × ℤ)} (h : IsChain engine now root links) :
    (links.length : ℤ) ≤ depthSum links := by
  induction links generalizing root with
  | nil => simp [depthSum]
  | cons link rest ih =>
    obtain ⟨hdepth, -, hrest⟩ := h
    have := ih hrest
    simp only [depthSum, List.map_cons, List.sum_cons, List.length_cons, Nat.cast_add,
      Nat.cast_one] at this ⊢
    omega

/-- The depths of a non-empty chain are paid from the root's `max_depth`, which is small enough
for the subtraction to be exact. Induction on the chain: what the first link leaves is what its
child may spend. -/
theorem depthSum_le_maxDepth {now : ℤ} {root : AgentMandate} {link : AgentMandate × ℤ}
    {rest : List (AgentMandate × ℤ)} (h : IsChain engine now root (link :: rest))
    {d : Delegation} (hd : root.delegation = some d) (hsafe : d.maxDepth ≤ Double.exactBound) :
    depthSum (link :: rest) ≤ d.maxDepth := by
  induction rest generalizing root link d with
  | nil =>
    obtain ⟨d', hd', -, hle, -⟩ := h.childOf.delegation
    obtain rfl : d = d' := by simpa [hd] using hd'
    simpa [depthSum] using hle
  | cons next rest ih =>
    obtain ⟨d', hd', -, hle, hpassed⟩ := h.childOf.delegation
    obtain ⟨hdepth, -, hrest⟩ := h
    obtain rfl : d = d' := by simpa [hd] using hd'
    -- the child delegates, so its budget is at most what this link leaves
    obtain ⟨c, hc, hallowed, -⟩ := hrest.childOf.delegation
    have hbudget := hpassed c hc hallowed
    rw [Double.roundInt_of_natAbs_le (by omega)] at hbudget
    have hspent := ih hrest hc (by omega)
    have hpositive := hrest.length_le_depthSum
    simp only [depthSum, List.map_cons, List.sum_cons, List.length_cons] at hspent hpositive ⊢
    push_cast at hpositive
    omega

/-- The last mandate of a chain is within any mandate that its start is within. -/
theorem IsChain.within {now : ℤ} {root start : AgentMandate} {links : List (AgentMandate × ℤ)}
    (hlimits : NoProto root.limits) (hdataUse : NoProto root.dataUse)
    (hprofile : NonemptyProfile start) (hstart : Within engine start root)
    (hchain : IsChain engine now start links)
    (hprofiles : ∀ link ∈ links, NonemptyProfile link.1) :
    ∀ link ∈ links, Within engine link.1 root := by
  induction links generalizing start with
  | nil => simp
  | cons link rest ih =>
    have hlink := hprofiles link List.mem_cons_self
    have hwithin : Within engine link.1 root :=
      (hchain.childOf.within hlink hprofile).trans hlimits hdataUse hstart
    refine List.forall_mem_cons.mpr ⟨hwithin, ?_⟩
    exact ih hlink hwithin hchain.2.2 fun l hl => hprofiles l (List.mem_cons_of_mem _ hl)

/-- A chain is bounded by its root: its depths add up to at most the root's `max_depth`, which
therefore bounds its length, and the scope of its last mandate lies inside the root's. -/
theorem delegationChain_bounded {now : ℤ} {root last : AgentMandate} {depth : ℤ}
    {links : List (AgentMandate × ℤ)} (hchain : IsChain engine now root (links ++ [(last, depth)]))
    (hlimits : NoProto root.limits) (hdataUse : NoProto root.dataUse)
    (hsafe : ∀ d, root.delegation = some d → d.maxDepth ≤ Double.maxSafeInteger)
    (hroot : NonemptyProfile root)
    (hprofiles : ∀ link ∈ links ++ [(last, depth)], NonemptyProfile link.1) :
    (∃ d, root.delegation = some d ∧ depthSum (links ++ [(last, depth)]) ≤ d.maxDepth ∧
      ((links ++ [(last, depth)]).length : ℤ) ≤ d.maxDepth) ∧
    Within engine last root := by
  obtain ⟨⟨first, d₁⟩, rest, hlinks⟩ : ∃ link rest, links ++ [(last, depth)] = link :: rest :=
    List.exists_cons_of_ne_nil (by simp)
  rw [hlinks] at hchain hprofiles ⊢
  obtain ⟨d, hd, -⟩ := hchain.childOf.delegation
  have hbound : d.maxDepth ≤ Double.exactBound := by
    have := hsafe d hd
    simp only [Double.maxSafeInteger, Double.exactBound] at this ⊢
    omega
  have hsum := depthSum_le_maxDepth hchain hd hbound
  refine ⟨⟨d, hd, hsum, hchain.length_le_depthSum.trans hsum⟩, ?_⟩
  -- the last mandate is the first one's child, or further down the rest of the chain
  obtain ⟨hfirst, hrest⟩ := List.forall_mem_cons.mp hprofiles
  have hwithin := hchain.childOf.within hfirst hroot
  have hall := hchain.2.2.within hlimits hdataUse hfirst hwithin hrest
  have hlast : (last, depth) ∈ (first, d₁) :: rest := by rw [← hlinks]; simp
  rcases List.mem_cons.mp hlast with heq | hmem
  · cases heq
    exact hwithin
  · exact hall _ hmem

/-! ### A chain of three mandates -/

/-- The broker's delegate, who may delegate once more. -/
def buyerMandate : AgentMandate :=
  { brokerMandate with
    id := "oati:mandate:buyer", subject := "oati:agent:buyer"
    parentMandate := some "oati:mandate:broker", actions := ["purchase"]
    limits := some [("max_calls", .num 3)], delegation := some ⟨true, 1⟩
    extensions := some [("commerce", .obj (quoteTerms "20.00" 4))] }

/-- The buyer's delegate. -/
def clerkMandate : AgentMandate :=
  { buyerMandate with
    id := "oati:mandate:clerk", subject := "oati:agent:clerk"
    parentMandate := some "oati:mandate:buyer", delegation := none }

/-- An instant within the validity of the three. -/
def midYear : ℤ := 1781000000000

theorem delegationChain_bounded_clerk :
    (∃ d, brokerMandate.delegation = some d ∧
      depthSum [(buyerMandate, 1), (clerkMandate, 1)] ≤ d.maxDepth ∧
      (([(buyerMandate, 1), (clerkMandate, 1)] : List (AgentMandate × ℤ)).length : ℤ)
        ≤ d.maxDepth) ∧
    Within plainEngine clerkMandate brokerMandate := by
  refine @delegationChain_bounded plainEngine midYear brokerMandate clerkMandate 1 [(buyerMandate, 1)]
    ⟨by decide, by decide +kernel, by decide, by decide +kernel, trivial⟩ ?_ ?_ ?_ ?_ ?_
  · rintro members ⟨⟩
    decide
  · rintro members ⟨⟩
  · rintro d ⟨⟩
    decide
  · simp [NonemptyProfile, brokerMandate]
  · simp [NonemptyProfile, buyerMandate, clerkMandate, brokerMandate]

/-- The bound needs its two conditions. With a `max_depth` of `2 ^ 54`, what a link of depth one
leaves is rounded up to the whole budget again; and a profile written as the empty string passes
as a missing one. -/
theorem delegationChain_unbounded :
    (IsChain plainEngine midYear { brokerMandate with delegation := some ⟨true, 2 ^ 54⟩ }
        [({ buyerMandate with delegation := some ⟨true, 2 ^ 54⟩ }, 1), (clerkMandate, 2 ^ 54)] ∧
      ¬ depthSum [({ buyerMandate with delegation := some ⟨true, 2 ^ 54⟩ }, 1),
        (clerkMandate, 2 ^ 54)] ≤ 2 ^ 54) ∧
    IsChain plainEngine midYear brokerMandate [({ buyerMandate with profile := some "" }, 1)] ∧
      ¬ ({ buyerMandate with profile := some "" } : AgentMandate).profile
        = brokerMandate.profile := by
  refine ⟨⟨⟨by decide, by decide +kernel, by decide, by decide +kernel, trivial⟩, by decide⟩,
    ⟨by decide, by decide +kernel, trivial⟩, by decide⟩

/-! ### The same transaction under the parent -/

/-- The request for the same transaction, made directly under `parent`. -/
def EvaluationRequest.underParent (request : EvaluationRequest) (parent : AgentMandate) :
    EvaluationRequest :=
  { request with
    mandate := { parent with parentMandate := none }
    parentMandate := none
    delegationDepth := none
    envelope := { request.envelope with mandateId := parent.id, agentId := parent.subject } }

/-- The records of a mandate that bound an amount or a quantity. -/
def AgentMandate.terms (mandate : AgentMandate) : List Record :=
  [mandate.limits.getD [], (objectAt mandate.extensions "commerce").getD [],
    (objectAt mandate.extensions "rwa").getD []]

/-- A number is a non-negative safe integer. -/
def safeNumber (v : Value) : Bool :=
  match v with
  | .num q => isSafeNatural q
  | _ => true

/-- A flag is a boolean. -/
def booleanFlag (v : Value) : Bool :=
  match v with
  | .bool _ => true
  | _ => false

/-- The conventions a mandate's free-form terms follow. -/
structure Conventional (mandate : AgentMandate) : Prop where
  oneTime : ∀ record ∈ mandate.terms, ∀ m ∈ record, m.1 = "one_time" → booleanFlag m.2 = true
  numbers : ∀ record ∈ mandate.terms, ∀ m ∈ record, safeNumber m.2 = true
  currency : ∀ s, (mandate.limits.getD []).lookup "currency" = some (.str s) → isDecimal s = false
  profile : NonemptyProfile mandate

theorem Conventional.limits {mandate : AgentMandate} (h : Conventional mandate) {key : String}
    {q : ℚ} (hq : (mandate.limits.getD []).lookup key = some (.num q)) :
    isSafeNatural q = true :=
  h.numbers _ (by simp [AgentMandate.terms]) _ (List.mem_of_lookup_eq_some hq)

theorem Conventional.extension {mandate : AgentMandate} (h : Conventional mandate)
    {name key : String} {record : Record} {q : ℚ}
    (hname : name = "commerce" ∨ name = "rwa")
    (hrecord : objectAt mandate.extensions name = some record)
    (hq : record.lookup key = some (.num q)) : isSafeNatural q = true := by
  refine h.numbers record ?_ _ (List.mem_of_lookup_eq_some hq)
  rcases hname with rfl | rfl <;> simp [AgentMandate.terms, hrecord]

/-- The text of a safe natural denotes it. -/
theorem denotes_of_isSafeNatural {q : ℚ} (h : isSafeNatural q = true) :
    Denotes (numberText engine q) q := by
  simp only [isSafeNatural, Bool.and_eq_true, beq_iff_eq, decide_eq_true_eq] at h
  obtain ⟨⟨hden, hnum⟩, hle⟩ := h
  obtain ⟨n, hn⟩ := Int.eq_ofNat_of_zero_le hnum
  have hq : q = n := by
    rw [← Rat.num_div_den q, hden, hn]; simp
  rw [hq]
  refine denotes_numberText engine ?_
  rw [hn] at hle
  exact_mod_cast hle

/-! ### Bounds carry over -/

theorem SumAtMost.mono {s t l m : String} (h : SumAtMost s t l) (hlm : TextAtMost l m) :
    SumAtMost s t m := by
  obtain ⟨a, b, x, ha, hb, hx, hle⟩ := h
  obtain ⟨x', y, hx', hy, hxy⟩ := hlm
  exact ⟨a, b, y, ha, hb, hy, hle.trans ((hx.unique hx').le.trans hxy)⟩

theorem DecimalAtMost.textAtMost {c p : Option Value} (h : DecimalAtMost c p) (engine : Engine) :
    TextAtMost (optionText engine c) (optionText engine p) := by
  obtain ⟨c', p', x, y, rfl, rfl, hx, hy, hxy⟩ := h
  exact ⟨x, y, by simpa [optionText, text] using hx, by simpa [optionText, text] using hy, hxy⟩

/-- The texts of two safe naturals are ordered as the numbers. -/
theorem NumberAtMost.textAtMost {c p : Option Value} (h : NumberAtMost c p)
    (hc : ∀ q, c = some (.num q) → isSafeNatural q = true)
    (hp : ∀ q, p = some (.num q) → isSafeNatural q = true) :
    TextAtMost (optionText engine c) (optionText engine p) := by
  obtain ⟨x, y, rfl, rfl, hxy⟩ := h
  refine ⟨x, y, ?_, ?_, hxy⟩
  · simpa [optionText, text] using denotes_of_isSafeNatural (hc x rfl)
  · simpa [optionText, text] using denotes_of_isSafeNatural (hp y rfl)

theorem TextAtMost.trans {a b c : String} (hab : TextAtMost a b) (hbc : TextAtMost b c) :
    TextAtMost a c := by
  obtain ⟨x, y, hx, hy, hxy⟩ := hab
  obtain ⟨y', z, hy', hz, hyz⟩ := hbc
  exact ⟨x, z, hx, hz, hxy.trans ((hy.unique hy').le.trans hyz)⟩

section UnderParent

variable {child parent : AgentMandate} {depth now : ℤ}

/-- The envelope that a child permits, addressed to its parent, the parent permits. -/
theorem MandatePermits.underParent {envelope : TransactionEnvelope}
    (h : MandatePermits engine child envelope now) (hlink : ChildOf engine child parent depth now)
    (hprofile : child.profile = parent.profile) :
    MandatePermits engine { parent with parentMandate := none }
      { envelope with mandateId := parent.id, agentId := parent.subject } now where
  status := hlink.status
  started := hlink.started
  unexpired := hlink.unexpired
  reference := rfl
  subject := rfl
  action := hlink.actions _ h.action
  resource := fun items hitems => by
    obtain ⟨c, hc, hsub⟩ := constrainedSubset_iff.mp hlink.resources items hitems
    exact ⟨(h.resource c hc).1, hsub _ (h.resource c hc).2⟩
  purpose := by rw [h.purpose, hlink.purpose]
  counterparty := fun items hitems => by
    obtain ⟨c, hc, hsub⟩ := constrainedSubset_iff.mp hlink.counterparties items hitems
    obtain ⟨a, ha, hne, hmem⟩ := h.counterparty c hc
    exact ⟨a, ha, hne, hsub a hmem⟩
  destination := fun items hitems => by
    obtain ⟨c, hc, hsub⟩ := constrainedSubset_iff.mp hlink.destinations items hitems
    obtain ⟨a, ha, hne, hmem⟩ := h.destination c hc
    exact ⟨a, ha, hne, hsub a hmem⟩
  profile := fun hset => (h.profile hset).trans hprofile

theorem bind_lookup (record : Option Record) (key : String) :
    record.bind (·.lookup key) = (record.getD []).lookup key := by
  cases record <;> rfl

/-- A truthy one-time flag that is a boolean is `true`. -/
theorem Conventional.eq_true_of_truthy {mandate : AgentMandate} (h : Conventional mandate)
    {record : Record} (hrecord : record ∈ mandate.terms)
    (htruthy : truthy (record.lookup "one_time") = true) :
    record.lookup "one_time" = some (.bool true) := by
  cases hv : record.lookup "one_time" with
  | none => simp [hv, truthy] at htruthy
  | some v =>
    have hbool := h.oneTime record hrecord _ (List.mem_of_lookup_eq_some hv) rfl
    cases v with
    | bool b => cases b <;> simp_all [truthy]
    | _ => cases hbool

/-- A mandate that its parent would consume, the child consumes too. -/
theorem consume_of_parent {request : EvaluationRequest}
    (hlink : ChildOf engine request.mandate parent depth now)
    (hterms : ProfileSubset request.mandate parent) (hparent : Conventional parent)
    (h : (effectiveConsumption engine (request.underParent parent)).consume = true) :
    (effectiveConsumption engine request).consume = true := by
  simp only [effectiveConsumption, EvaluationRequest.underParent, bind_lookup, Bool.or_eq_true]
    at h ⊢
  obtain (h | h) | h := h
  · -- the parent's RWA terms are one-time, and no link relaxes that
    refine .inl (.inl ?_)
    cases hp : objectAt parent.extensions "rwa" with
    | none => simp [hp, truthy] at h
    | some p =>
      rw [hp] at h
      have hv := hparent.eq_true_of_truthy (by simp [AgentMandate.terms, hp]) h
      obtain ⟨c, hc, hwithin⟩ := hterms.rwa p hp
      have hone := eq_of_strictEq (hwithin.oneTime (by simp_all [strictEq]))
      simp [hc, hone, truthy]
  · -- a one-time limit is an entry of the limits like any other
    refine .inl (.inr ?_)
    have hv := hparent.eq_true_of_truthy (by simp [AgentMandate.terms]) h
    obtain ⟨w, hw, hwv⟩ := exists_of_narrowerObject hlink.limits (by decide) hv
    rw [narrowerValue] at hwv
    rw [hw, eq_of_strictEq hwv]
    rfl
  · exact .inr h

theorem consume_notMem_contextFields (request : EvaluationRequest) :
    ConsumptionField.consume ∉ contextFields request := by
  unfold contextFields
  split_ifs <;> decide

theorem ConsumptionAgrees.underParent {request : EvaluationRequest}
    (h : ConsumptionAgrees request (effectiveConsumption engine request))
    (hconsume : (effectiveConsumption engine (request.underParent parent)).consume = true →
      (effectiveConsumption engine request).consume = true) :
    ConsumptionAgrees (request.underParent parent)
      (effectiveConsumption engine (request.underParent parent)) := by
  intro supplied hsupplied
  obtain ⟨hfields, hconsumed⟩ := h supplied hsupplied
  refine ⟨fun field hfield v hv => ?_, fun hc => hconsumed (hconsume hc)⟩
  -- the context determines every field but `consume`, and both requests share it
  have heq : (effectiveConsumption engine (request.underParent parent)).field field
      = (effectiveConsumption engine request).field field := by
    cases field with
    | consume => exact absurd hfield (consume_notMem_contextFields _)
    | _ => rfl
  rw [heq]
  exact hfields field hfield v hv

/-- A parent's quantity limit is one of the child's, and at least as large. -/
theorem quantityLimit_of_parent (hchild : Conventional child) (hparent : Conventional parent)
    (hnarrow : narrowerObject child.limits parent.limits = true) {limit : String}
    (h : quantityLimit engine (parent.limits.getD []) = some limit) :
    ∃ limit', quantityLimit engine (child.limits.getD []) = some limit' ∧
      (limit' = limit ∨ TextAtMost limit' limit) := by
  unfold quantityLimit at h
  split at h
  next s hs =>
    cases h
    obtain ⟨w, hw, hwv⟩ := exists_of_narrowerObject hnarrow (by decide) hs
    obtain ⟨c, heq, hle⟩ := narrowerValue_str hwv
    cases heq
    exact ⟨c, by simp [quantityLimit, hw], hle.imp id fun h => h.textAtMost engine⟩
  next n hn =>
    cases h
    obtain ⟨w, hw, hwv⟩ := exists_of_narrowerObject hnarrow (by decide) hn
    have hle := narrowerValue_num.mp hwv
    obtain ⟨c, p, hc, hp, hcp⟩ := hle
    cases hc
    cases hp
    exact ⟨numberText engine c, by simp [quantityLimit, hw], .inr ⟨c, n,
      denotes_of_isSafeNatural (hchild.limits hw), denotes_of_isSafeNatural (hparent.limits hn),
      hcp⟩⟩
  next => cases h

/-- The limits of the parent admit what the child's admit. -/
theorem ConsumptionPermits.underParent {usage : Usage} {delta delta' : EffectiveConsumption}
    (h : ConsumptionPermits engine child usage delta)
    (hlink : ChildOf engine child parent depth now) (hprofile : child.profile = parent.profile)
    (hchild : Conventional child) (hparent : Conventional parent)
    (hdelta : delta' = { delta with consume := delta'.consume }) :
    ConsumptionPermits engine { parent with parentMandate := none } usage delta' := by
  have hbound : ∀ {key : String} {v : Value}, key ≠ "__proto__" →
      (parent.limits.getD []).lookup key = some v →
      ∃ w, (child.limits.getD []).lookup key = some w ∧ narrowerValue (some w) v = true :=
    fun hkey hv => exists_of_narrowerObject hlink.limits hkey hv
  have htotal : ∀ total, (parent.limits.getD []).lookup "max_total" = some (.str total) →
      ∃ t, (child.limits.getD []).lookup "max_total" = some (.str t) ∧
        (t = total ∨ DecimalAtMost (some (.str t)) (some (.str total))) := by
    intro total ht
    obtain ⟨w, hw, hwv⟩ := hbound (by decide) ht
    obtain ⟨t, heq, hle⟩ := narrowerValue_str hwv
    cases heq
    exact ⟨t, hw, hle⟩
  rw [hdelta]
  refine ⟨h.unconsumed, h.unused, ?_, ?_, ?_, ?_⟩
  · intro n hn
    obtain ⟨w, hw, hwv⟩ := hbound (by decide) hn
    obtain ⟨c, p, hc, hp, hle⟩ := narrowerValue_num.mp hwv
    cases hc
    cases hp
    exact (h.calls c hw).trans hle
  · intro hnone limit hlimit
    obtain ⟨limit', hlimit', hle⟩ :=
      quantityLimit_of_parent hchild hparent hlink.limits hlimit
    obtain ⟨quantity, hq, hsum⟩ := h.quantity (hprofile.trans hnone) limit' hlimit'
    refine ⟨quantity, hq, ?_⟩
    rcases hle with rfl | hle
    · exact hsum
    · exact hsum.mono hle
  · intro total ht hamount currency hcurrency hne
    obtain ⟨t, hct, -⟩ := htotal total ht
    obtain ⟨w, hw, hwv⟩ := hbound (by decide) hcurrency
    -- a currency is no decimal, so the child's limit names the same one
    rw [narrowerValue, if_neg (by simp [hparent.currency currency hcurrency])] at hwv
    obtain rfl : w = .str currency := Option.some.inj (eq_of_strictEq hwv)
    exact h.currency t hct hamount currency hw hne
  · intro total ht hamount
    obtain ⟨t, hct, rfl | hle⟩ := htotal total ht
    · exact h.total t hct hamount
    · exact (h.total t hct hamount).mono (hle.textAtMost engine)

theorem sameFields_lookup {a b : String → Option Value} {fields : List String}
    (h : sameFields a b fields = true) {field : String} (hfield : field ∈ fields) :
    a field = b field :=
  eq_of_strictEq (List.all_eq_true.mp h field hfield)

/-- The Commerce terms of the parent admit what the child's admit. -/
theorem CommercePermits.underParent {c p : Record} {envelope : TransactionEnvelope}
    {context : CommerceEvaluationContext} {usage : Usage}
    (h : CommercePermits engine c envelope context usage) (hwithin : CommerceWithin c p)
    (hc : ∀ q, c.lookup "max_quantity" = some (.num q) → isSafeNatural q = true)
    (hp : ∀ q, p.lookup "max_quantity" = some (.num q) → isSafeNatural q = true) :
    CommercePermits engine p
      { envelope with mandateId := parent.id, agentId := parent.subject } context usage where
  merchant := by rw [← sameFields_lookup hwithin.identities (by decide)]; exact h.merchant
  service := by rw [← sameFields_lookup hwithin.identities (by decide)]; exact h.service
  offer := by rw [← sameFields_lookup hwithin.identities (by decide)]; exact h.offer
  currency := by rw [← sameFields_lookup hwithin.identities (by decide)]; exact h.currency
  usageCurrency := h.usageCurrency
  unitPrice := h.unitPrice.trans (hwithin.unitPrice.textAtMost engine)
  total := h.total
  budget := h.budget.mono (hwithin.total.textAtMost engine)
  quantity := h.quantity.trans (hwithin.quantity.textAtMost hc hp)
  terms := by rw [← sameFields_lookup hwithin.identities (by decide)]; exact h.terms
  unused := h.unused
  envelope := h.envelope

/-- The RWA terms of the parent admit what the child's admit. -/
theorem RwaPermits.underParent {c p : Record} {envelope : TransactionEnvelope}
    {context : Option Value} {usage : Usage} {hasMintedSupply : Bool}
    (h : RwaPermits engine c envelope context usage hasMintedSupply now)
    (hwithin : RwaWithin c p) :
    RwaPermits engine p { envelope with mandateId := parent.id, agentId := parent.subject }
      context usage hasMintedSupply now where
  envelope := h.envelope
  target := sameFields_trans h.target hwithin.target
  claim := h.claim
  quantity := by
    obtain ⟨quantity, hq, hsum⟩ := h.quantity
    exact ⟨quantity, hq, hsum.mono (hwithin.quantity.textAtMost engine)⟩
  supply := h.supply
  approvals := by
    obtain ⟨x, y, hx, hy, hxy⟩ := hwithin.approvals
    have hthreshold := h.approvals
    rw [hy] at hthreshold
    rw [hx]
    -- a count that is `NaN` is below no threshold
    revert hthreshold
    cases toNumber engine (get context "approval_count") with
    | none => exact fun _ => rfl
    | some count =>
      simp only [toNumber, numberLt, decide_eq_false_iff_not, not_lt]
      exact hxy.trans
  roles := fun role hrole => h.roles role (hwithin.roles role hrole)
  oneTime := fun hone => h.oneTime (hwithin.oneTime hone)

/-- What a child permits, its parent permits for the same transaction. -/
theorem permits_under_parent {request : EvaluationRequest}
    (hlink : request.parentMandate = some parent) (hchild : Conventional request.mandate)
    (hparent : Conventional parent)
    (hcommerce : request.commerce.isSome = true →
      (objectAt parent.extensions "commerce").isSome = true)
    (hrwa : truthy request.rwa = true → (objectAt parent.extensions "rwa").isSome = true)
    (h : Permits engine request now) : Permits engine (request.underParent parent) now := by
  have hchildOf : ChildOf engine request.mandate parent (request.delegationDepth.getD 1) now := by
    have := h.link
    rwa [LinkPermits, hlink] at this
  have hprofile := profile_eq_of_checkProfileSubset hchild.profile hparent.profile
    hchildOf.profile
  have hterms := (checkProfileSubset_eq_nil_of_eq hprofile).mp hchildOf.profile
  have hconsume := consume_of_parent hchildOf hterms hparent
  refine ⟨h.time, h.mandate.underParent hchildOf hprofile, ?_, h.agrees.underParent hconsume,
    h.consumption.underParent hchildOf hprofile hchild hparent rfl, fun hneeds => ?_,
    fun hneeds => ?_⟩
  · simp [LinkPermits, EvaluationRequest.underParent, Falsy]
  · have hneeds' : needsCommerce request = true := by
      rw [needsCommerce, hprofile]; exact hneeds
    obtain ⟨context, c, hcontext, hc, hpermits⟩ := h.commerce hneeds'
    obtain ⟨p, hp⟩ := Option.isSome_iff_exists.mp (hcommerce (by simp [hcontext]))
    obtain ⟨c', hc', hwithin⟩ := hterms.commerce p hp
    obtain rfl : c = c' := by simpa [hc] using hc'
    exact ⟨context, p, hcontext, hp, hpermits.underParent hwithin
      (fun q => hchild.extension (.inl rfl) hc) (fun q => hparent.extension (.inl rfl) hp)⟩
  · have hneeds' : needsRwa request = true := by
      rw [needsRwa, hprofile]; exact hneeds
    obtain ⟨hcontext, c, hc, hpermits⟩ := h.rwa hneeds'
    obtain ⟨p, hp⟩ := Option.isSome_iff_exists.mp (hrwa hcontext)
    obtain ⟨c', hc', hwithin⟩ := hterms.rwa p hp
    obtain rfl : c = c' := by simpa [hc] using hc'
    exact ⟨hcontext, p, hp, hpermits.underParent hwithin⟩

/-- The usage can be updated under the parent whenever it can under the child. -/
theorem exists_nextUsage_underParent (parent : AgentMandate) {request : EvaluationRequest}
    {next : Usage} (h : nextUsage engine request .allow = .ok next) :
    ∃ next', nextUsage engine (request.underParent parent) .allow = .ok next' := by
  obtain ⟨amount, text, quantity, minted, ha, ht, hq, hm, -⟩ := applyConsumption_eq_ok.mp h
  exact ⟨_, applyConsumption_eq_ok.mpr ⟨amount, text, quantity, minted, ha, ht, hq, hm, rfl⟩⟩

/-- Delegation never widens authority: a transaction allowed under a child mandate is allowed
under its parent. -/
theorem allow_under_parent {request : EvaluationRequest}
    (hlink : request.parentMandate = some parent) (hchild : Conventional request.mandate)
    (hparent : Conventional parent)
    (hcommerce : request.commerce.isSome = true →
      (objectAt parent.extensions "commerce").isSome = true)
    (hrwa : truthy request.rwa = true → (objectAt parent.extensions "rwa").isSome = true)
    {result : EvaluationResult} (h : evaluateAuthority engine request = .ok result)
    (hallow : result.decision = .allow) :
    ∃ result', evaluateAuthority engine (request.underParent parent) = .ok result' ∧
      result'.decision = .allow := by
  obtain ⟨⟨now, hpermits⟩, next, hnext, -⟩ := evaluateAuthority_allow_iff.mp ⟨h, hallow⟩
  have hpermits' := permits_under_parent hlink hchild hparent hcommerce hrwa hpermits
  obtain ⟨next', hnext'⟩ := exists_nextUsage_underParent parent hnext
  exact ⟨_, evaluateAuthority_allow_iff.mpr ⟨⟨now, hpermits'⟩, next', hnext', rfl⟩⟩

end UnderParent

/-- The buyer places the broker's order. -/
def buyerOrder : EvaluationRequest :=
  { brokerOrder with
    mandate := buyerMandate
    parentMandate := some brokerMandate
    envelope :=
      { brokerOrder.envelope with
        agentId := "oati:agent:buyer", mandateId := "oati:mandate:buyer" } }

theorem conventional_brokerMandate : Conventional brokerMandate where
  oneTime := by decide
  numbers := by decide
  currency := by rintro s ⟨⟩
  profile := by simp [NonemptyProfile, brokerMandate]

theorem conventional_buyerMandate : Conventional buyerMandate where
  oneTime := by decide
  numbers := by decide
  currency := by rintro s ⟨⟩
  profile := by simp [NonemptyProfile, buyerMandate, brokerMandate]

theorem allow_under_parent_buyerOrder :
    ∃ result, evaluateAuthority plainEngine (buyerOrder.underParent brokerMandate) = .ok result ∧
      result.decision = .allow := by
  have horder : evaluateAuthority plainEngine buyerOrder
      = .ok { orderResult with mandateId := "oati:mandate:buyer" } := by
    decide +kernel
  exact allow_under_parent rfl conventional_buyerMandate conventional_brokerMandate
    (fun _ => by decide) (fun h => by cases h) horder rfl

end Oati.TypeScript

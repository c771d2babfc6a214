import Oati.TypeScript.EvaluatorSpec

/-!
# When the evaluator returns

The checks go on after a reason was found, so whatever a later check reads is read in every
request. `Returns` says of a computation that it does not throw; each check gets one lemma that
names what it takes for the check to return, on documents that satisfy their schemas.

* `Returns` and its rules, for the operators of `Evaluator` and for decimal arithmetic.
* `ValidRequest`: what the schemas say of the members that are parsed.
* `Decides`: every timestamp that is read is one `Date.parse` understands, every number that is
  compared as a text is written as a decimal, and a delegating child has a delegating parent.
* `evaluateAuthority_returns_iff`: on a valid request the evaluator returns exactly then.
-/

namespace Oati.TypeScript

variable {engine : Engine}

/-! ### Computations that return -/

/-- The computation does not throw. -/
def Returns {α : Type} (x : Except JsError α) : Prop := ∃ a, x = .ok a

@[simp] theorem returns_ok {α : Type} (a : α) : Returns (.ok a : Except JsError α) := ⟨a, rfl⟩

@[simp] theorem returns_pure {α : Type} (a : α) : Returns (pure a : Except JsError α) := ⟨a, rfl⟩

@[simp] theorem not_returns_error {α : Type} (e : JsError) :
    ¬ Returns (.error e : Except JsError α) := by
  rintro ⟨a, h⟩
  cases h

/-- When the rest of a computation returns does not depend on the value it goes on with. -/
theorem returns_bind_iff {α β : Type} {x : Except JsError α} {f : α → Except JsError β} {P : Prop}
    (h : ∀ a, x = .ok a → (Returns (f a) ↔ P)) : Returns (x >>= f) ↔ Returns x ∧ P := by
  constructor
  · rintro ⟨b, hb⟩
    obtain ⟨a, ha, hfa⟩ := bind_eq_ok.mp hb
    exact ⟨⟨a, ha⟩, (h a ha).mp ⟨b, hfa⟩⟩
  · rintro ⟨⟨a, ha⟩, hp⟩
    obtain ⟨b, hb⟩ := (h a ha).mpr hp
    exact ⟨b, bind_eq_ok.mpr ⟨a, ha, hb⟩⟩

theorem bind_ok {α β : Type} (a : α) (f : α → Except JsError β) : (.ok a >>= f) = f a := rfl

/-- A computation that only goes on to compute. -/
theorem returns_bind_pure {α β : Type} {x : Except JsError α} {f : α → β} :
    Returns (x >>= fun a => pure (f a)) ↔ Returns x := by
  rw [returns_bind_iff fun _ _ => iff_of_true (returns_pure _) trivial, and_true]

theorem returns_map {α β : Type} {x : Except JsError α} {f : α → β} :
    Returns (f <$> x) ↔ Returns x := by
  cases x <;> simp [Returns]

/-- The second operand of `||` is only evaluated when the first is false. -/
theorem returns_orThrow {a b : Except JsError Bool} :
    Returns (orThrow a b) ↔ Returns a ∧ (a = .ok false → Returns b) := by
  rcases a with e | _ | _
  · simp [orThrow, bind, Except.bind]
  · simp [orThrow, bind, Except.bind]
  · simp [orThrow, bind, Except.bind]

/-- The second operand of `&&` is only evaluated when the first is true. -/
theorem returns_andThrow {a b : Except JsError Bool} :
    Returns (andThrow a b) ↔ Returns a ∧ (a = .ok true → Returns b) := by
  rcases a with e | _ | _
  · simp [andThrow, bind, Except.bind]
  · simp [andThrow, bind, Except.bind]
  · simp [andThrow, bind, Except.bind]

/-! ### Decimals -/

theorem isDecimal_iff {s : String} : isDecimal s = true ↔ ∃ q, Denotes s q :=
  ⟨fun h => (exists_denotes h).imp fun _ hq => hq.1, fun ⟨_, hq⟩ => hq.isDecimal⟩

@[simp] theorem returns_compareDecimal {left right : String} :
    Returns (compareDecimal left right) ↔ isDecimal left = true ∧ isDecimal right = true := by
  constructor
  · rintro ⟨c, hc⟩
    obtain ⟨p, q, hp, hq, -⟩ := compareDecimal_eq_ok.mp hc
    exact ⟨hp.isDecimal, hq.isDecimal⟩
  · rintro ⟨hl, hr⟩
    obtain ⟨p, hp⟩ := isDecimal_iff.mp hl
    obtain ⟨q, hq⟩ := isDecimal_iff.mp hr
    exact ⟨_, compareDecimal_eq_ok.mpr ⟨p, q, hp, hq, rfl⟩⟩

@[simp] theorem returns_addDecimal {left right : String} :
    Returns (addDecimal left right) ↔ isDecimal left = true ∧ isDecimal right = true := by
  constructor
  · rintro ⟨sum, hsum⟩
    obtain ⟨p, q, hp, hq, -⟩ := addDecimal_denotes hsum
    exact ⟨hp.isDecimal, hq.isDecimal⟩
  · rintro ⟨hl, hr⟩
    obtain ⟨p, hp⟩ := isDecimal_iff.mp hl
    obtain ⟨q, hq⟩ := isDecimal_iff.mp hr
    exact exists_addDecimal hp hq

theorem isDecimal_of_addDecimal {left right sum : String} (h : addDecimal left right = .ok sum) :
    isDecimal sum = true := by
  obtain ⟨p, q, -, -, hsum⟩ := addDecimal_denotes h
  exact hsum.isDecimal

/-- A sum that is compared with a limit. -/
theorem returns_sum_bind {β : Type} {left right limit : String} {f : ℤ → Except JsError β}
    {P : Prop} (h : ∀ c, Returns (f c) ↔ P) :
    Returns (addDecimal left right >>= fun sum => compareDecimal sum limit >>= f) ↔
      (isDecimal left = true ∧ isDecimal right = true) ∧ isDecimal limit = true ∧ P := by
  rw [returns_bind_iff fun sum hsum => ?_, returns_addDecimal]
  rw [returns_bind_iff fun c _ => h c, returns_compareDecimal,
    and_iff_right (isDecimal_of_addDecimal hsum)]

theorem returns_multiplyDecimal {value : String} {n : ℕ} :
    Returns (multiplyDecimal value n) ↔ isDecimal value = true := by
  constructor
  · rintro ⟨product, h⟩
    obtain ⟨p, hp, -⟩ := multiplyDecimal_natCast h
    exact hp.isDecimal
  · intro h
    obtain ⟨d, hd⟩ := exists_parseDecimal h
    exact ⟨_, by simp [multiplyDecimal, hd, toBigInt, bind, Except.bind]; rfl⟩

theorem isDecimal_of_multiplyDecimal {value product : String} {n : ℕ}
    (h : multiplyDecimal value n = .ok product) : isDecimal product = true := by
  obtain ⟨p, -, hproduct⟩ := multiplyDecimal_natCast h
  exact hproduct.isDecimal

/-! ### What the schemas say -/

/-- A member that is a decimal string. -/
def DecimalMember (v : Option Value) : Prop := ∃ s, v = some (.str s) ∧ isDecimal s = true

/-- A member that is absent or a decimal string. -/
def OptionalDecimal (s : Option String) : Prop := ∀ t, s = some t → isDecimal t = true

/-- The Commerce terms of a mandate satisfy the profile schema. -/
structure CommerceTermsValid (terms : Record) : Prop where
  unitPrice : DecimalMember (terms.lookup "max_unit_price")
  total : DecimalMember (terms.lookup "max_total")
  quantity : ∃ n : ℕ, 1 ≤ n ∧ terms.lookup "max_quantity" = some (.num n)

/-- The RWA terms of a mandate satisfy the profile schema. -/
structure RwaTermsValid (terms : Record) : Prop where
  quantity : DecimalMember (terms.lookup "max_quantity")
  approvals : ∃ n : ℕ, 1 ≤ n ∧ terms.lookup "minimum_approvals" = some (.num n)

/-- A limit is a decimal or a safe integer, when it is a string or a number. -/
def LimitValid (v : Option Value) : Prop :=
  (∀ s, v = some (.str s) → isDecimal s = true) ∧
    ∀ q, v = some (.num q) → ∃ n : ℤ, q = n ∧ n.natAbs ≤ Double.maxSafeInteger

/-- A mandate whose profile terms satisfy their schemas, and whose limits hold decimals or safe
integers. -/
structure MandateValid (mandate : AgentMandate) : Prop where
  commerce : ∀ terms, objectAt mandate.extensions "commerce" = some terms →
    CommerceTermsValid terms
  rwa : ∀ terms, objectAt mandate.extensions "rwa" = some terms → RwaTermsValid terms
  limits : ∀ key ∈ ["max_calls", "max_total", "max_quantity"],
    LimitValid ((mandate.limits.getD []).lookup key)

/-- The decimals of a usage. -/
structure UsageValid (usage : UsageSnapshot) : Prop where
  amount : OptionalDecimal usage.amount
  quantity : OptionalDecimal usage.quantity
  mintedSupply : OptionalDecimal usage.mintedSupply

/-- The numbers of a Commerce context. -/
structure CommerceContextValid (context : CommerceEvaluationContext) : Prop where
  quantity : ∃ n : ℕ, 1 ≤ n ∧ context.quantity = n
  unitPrice : isDecimal context.unitPrice = true
  total : isDecimal context.totalAmount = true

/-- The members of an RWA context that the evaluator parses or calls a method of. -/
structure RwaContextValid (context : Option Value) : Prop where
  quantity : DecimalMember (get context "quantity")
  reserve : DecimalMember (get context "reserve")
  currentSupply : DecimalMember (get context "current_supply")
  maximumSupply : get context "maximum_supply" = none ∨ DecimalMember (get context "maximum_supply")
  approvalRoles : ∃ items, get context "approval_roles" = some (.arr items)

/-- What the schemas say of the members of a request that the evaluator parses. -/
structure ValidRequest (request : EvaluationRequest) : Prop where
  mandate : MandateValid request.mandate
  parent : ∀ parent, request.parentMandate = some parent → MandateValid parent
  usage : UsageValid request.usage
  consumption : ∀ supplied, request.consumption = some supplied →
    OptionalDecimal supplied.amount ∧ OptionalDecimal supplied.quantity
  commerce : ∀ context, request.commerce = some context → CommerceContextValid context
  rwa : ∀ context, request.rwa = some context → truthy request.rwa = true ∧
    RwaContextValid request.rwa

/-! ### The condition -/

/-- `Date.parse` understands the timestamp. -/
def Dated (engine : Engine) (value : String) : Prop := (dateParse engine value).isSome = true

/-- The parent's expiry is not looked at: the parent is inactive for another reason, and the
child starts before it. -/
def SkipsExpiry (engine : Engine) (child parent : AgentMandate) (now : ℤ) : Prop :=
  (parent.status = .active → ∃ t, timestamp engine parent.notBefore = .ok t ∧ now < t) ∧
    ∃ c p, timestamp engine child.notBefore = .ok c ∧ timestamp engine parent.notBefore = .ok p ∧
      c < p

/-- What `checkChildMandate` reads of a parent is there. -/
structure ParentDecides (engine : Engine) (child parent : AgentMandate) (now : ℤ) : Prop where
  notBefore : Dated engine parent.notBefore
  expiresAt : Dated engine parent.expiresAt ∨ SkipsExpiry engine child parent now
  delegation : ∀ d, child.delegation = some d → d.allowed = true → parent.delegation.isSome = true

/-- Whatever the evaluator parses in the request can be parsed. -/
structure Decides (engine : Engine) (request : EvaluationRequest) : Prop where
  time : Dated engine request.evaluationTime
  notBefore : Dated engine request.mandate.notBefore
  expiresAt : Dated engine request.mandate.expiresAt
  parent : ∀ parent now, request.parentMandate = some parent →
    timestamp engine request.evaluationTime = .ok now →
    ParentDecides engine request.mandate parent now
  limit : request.mandate.profile = none → ∀ limit,
    quantityLimit engine (request.mandate.limits.getD []) = some limit → isDecimal limit = true ∧
      ∀ context, request.commerce = some context →
        isDecimal (numberText engine context.quantity) = true
  commerce : ∀ context terms, request.commerce = some context →
    objectAt request.mandate.extensions "commerce" = some terms →
    isDecimal (numberText engine context.quantity) = true ∧
      isDecimal (optionText engine (terms.lookup "max_quantity")) = true
  rwa : ∀ terms, truthy request.rwa = true → objectAt request.mandate.extensions "rwa" = some terms →
    Dated engine (optionText engine (get request.rwa "claim_valid_until"))

/-! ### The mandate and its parent -/

@[simp] theorem returns_timestamp {value : String} :
    Returns (timestamp engine value) ↔ Dated engine value := by
  unfold timestamp Dated
  cases dateParse engine value <;> simp

theorem decimalAtMost_returns {child parent : Option Value} (hc : DecimalMember child)
    (hp : DecimalMember parent) : Returns (decimalAtMost child parent) := by
  obtain ⟨c, rfl, hc⟩ := hc
  obtain ⟨p, rfl, hp⟩ := hp
  rw [decimalAtMost, returns_bind_pure, returns_compareDecimal]
  exact ⟨hc, hp⟩

/-- Comparing the profile terms of two valid mandates returns. -/
theorem checkProfileSubset_returns {child parent : AgentMandate} (hc : MandateValid child)
    (hp : MandateValid parent) (reasons : Reasons) :
    Returns (checkProfileSubset child parent reasons) := by
  have hcommerce : Returns (commerceWidened (objectAt child.extensions "commerce")
      (objectAt parent.extensions "commerce")) := by
    cases hparent : objectAt parent.extensions "commerce" with
    | none => exact ⟨false, rfl⟩
    | some p =>
      cases hchild : objectAt child.extensions "commerce" with
      | none => exact ⟨true, rfl⟩
      | some c =>
        have hcv := hc.commerce c hchild
        have hpv := hp.commerce p hparent
        simp only [commerceWidened, returns_orThrow, returns_map, returns_ok, true_and]
        exact fun _ => ⟨decimalAtMost_returns hcv.unitPrice hpv.unitPrice, fun _ =>
          ⟨decimalAtMost_returns hcv.total hpv.total, fun _ => trivial⟩⟩
  have hrwa : Returns (rwaWidened (objectAt child.extensions "rwa")
      (objectAt parent.extensions "rwa")) := by
    cases hparent : objectAt parent.extensions "rwa" with
    | none => exact ⟨false, rfl⟩
    | some p =>
      cases hchild : objectAt child.extensions "rwa" with
      | none => exact ⟨true, rfl⟩
      | some c =>
        simp only [rwaWidened, returns_orThrow, returns_map, returns_ok, true_and]
        exact fun _ => ⟨decimalAtMost_returns (hc.rwa c hchild).quantity (hp.rwa p hparent).quantity,
          fun _ => trivial⟩
  obtain ⟨b, hb⟩ := hcommerce
  obtain ⟨b', hb'⟩ := hrwa
  unfold checkProfileSubset
  by_cases hprofile : child.profile = parent.profile
  · rw [if_neg (not_not_intro hprofile)]
    exact ⟨_, bind_eq_ok.mpr ⟨b, hb, bind_eq_ok.mpr ⟨b', hb', rfl⟩⟩⟩
  · rw [if_pos hprofile]
    exact returns_pure _

theorem returns_delegationWidened {child parent : Option Delegation} {depth : ℤ} :
    Returns (delegationWidened child parent depth) ↔
      ∀ d, child = some d → d.allowed = true → parent.isSome = true := by
  cases child with
  | none => simp [delegationWidened]
  | some c =>
    cases hallowed : c.allowed <;> cases parent <;> simp [delegationWidened, hallowed]

/-- The two conditions that read the parent's expiry return exactly if it can be read or is
skipped in both. -/
theorem parentExpiry_iff {child parent : AgentMandate} {now : ℤ}
    (hchild : Dated engine child.notBefore) (hchildEnd : Dated engine child.expiresAt) :
    (Returns (orThrow (.ok (parent.status != .active))
        <| orThrow (do return decide ((← timestamp engine parent.notBefore) > now))
        <| do return decide ((← timestamp engine parent.expiresAt) ≤ now)) ∧
      Returns (orThrow
        (timestamp engine child.notBefore >>= fun c =>
          timestamp engine parent.notBefore >>= fun p => pure (decide (c < p)))
        (timestamp engine child.expiresAt >>= fun c =>
          timestamp engine parent.expiresAt >>= fun p => pure (decide (c > p))))) ↔
    Dated engine parent.notBefore ∧
      (Dated engine parent.expiresAt ∨ SkipsExpiry engine child parent now) := by
  obtain ⟨c, hc⟩ := returns_timestamp.mpr hchild
  obtain ⟨e, he⟩ := returns_timestamp.mpr hchildEnd
  have hends : Returns (timestamp engine child.expiresAt >>= fun c =>
      timestamp engine parent.expiresAt >>= fun p => pure (decide (c > p))) ↔
      Dated engine parent.expiresAt := by
    rw [he]
    exact returns_bind_pure.trans returns_timestamp
  have hexpired : Returns (do return decide ((← timestamp engine parent.expiresAt) ≤ now)) ↔
      Dated engine parent.expiresAt := returns_bind_pure.trans returns_timestamp
  by_cases hstart : Dated engine parent.notBefore
  · obtain ⟨p, hp⟩ := returns_timestamp.mpr hstart
    unfold SkipsExpiry
    rw [returns_orThrow, returns_orThrow, returns_orThrow, hends, hexpired]
    simp only [hc, hp, bind, Except.bind, pure, Except.pure, returns_ok, true_and,
      Except.ok.injEq, bne_eq_false_iff_eq, decide_eq_false_iff_not, gt_iff_lt, not_lt, hstart,
      exists_eq_left']
    by_cases hdated : Dated engine parent.expiresAt
    · simp [hdated]
    · simp only [hdated, imp_false, not_le, false_or, ↓existsAndEq, true_and]
  · have hmissing : ¬ Returns (timestamp engine child.notBefore >>= fun c =>
        timestamp engine parent.notBefore >>= fun p => pure (decide (c < p))) := by
      rw [hc]
      exact fun h => hstart (returns_timestamp.mp (returns_bind_pure.mp h))
    refine iff_of_false (fun h => hmissing (returns_orThrow.mp h.2).1) fun h => hstart h.1

theorem returns_checkChildMandate {child parent : AgentMandate} {depth now : ℤ}
    {reasons : Reasons} (hc : MandateValid child) (hp : MandateValid parent)
    (hchild : Dated engine child.notBefore) (hchildEnd : Dated engine child.expiresAt) :
    Returns (checkChildMandate engine child parent depth now reasons) ↔
      ParentDecides engine child parent now := by
  unfold checkChildMandate
  rw [returns_bind_iff fun _ _ => returns_bind_iff fun _ _ => returns_bind_iff fun _ _ =>
    iff_of_true (checkProfileSubset_returns hc hp _) trivial, returns_delegationWidened, and_true,
    ← and_assoc, parentExpiry_iff hchild hchildEnd]
  exact ⟨fun h => ⟨h.1.1, h.1.2, h.2⟩, fun h => ⟨⟨h.notBefore, h.expiresAt⟩, h.delegation⟩⟩

theorem returns_checkMandate {request : EvaluationRequest} {now : ℤ}
    (hc : MandateValid request.mandate)
    (hp : ∀ parent, request.parentMandate = some parent → MandateValid parent) :
    Returns (checkMandate engine request now) ↔
      Dated engine request.mandate.notBefore ∧ Dated engine request.mandate.expiresAt ∧
        ∀ parent, request.parentMandate = some parent →
          ParentDecides engine request.mandate parent now := by
  unfold checkMandate
  by_cases hstart : Dated engine request.mandate.notBefore
  swap
  · refine iff_of_false (fun h => hstart ?_) fun h => hstart h.1
    obtain ⟨_, h⟩ := h
    obtain ⟨t, ht, -⟩ := bind_eq_ok.mp h
    exact returns_timestamp.mp ⟨t, ht⟩
  by_cases hend : Dated engine request.mandate.expiresAt
  swap
  · refine iff_of_false (fun h => hend ?_) fun h => hend h.2.1
    obtain ⟨_, h⟩ := h
    obtain ⟨_, -, h⟩ := bind_eq_ok.mp h
    obtain ⟨t, ht, -⟩ := bind_eq_ok.mp h
    exact returns_timestamp.mp ⟨t, ht⟩
  cases hparent : request.parentMandate with
  | none =>
    simp only [reduceCtorEq, false_implies, implies_true, and_true]
    rw [returns_bind_iff fun _ _ => returns_bind_iff fun _ _ =>
      iff_of_true (returns_pure _) trivial, returns_timestamp, returns_timestamp, and_true]
  | some parent =>
    simp only [Option.some.injEq, forall_eq']
    rw [returns_bind_iff fun _ _ => returns_bind_iff fun _ _ =>
      returns_checkChildMandate hc (hp parent hparent) hstart hend, returns_timestamp,
      returns_timestamp]

/-! ### Accounting -/

theorem isDecimal_getD {s : Option String} (h : OptionalDecimal s) :
    isDecimal (s.getD "0") = true := by
  cases s with
  | none => exact denotes_zero.isDecimal
  | some t => exact h t rfl

theorem normalizedUsage_isDecimal {usage : UsageSnapshot} (h : UsageValid usage) :
    isDecimal (normalizedUsage usage).amount = true ∧
      isDecimal (normalizedUsage usage).quantity = true ∧
      isDecimal (normalizedUsage usage).mintedSupply = true :=
  ⟨isDecimal_getD h.amount, isDecimal_getD h.quantity, isDecimal_getD h.mintedSupply⟩

theorem effectiveAmount_isDecimal (engine : Engine) {request : EvaluationRequest} (h : ValidRequest request) :
    isDecimal (effectiveConsumption engine request).amount = true := by
  cases hcontext : request.commerce with
  | some context => simpa [effectiveConsumption, hcontext] using (h.commerce context hcontext).total
  | none =>
    cases hsupplied : request.consumption with
    | none => simpa [effectiveConsumption, hcontext, hsupplied] using denotes_zero.isDecimal
    | some supplied =>
      simpa [effectiveConsumption, hcontext, hsupplied]
        using isDecimal_getD (h.consumption supplied hsupplied).1

/-- The effective quantity is a string, and a decimal unless a Commerce context sets it. -/
theorem effectiveQuantity_decimalText (engine : Engine) {request : EvaluationRequest}
    (h : ValidRequest request) :
    ∃ text, (effectiveConsumption engine request).quantity = .str text ∧
      (isDecimal text = true ↔ ∀ context, request.commerce = some context →
        isDecimal (numberText engine context.quantity) = true) := by
  cases hcontext : request.commerce with
  | some context =>
    exact ⟨numberText engine context.quantity, by simp [effectiveConsumption, hcontext], by simp⟩
  | none =>
    simp only [reduceCtorEq, false_implies, implies_true, iff_true]
    cases hrwa : request.rwa with
    | some context =>
      obtain ⟨text, htext, hdecimal⟩ := (h.rwa context hrwa).2.quantity
      rw [hrwa] at htext
      exact ⟨text, by simp [effectiveConsumption, hcontext, hrwa, htext, nullish], hdecimal⟩
    | none =>
      cases hsupplied : request.consumption with
      | none =>
        exact ⟨"0", by simp [effectiveConsumption, hcontext, hrwa, hsupplied, nullish],
          denotes_zero.isDecimal⟩
      | some supplied =>
        have hdecimal := isDecimal_getD (h.consumption supplied hsupplied).2
        cases hquantity : supplied.quantity with
        | none =>
          exact ⟨"0", by simp [effectiveConsumption, hcontext, hrwa, hsupplied, hquantity, nullish],
            denotes_zero.isDecimal⟩
        | some text =>
          rw [hquantity] at hdecimal
          exact ⟨text, by simp [effectiveConsumption, hcontext, hrwa, hsupplied, hquantity, nullish],
            hdecimal⟩

theorem returns_quantityLimitExceeded {request : EvaluationRequest} (h : ValidRequest request) :
    Returns (quantityLimitExceeded engine request.mandate (request.mandate.limits.getD [])
        (normalizedUsage request.usage) (effectiveConsumption engine request)) ↔
      (request.mandate.profile = none → ∀ limit,
        quantityLimit engine (request.mandate.limits.getD []) = some limit →
          isDecimal limit = true ∧ ∀ context, request.commerce = some context →
            isDecimal (numberText engine context.quantity) = true) := by
  obtain ⟨text, htext, hdecimal⟩ := effectiveQuantity_decimalText engine h
  have husage := (normalizedUsage_isDecimal h.usage).2.1
  unfold quantityLimitExceeded
  split
  next limit hprofile hlimit =>
    simp only [hprofile, hlimit, Option.some.injEq, forall_eq', forall_const]
    rw [htext, ← hdecimal]
    change Returns (addDecimal _ text >>= fun sum => compareDecimal sum limit >>= _) ↔ _
    rw [returns_sum_bind (P := True) fun _ => iff_of_true (returns_pure _) trivial]
    simp only [husage, true_and, and_true]
    exact and_comm
  next hn => exact iff_of_true (returns_ok _) fun hprofile limit hlimit => absurd hlimit (hn limit hprofile)

theorem checkBudget_returns {request : EvaluationRequest} (h : ValidRequest request)
    (reasons : Reasons) :
    Returns (checkBudget (request.mandate.limits.getD []) (normalizedUsage request.usage)
      (effectiveConsumption engine request) reasons) := by
  unfold checkBudget
  split
  next total htotal hamount =>
    refine (returns_sum_bind (P := True) fun _ => iff_of_true (returns_pure _) trivial).mpr ?_
    have hlimit := (h.mandate.limits "max_total" (by simp)).1 total htotal
    exact ⟨⟨(normalizedUsage_isDecimal h.usage).1, effectiveAmount_isDecimal engine h⟩, hlimit, trivial⟩
  next => exact returns_ok _

theorem returns_checkConsumption {request : EvaluationRequest} (h : ValidRequest request)
    {reasons : Reasons} :
    Returns (checkConsumption engine request.mandate (normalizedUsage request.usage)
        (effectiveConsumption engine request) reasons) ↔
      (request.mandate.profile = none → ∀ limit,
        quantityLimit engine (request.mandate.limits.getD []) = some limit →
          isDecimal limit = true ∧ ∀ context, request.commerce = some context →
            isDecimal (numberText engine context.quantity) = true) := by
  unfold checkConsumption
  rw [returns_bind_iff fun _ _ => iff_of_true (checkBudget_returns h _) trivial, and_true,
    returns_quantityLimitExceeded h]

/-! ### The profiles -/

theorem optionText_of_decimalMember (engine : Engine) {v : Option Value} (h : DecimalMember v) :
    isDecimal (optionText engine v) = true := by
  obtain ⟨s, rfl, hs⟩ := h
  exact hs

theorem returns_checkCommerceTerms {request : EvaluationRequest} (h : ValidRequest request)
    {reasons : Reasons} : Returns (checkCommerceTerms engine request reasons) ↔
      ∀ context terms, request.commerce = some context →
        objectAt request.mandate.extensions "commerce" = some terms →
        isDecimal (numberText engine context.quantity) = true ∧
          isDecimal (optionText engine (terms.lookup "max_quantity")) = true := by
  unfold checkCommerceTerms
  by_cases hneeds : needsCommerce request = true
  · rw [if_pos hneeds]
    unfold checkCommerce
    split
    next context terms hcontext hterms =>
      have hvalid := h.commerce context hcontext
      have htermsValid := h.mandate.commerce terms hterms
      obtain ⟨n, -, hquantity⟩ := hvalid.quantity
      have hprice := optionText_of_decimalMember engine htermsValid.unitPrice
      have hbudget := optionText_of_decimalMember engine htermsValid.total
      have husage := (normalizedUsage_isDecimal h.usage).1
      obtain ⟨unitPrice, hunitPrice⟩ := returns_compareDecimal.mpr ⟨hvalid.unitPrice, hprice⟩
      obtain ⟨product, hproduct⟩ := (returns_multiplyDecimal (n := n)).mpr hvalid.unitPrice
      obtain ⟨total, htotal⟩ :=
        returns_compareDecimal.mpr ⟨hvalid.total, isDecimal_of_multiplyDecimal hproduct⟩
      obtain ⟨sum, hsum⟩ := returns_addDecimal.mpr ⟨husage, hvalid.total⟩
      obtain ⟨budget, hbudget'⟩ :=
        returns_compareDecimal.mpr ⟨isDecimal_of_addDecimal hsum, hbudget⟩
      rw [← hquantity] at hproduct
      simp only [hcontext, hterms, Option.some.injEq, hunitPrice, hproduct, htotal, hsum,
        hbudget', bind_ok]
      rw [returns_bind_pure, returns_compareDecimal]
      constructor
      · rintro hboth _ _ rfl rfl
        exact hboth
      · intro hall
        exact hall context terms rfl rfl
    next hn =>
      exact iff_of_true (returns_ok _) fun context terms hcontext hterms =>
        absurd hterms (hn context terms hcontext)
  · rw [if_neg hneeds]
    refine iff_of_true (returns_ok _) fun context terms hcontext _ => absurd ?_ hneeds
    simp [needsCommerce, hcontext]

theorem returns_checkRequiredRoles {approvalRoles : Option Value} {items : List Value}
    (h : approvalRoles = some (.arr items)) {roles : List String} {reasons : Reasons} :
    Returns (checkRequiredRoles approvalRoles roles reasons) := by
  induction roles generalizing reasons with
  | nil => exact returns_ok _
  | cons role rest ih =>
    obtain ⟨next, hnext⟩ := @ih (reasons.addIf (!includes items (.str role))
      "RWA_REQUIRED_ROLE_MISSING")
    rw [checkRequiredRoles, h]
    rw [h] at hnext
    exact ⟨next, hnext⟩

theorem returns_checkRwaTerms {request : EvaluationRequest} (h : ValidRequest request) {now : ℤ}
    {reasons : Reasons} : Returns (checkRwaTerms engine request now reasons) ↔
      ∀ terms, truthy request.rwa = true →
        objectAt request.mandate.extensions "rwa" = some terms →
        Dated engine (optionText engine (get request.rwa "claim_valid_until")) := by
  unfold checkRwaTerms
  by_cases hneeds : needsRwa request = true
  · rw [if_pos hneeds]
    unfold checkRwa
    split
    next terms hcontext hterms =>
      obtain ⟨context, hrwa⟩ : ∃ context, request.rwa = some context := by
        cases hnone : request.rwa with
        | none => simp [hnone, truthy] at hcontext
        | some context => exact ⟨context, rfl⟩
      have hvalid := (h.rwa context hrwa).2
      have hmax := optionText_of_decimalMember engine
        (h.mandate.rwa terms hterms).quantity
      obtain ⟨-, husage, hminted⟩ := normalizedUsage_isDecimal h.usage
      obtain ⟨quantity, hquantity, hq⟩ := hvalid.quantity
      obtain ⟨supply, hsupply, hs⟩ := hvalid.currentSupply
      obtain ⟨reserve, hreserve, hr⟩ := hvalid.reserve
      obtain ⟨items, hitems⟩ := hvalid.approvalRoles
      obtain ⟨total, htotal⟩ := returns_addDecimal.mpr ⟨husage, hq⟩
      obtain ⟨c, hc⟩ := returns_compareDecimal.mpr ⟨isDecimal_of_addDecimal htotal, hmax⟩
      obtain ⟨result, hresult⟩ := returns_addDecimal.mpr ⟨hs, hq⟩
      have hresultDecimal := isDecimal_of_addDecimal hresult
      obtain ⟨d, hd⟩ := returns_compareDecimal.mpr ⟨hresultDecimal, hr⟩
      have hmaximum : Returns (andThrow (.ok (truthy (get request.rwa "maximum_supply"))) do
          return decide ((← compareDecimal result
            (← decimalText (get request.rwa "maximum_supply"))) > 0)) := by
        refine returns_andThrow.mpr ⟨returns_ok _, fun hset => ?_⟩
        obtain hnone | ⟨m, hm, hmDecimal⟩ := hvalid.maximumSupply
        · simp [hnone, truthy] at hset
        · rw [decimalText_eq_ok.mpr hm]
          exact returns_bind_pure.mpr (returns_compareDecimal.mpr ⟨hresultDecimal, hmDecimal⟩)
      have htracked : Returns (andThrow (.ok request.usage.mintedSupply.isSome) do
          return decide ((← compareDecimal (normalizedUsage request.usage).mintedSupply supply)
            ≠ 0)) :=
        returns_andThrow.mpr ⟨returns_ok _, fun _ =>
          returns_bind_pure.mpr (returns_compareDecimal.mpr ⟨hminted, hs⟩)⟩
      obtain ⟨maximum, hmaximum⟩ := hmaximum
      obtain ⟨tracked, htracked⟩ := htracked
      simp only [hcontext, hterms, Option.some.injEq, forall_const, forall_eq']
      rw [← returns_timestamp]
      constructor
      · rintro ⟨next, hnext⟩
        obtain ⟨t, ht, -⟩ := bind_eq_ok.mp hnext
        exact ⟨t, ht⟩
      · rintro ⟨t, ht⟩
        simp only [ht, decimalText_eq_ok.mpr hquantity, decimalText_eq_ok.mpr hsupply,
          decimalText_eq_ok.mpr hreserve, htotal, hc, hresult, hd, hmaximum, htracked, bind_ok]
        exact returns_bind_pure.mpr (returns_checkRequiredRoles hitems)
    next hn =>
      exact iff_of_true (returns_ok _) fun terms hcontext hterms =>
        absurd hterms (hn terms hcontext)
  · rw [if_neg hneeds]
    refine iff_of_true (returns_ok _) fun terms hcontext _ => absurd ?_ hneeds
    simp [needsRwa, hcontext]

/-! ### The whole evaluation -/

theorem returns_checkAuthority {request : EvaluationRequest} (h : ValidRequest request) :
    Returns (checkAuthority engine request) ↔ Decides engine request := by
  unfold checkAuthority
  have hchecks : ∀ now, timestamp engine request.evaluationTime = .ok now →
      (Returns (checkMandate engine request now >>= fun reasons =>
        checkConsumption engine request.mandate (normalizedUsage request.usage)
          (effectiveConsumption engine request)
          (checkConsumptionContext request (effectiveConsumption engine request) reasons) >>=
        fun reasons => checkCommerceTerms engine request reasons >>=
        fun reasons => checkRwaTerms engine request now reasons) ↔ Decides engine request) := by
    intro now hnow
    have hcommerce := fun r => (returns_bind_iff (x := checkCommerceTerms engine request r)
      fun next _ => @returns_checkRwaTerms engine request h now next)
    have hconsumption := fun r => (returns_bind_iff
      (x := checkConsumption engine request.mandate (normalizedUsage request.usage)
        (effectiveConsumption engine request)
        (checkConsumptionContext request (effectiveConsumption engine request) r))
      fun next _ => (hcommerce next).trans (and_congr_left' (returns_checkCommerceTerms h)))
    have hmandate := returns_bind_iff (x := checkMandate engine request now)
      fun next _ => (hconsumption next).trans (and_congr_left' (returns_checkConsumption h))
    rw [hmandate, returns_checkMandate h.mandate h.parent]
    constructor
    · rintro ⟨⟨hstart, hend, hparent⟩, hlimit, hcommerce, hrwa⟩
      refine ⟨returns_timestamp.mp ⟨now, hnow⟩, hstart, hend, ?_, hlimit, hcommerce, hrwa⟩
      intro parent now' hsome hnow'
      rw [hnow] at hnow'
      cases hnow'
      exact hparent parent hsome
    · intro hdecides
      exact ⟨⟨hdecides.notBefore, hdecides.expiresAt,
        fun parent hsome => hdecides.parent parent now hsome hnow⟩, hdecides.limit,
        hdecides.commerce, hdecides.rwa⟩
  rw [returns_bind_iff hchecks, returns_timestamp]
  exact ⟨fun hdecides => hdecides.2, fun hdecides => ⟨hdecides.time, hdecides⟩⟩

/-- On a valid request the usage of an allowed step can be updated. -/
theorem nextUsage_returns {request : EvaluationRequest} (h : ValidRequest request) {now : ℤ}
    (hp : Permits engine request now) : Returns (nextUsage engine request .allow) := by
  obtain ⟨text, htext, hdecimal⟩ := effectiveQuantity_decimalText engine h
  obtain ⟨hamount, hquantity, -⟩ := normalizedUsage_isDecimal h.usage
  have htextDecimal : isDecimal text = true := by
    refine hdecimal.mpr fun context hcontext => ?_
    obtain ⟨c, limits, hc, -, hpermits⟩ := hp.commerce (by simp [needsCommerce, hcontext])
    obtain rfl : context = c := by simpa [hcontext] using hc
    obtain ⟨n, -, hn, -, -⟩ := hpermits.quantity
    exact hn.isDecimal
  obtain ⟨amount, ha⟩ := returns_addDecimal.mpr
    ⟨hamount, effectiveAmount_isDecimal engine h⟩
  obtain ⟨quantity, hq⟩ := returns_addDecimal.mpr ⟨hquantity, htextDecimal⟩
  have hminted : Returns (nextMintedSupply (normalizedUsage request.usage) request) := by
    unfold nextMintedSupply
    by_cases hrwa : truthy request.rwa = true
    · rw [if_pos hrwa]
      obtain ⟨-, limits, -, hpermits⟩ := hp.rwa (by simp [needsRwa, hrwa])
      obtain ⟨supply, added, -, hsupply, hadded, -, c, q, -, hc, hq, -⟩ := hpermits.supply.reserve
      rw [decimalText_eq_ok.mpr hsupply, decimalText_eq_ok.mpr hadded]
      exact returns_addDecimal.mpr ⟨hc.isDecimal, hq.isDecimal⟩
    · rw [if_neg hrwa]
      exact returns_ok _
  obtain ⟨minted, hm⟩ := hminted
  exact ⟨_, applyConsumption_eq_ok.mpr ⟨amount, text, quantity, minted, ha, htext, hq, hm, rfl⟩⟩

/-- On a valid request the evaluator returns exactly if whatever it parses can be parsed. -/
theorem evaluateAuthority_returns_iff {request : EvaluationRequest} (h : ValidRequest request) :
    (∃ result, evaluateAuthority engine request = .ok result) ↔ Decides engine request := by
  rw [← returns_checkAuthority h]
  constructor
  · rintro ⟨result, hresult⟩
    obtain ⟨reasons, hreasons, -⟩ := bind_eq_ok.mp hresult
    exact ⟨reasons, hreasons⟩
  · rintro ⟨reasons, hreasons⟩
    have hnext : Returns (nextUsage engine request
        (if sortStrings reasons = [] then .allow else .deny)) := by
      split_ifs with hnil
      · rw [sortStrings_eq_nil.mp hnil] at hreasons
        obtain ⟨now, hp⟩ := checkAuthority_eq_nil.mp hreasons
        exact nextUsage_returns h hp
      · exact returns_ok _
    obtain ⟨next, hnext⟩ := hnext
    exact ⟨_, bind_eq_ok.mpr ⟨reasons, hreasons, bind_eq_ok.mpr ⟨next, hnext, rfl⟩⟩⟩

/-! ### A sample order -/

/-- A copy of the broker's mandate is valid: only its terms and limits are parsed. -/
theorem mandateValid_brokerMandate {mandate : AgentMandate}
    (hlimits : mandate.limits = brokerMandate.limits)
    (hextensions : mandate.extensions = brokerMandate.extensions) : MandateValid mandate where
  commerce := by
    intro terms hterms
    rw [hextensions] at hterms
    obtain rfl : quoteTerms "100" 8 = terms := Option.some.inj hterms
    exact ⟨⟨"2.50", rfl, by decide⟩, ⟨"100", rfl, by decide⟩, ⟨8, by decide, rfl⟩⟩
  rwa := by
    intro terms hterms
    rw [hextensions] at hterms
    cases hterms
  limits := by
    intro key hkey
    rw [hlimits]
    simp only [List.mem_cons, List.not_mem_nil, or_false] at hkey
    obtain rfl | rfl | rfl := hkey
    · refine ⟨?_, ?_⟩
      · rintro s ⟨⟩
      · rintro q ⟨⟩
        exact ⟨10, by norm_num, by decide⟩
    · refine ⟨?_, ?_⟩ <;> rintro _ ⟨⟩
    · refine ⟨?_, ?_⟩ <;> rintro _ ⟨⟩

/-- An order like the broker's is valid. -/
theorem validRequest_brokerOrder {request : EvaluationRequest}
    (hmandate : MandateValid request.mandate)
    (hparent : ∀ parent, request.parentMandate = some parent → MandateValid parent)
    (hrest : { request with mandate := brokerMandate, parentMandate := none } = brokerOrder) :
    ValidRequest request := by
  obtain ⟨time, mandate, parent, depth, envelope, usage, consumption, commerce, rwa⟩ := request
  simp only [brokerOrder, EvaluationRequest.mk.injEq] at hrest
  obtain ⟨-, -, -, -, -, rfl, rfl, rfl, rfl⟩ := hrest
  refine ⟨hmandate, hparent, ⟨?_, ?_, ?_⟩, ?_, ?_, ?_⟩
  · rintro _ ⟨⟩
  · rintro _ ⟨⟩
  · rintro _ ⟨⟩
  · rintro _ ⟨⟩
  · rintro context ⟨⟩
    exact ⟨⟨4, by decide, rfl⟩, by decide, by decide⟩
  · rintro context ⟨⟩

theorem evaluateAuthority_returns_iff_brokerOrder :
    (∃ result, evaluateAuthority plainEngine brokerOrder = .ok result) ↔
      Decides plainEngine brokerOrder :=
  evaluateAuthority_returns_iff (validRequest_brokerOrder (mandateValid_brokerMandate rfl rfl)
    (by rintro parent ⟨⟩) rfl)

/-- The broker's order under a parent mandate without a `delegation`. -/
def orphanOrder : EvaluationRequest :=
  { brokerOrder with
    mandate := { brokerMandate with parentMandate := some "oati:mandate:desk" }
    parentMandate := some { brokerMandate with id := "oati:mandate:desk", delegation := none } }

/-- The broker may delegate, so the evaluator reads the depth of a delegation that is not
there. -/
theorem orphanOrder_throws :
    ValidRequest orphanOrder ∧ evaluateAuthority plainEngine orphanOrder = .error
      (.typeError "Cannot read properties of undefined (reading 'max_depth')") := by
  refine ⟨validRequest_brokerOrder (mandateValid_brokerMandate rfl rfl) ?_ rfl, by decide +kernel⟩
  rintro parent ⟨⟩
  exact mandateValid_brokerMandate rfl rfl

end Oati.TypeScript

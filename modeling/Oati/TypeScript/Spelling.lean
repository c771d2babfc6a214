import Oati.TypeScript.Denial

/-!
# The spelling of decimals

`1.5` and `1.50` are the same number, and an addition keeps the larger scale, so a recorded usage
may spell a number in many ways. The evaluator compares decimals by value, except for the amounts
of the budget: these it also compares as text, with `0` and with the total of the context.

* `Respelled`: a request with the decimals of its usage and the amount of its consumption spelled
  in another way.
* `SpelledAlike`: the rules that compare amounts as text come out alike for both spellings.
* `spelling_neutral_iff`: the answer is the same exactly then.
-/

namespace Oati.TypeScript

variable {engine : Engine}

/-! ### Two spellings of a decimal -/

/-- Both texts denote the same number. -/
def SameDecimal (s t : String) : Prop := ∃ q, Denotes s q ∧ Denotes t q

/-- The texts are the same, or denote the same number. -/
def Spells (s t : String) : Prop := s = t ∨ SameDecimal s t

/-- Both members are missing, or denote the same number. -/
def SameNumber (a b : Option String) : Prop :=
  (a = none ∧ b = none) ∨ ∃ s t, a = some s ∧ b = some t ∧ SameDecimal s t

theorem SameDecimal.symm {s t : String} (h : SameDecimal s t) : SameDecimal t s := by
  obtain ⟨q, hs, ht⟩ := h
  exact ⟨q, ht, hs⟩

/-- A missing decimal is a zero. -/
theorem SameNumber.sameDecimal {a b : Option String} (h : SameNumber a b) :
    SameDecimal (a.getD "0") (b.getD "0") := by
  rcases h with ⟨rfl, rfl⟩ | ⟨s, t, rfl, rfl, h⟩
  · exact ⟨0, denotes_zero, denotes_zero⟩
  · exact h

theorem SameNumber.isSome_eq {a b : Option String} (h : SameNumber a b) : a.isSome = b.isSome := by
  rcases h with ⟨rfl, rfl⟩ | ⟨s, t, rfl, rfl, -⟩ <;> rfl

theorem parseDecimal_of_not_isDecimal {s : String} (h : ¬ isDecimal s = true) :
    parseDecimal s = .error (.typeError ("Invalid decimal: " ++ s)) := by
  rw [parseDecimal, if_neg h]

theorem compareDecimal_congr {s t limit : String} (h : SameDecimal s t) :
    compareDecimal s limit = compareDecimal t limit := by
  obtain ⟨q, ⟨d, hd, hdq⟩, ⟨e, he, heq⟩⟩ := h
  by_cases hlimit : isDecimal limit = true
  · obtain ⟨m, hm, -⟩ := exists_denotes hlimit
    rw [compareDecimal_eq_ok.mpr ⟨q, m, ⟨d, hd, hdq⟩, hm, rfl⟩,
      compareDecimal_eq_ok.mpr ⟨q, m, ⟨e, he, heq⟩, hm, rfl⟩]
  · have herror := parseDecimal_of_not_isDecimal hlimit
    simp only [compareDecimal, hd, he, herror, bind, Except.bind]

/-- A sum is compared by value, whatever is read first fails alike. -/
theorem compareSum_congr {x x' y y' : String} (hx : Spells x x') (hy : Spells y y')
    (limit : String) :
    (addDecimal x y >>= fun sum => compareDecimal sum limit)
      = addDecimal x' y' >>= fun sum => compareDecimal sum limit := by
  have hfails : ∀ {s t : String}, Spells s t → ¬ isDecimal s = true → s = t := by
    rintro s t (rfl | ⟨q, hs, -⟩) hnot
    · rfl
    · exact absurd hs.isDecimal hnot
  by_cases hdx : isDecimal x = true
  · have hvalue : SameDecimal x x' := by
      rcases hx with rfl | hx
      · obtain ⟨p, hp, -⟩ := exists_denotes hdx
        exact ⟨p, hp, hp⟩
      · exact hx
    obtain ⟨p, hp, hp'⟩ := hvalue
    by_cases hdy : isDecimal y = true
    · have hvalue : SameDecimal y y' := by
        rcases hy with rfl | hy
        · obtain ⟨q, hq, -⟩ := exists_denotes hdy
          exact ⟨q, hq, hq⟩
        · exact hy
      obtain ⟨q, hq, hq'⟩ := hvalue
      obtain ⟨sum, hsum⟩ := exists_addDecimal hp hq
      obtain ⟨sum', hsum'⟩ := exists_addDecimal hp' hq'
      rw [hsum, hsum']
      exact compareDecimal_congr ⟨p + q, (denotes_addDecimal hsum).mpr ⟨p, q, hp, hq, rfl⟩,
        (denotes_addDecimal hsum').mpr ⟨p, q, hp', hq', rfl⟩⟩
    · obtain rfl := hfails hy hdy
      obtain ⟨d, hd, -⟩ := hp
      obtain ⟨e, he, -⟩ := hp'
      simp only [addDecimal, hd, he, parseDecimal_of_not_isDecimal hdy, bind, Except.bind]
  · obtain rfl := hfails hx hdx
    simp only [addDecimal, parseDecimal_of_not_isDecimal hdx, bind, Except.bind]

/-- Whatever is done with the comparison of a sum. -/
theorem compareSum_bind_congr {α : Type} {x x' y y' : String} (hx : Spells x x')
    (hy : Spells y y') (limit : String) (k : ℤ → Except JsError α) :
    (addDecimal x y >>= fun sum => compareDecimal sum limit >>= k)
      = addDecimal x' y' >>= fun sum => compareDecimal sum limit >>= k := by
  have h := congrArg (fun compared => compared >>= k) (compareSum_congr hx hy limit)
  simpa only [bind_assoc] using h

/-! ### Two spellings of a request -/

/-- Other texts for the decimals of a request. -/
structure Respelling where
  amount : Option String
  quantity : Option String
  mintedSupply : Option String
  consumption : Option String

/-- The request with these texts. -/
def EvaluationRequest.respell (request : EvaluationRequest) (spelling : Respelling) :
    EvaluationRequest :=
  { request with
    usage :=
      { request.usage with
        amount := spelling.amount, quantity := spelling.quantity
        mintedSupply := spelling.mintedSupply }
    consumption := request.consumption.map fun c => { c with amount := spelling.consumption } }

/-- Each text replaces one that denotes the same number. -/
structure Respelled (request : EvaluationRequest) (spelling : Respelling) : Prop where
  amount : SameNumber request.usage.amount spelling.amount
  quantity : SameNumber request.usage.quantity spelling.quantity
  mintedSupply : SameNumber request.usage.mintedSupply spelling.mintedSupply
  consumption : ∀ c ∈ request.consumption, SameNumber c.amount spelling.consumption

/-- The budget's currency rule is broken. -/
def ForeignBudget (limits : Record) (usage : Usage) (delta : EffectiveConsumption) : Prop :=
  delta.amount ≠ "0" ∧ budgetCurrencyMismatch limits usage delta = true

/-- The budget's total is exceeded, or cannot be compared. -/
def OverBudget (total : String) (usage : Usage) (delta : EffectiveConsumption) : Prop :=
  delta.amount ≠ "0" ∧ ¬ SumAtMost usage.amount delta.amount total

/-- The currency rule of the order is broken. -/
def ForeignOrder (terms : Record) (context : CommerceEvaluationContext) (usage : Usage) : Prop :=
  terms.lookup "currency" ≠ some (.str context.currency) ∨
    usage.amount ≠ "0" ∧ usage.currency ≠ context.currency

/-- The rules that compare amounts as text come out alike for two requests. -/
structure SpelledAlike (engine : Engine) (r r' : EvaluationRequest) : Prop where
  context : ConsumptionAgrees r (effectiveConsumption engine r) ↔
    ConsumptionAgrees r' (effectiveConsumption engine r')
  currency : ∀ total, (r.mandate.limits.getD []).lookup "max_total" = some (.str total) →
    (ForeignBudget (r.mandate.limits.getD []) (normalizedUsage r.usage)
        (effectiveConsumption engine r) ↔
      ForeignBudget (r.mandate.limits.getD []) (normalizedUsage r'.usage)
        (effectiveConsumption engine r'))
  total : ∀ total, (r.mandate.limits.getD []).lookup "max_total" = some (.str total) →
    (OverBudget total (normalizedUsage r.usage) (effectiveConsumption engine r) ↔
      OverBudget total (normalizedUsage r'.usage) (effectiveConsumption engine r'))
  order : ∀ context terms, r.commerce = some context →
    objectAt r.mandate.extensions "commerce" = some terms →
    (ForeignOrder terms context (normalizedUsage r.usage) ↔
      ForeignOrder terms context (normalizedUsage r'.usage))

/-! ### One check at a time -/

/-- The context check adds its code, or not, whatever was found before. -/
theorem exists_contextFlag (request : EvaluationRequest) (delta : EffectiveConsumption) :
    ∃ flag, (flag = false ↔ ConsumptionAgrees request delta) ∧
      ∀ reasons, checkConsumptionContext request delta reasons
        = reasons.addIf flag "CONSUMPTION_CONTEXT_MISMATCH" := by
  have hnil := @checkConsumptionContext_eq_nil request delta []
  rw [checkConsumptionContext] at hnil
  cases hsupplied : request.consumption with
  | none =>
    rw [hsupplied] at hnil
    refine ⟨false, iff_of_true rfl (hnil.mp rfl).2, fun reasons => ?_⟩
    rw [checkConsumptionContext, hsupplied]
    rfl
  | some supplied =>
    rw [hsupplied] at hnil
    simp only [Reasons.addIf_eq_nil, true_and] at hnil
    refine ⟨_, hnil, fun reasons => ?_⟩
    rw [checkConsumptionContext, hsupplied]

/-- The budget block with a total: both rules are about the amounts, and nothing is compared when
the text of the amount is `0`. -/
theorem checkBudget_eq_ok {limits : Record} {usage : Usage} {delta : EffectiveConsumption}
    {reasons next : Reasons} {total : String}
    (htotal : limits.lookup "max_total" = some (.str total)) :
    checkBudget limits usage delta reasons = .ok next ↔
      (delta.amount ≠ "0" →
        ∃ p q m, Denotes usage.amount p ∧ Denotes delta.amount q ∧ Denotes total m) ∧
      ∃ foreign above, (foreign = true ↔ ForeignBudget limits usage delta) ∧
        (above = true ↔ OverBudget total usage delta) ∧
        next = (reasons.addIf foreign "BUDGET_CURRENCY_MISMATCH").addIf above "BUDGET_EXCEEDED" := by
  by_cases hzero : delta.amount = "0"
  · have hskip : checkBudget limits usage delta reasons = .ok reasons := by
      rw [checkBudget, htotal, decide_eq_false (not_not.mpr hzero)]
    rw [hskip, Except.ok.injEq]
    constructor
    · rintro rfl
      exact ⟨fun h => absurd hzero h, false, false, iff_of_false Bool.false_ne_true
        (fun h => h.1 hzero), iff_of_false Bool.false_ne_true (fun h => h.1 hzero), rfl⟩
    · rintro ⟨-, foreign, above, hforeign, hover, rfl⟩
      have hf : foreign = false := Bool.eq_false_iff.mpr fun h => (hforeign.mp h).1 hzero
      have ho : above = false := Bool.eq_false_iff.mpr fun h => (hover.mp h).1 hzero
      rw [hf, ho]
      rfl
  · have hread : checkBudget limits usage delta reasons = (do
        let exceeded ← compareDecimal (← addDecimal usage.amount delta.amount) total
        return (reasons.addIf (budgetCurrencyMismatch limits usage delta)
          "BUDGET_CURRENCY_MISMATCH").addIf (decide (exceeded > 0)) "BUDGET_EXCEEDED") := by
      rw [checkBudget, htotal, decide_eq_true hzero]
    have hforeign : ForeignBudget limits usage delta ↔
        budgetCurrencyMismatch limits usage delta = true := and_iff_right hzero
    have hover : OverBudget total usage delta ↔ ¬ SumAtMost usage.amount delta.amount total :=
      and_iff_right hzero
    rw [hread, hforeign, hover]
    simp only [bind_eq_ok, pure_eq_ok, ne_eq, hzero, not_false_eq_true, forall_const]
    constructor
    · rintro ⟨sum, hsum, c, hc, rfl⟩
      obtain ⟨p, q, hp, hq, -⟩ := addDecimal_denotes hsum
      obtain ⟨-, m, -, hm, -⟩ := compareDecimal_eq_ok.mp hc
      obtain ⟨sum', hsum', c', hc', hflag⟩ := compare_sum hp hq hm
      obtain rfl : sum = sum' := Except.ok.inj (hsum.symm.trans hsum')
      obtain rfl : c = c' := Except.ok.inj (hc.symm.trans hc')
      exact ⟨⟨p, q, m, hp, hq, hm⟩, _, _, Iff.rfl, hflag, rfl⟩
    · rintro ⟨⟨p, q, m, hp, hq, hm⟩, foreign, above, hforeign, hover, rfl⟩
      obtain ⟨sum, hsum, c, hc, hflag⟩ := compare_sum hp hq hm
      refine ⟨sum, hsum, c, hc, ?_⟩
      rw [Bool.eq_iff_iff.mpr hforeign, Bool.eq_iff_iff.mpr (hflag.trans hover.symm)]

/-- Without a total there is no budget. -/
theorem checkBudget_of_unlimited {limits : Record} (usage : Usage) (delta : EffectiveConsumption)
    (reasons : Reasons) (h : ¬ ∃ total, limits.lookup "max_total" = some (.str total)) :
    checkBudget limits usage delta reasons = .ok reasons := by
  unfold checkBudget
  split
  next total hlookup _ => exact absurd ⟨total, hlookup⟩ h
  next => rfl

section Congruence

variable {usage usage' : Usage}

/-- Two usages that differ in the spelling of their decimals. -/
structure SameUsage (usage usage' : Usage) : Prop where
  calls : usage'.calls = usage.calls
  amount : SameDecimal usage.amount usage'.amount
  currency : usage'.currency = usage.currency
  quantity : SameDecimal usage.quantity usage'.quantity
  consumed : usage'.consumed = usage.consumed
  idempotencyKeys : usage'.idempotencyKeys = usage.idempotencyKeys
  mintedSupply : SameDecimal usage.mintedSupply usage'.mintedSupply

theorem callLimitExceeded_congr {limits : Record} {delta : EffectiveConsumption} (amount : String)
    (h : SameUsage usage usage') :
    callLimitExceeded limits usage' { delta with amount := amount }
      = callLimitExceeded limits usage delta := by
  simp only [callLimitExceeded, h.calls]

theorem quantityLimitExceeded_congr {mandate : AgentMandate} {limits : Record}
    {delta : EffectiveConsumption} (amount : String) (h : SameUsage usage usage') :
    quantityLimitExceeded engine mandate limits usage' { delta with amount := amount }
      = quantityLimitExceeded engine mandate limits usage delta := by
  unfold quantityLimitExceeded
  cases mandate.profile with
  | some profile => rfl
  | none =>
    cases quantityLimit engine limits with
    | none => rfl
    | some limit =>
      refine bind_congr fun quantity => ?_
      exact compareSum_bind_congr (.inr h.quantity.symm) (.inl rfl) limit _

/-- The consumption check comes out alike if the budget rules do. -/
theorem checkConsumption_congr {mandate : AgentMandate} {delta : EffectiveConsumption}
    {reasons next : Reasons} {amount : String} (h : SameUsage usage usage')
    (hamount : Spells delta.amount amount)
    (hcurrency : ∀ total, (mandate.limits.getD []).lookup "max_total" = some (.str total) →
      (ForeignBudget (mandate.limits.getD []) usage delta ↔
        ForeignBudget (mandate.limits.getD []) usage' { delta with amount := amount }))
    (htotal : ∀ total, (mandate.limits.getD []).lookup "max_total" = some (.str total) →
      (OverBudget total usage delta ↔ OverBudget total usage' { delta with amount := amount }))
    (hnext : checkConsumption engine mandate usage delta reasons = .ok next) :
    checkConsumption engine mandate usage' { delta with amount := amount } reasons = .ok next := by
  simp only [checkConsumption, bind_eq_ok, callLimitExceeded_congr amount h,
    quantityLimitExceeded_congr amount h, h.consumed, h.idempotencyKeys] at hnext ⊢
  obtain ⟨quantity, hquantity, hbudget⟩ := hnext
  refine ⟨quantity, hquantity, ?_⟩
  generalize Reasons.addIf _ quantity "QUANTITY_LIMIT_EXCEEDED" = reasons at hbudget ⊢
  by_cases hlimited : ∃ total, (mandate.limits.getD []).lookup "max_total" = some (.str total)
  · obtain ⟨total, hlookup⟩ := hlimited
    obtain ⟨hread, foreign, above, hforeign, hover, rfl⟩ := (checkBudget_eq_ok hlookup).mp hbudget
    refine (checkBudget_eq_ok hlookup).mpr ⟨fun hne => ?_, foreign, above,
      hforeign.trans (hcurrency total hlookup), hover.trans (htotal total hlookup), rfl⟩
    dsimp only at hne ⊢
    obtain ⟨p, -, hp⟩ := h.amount
    by_cases hsum : SumAtMost usage'.amount amount total
    · obtain ⟨p, q, m, hp, hq, hm, -⟩ := hsum
      exact ⟨p, q, m, hp, hq, hm⟩
    · obtain ⟨hne', -⟩ := (htotal total hlookup).mpr ⟨hne, hsum⟩
      obtain ⟨-, q, m, -, hq, hm⟩ := hread hne'
      rcases hamount with heq | ⟨q', -, hq'⟩
      · exact ⟨p, q, m, hp, heq ▸ hq, hm⟩
      · exact ⟨p, q', m, hp, hq', hm⟩
  · rw [checkBudget_of_unlimited _ _ _ hlimited] at hbudget ⊢
    exact hbudget

theorem foreignOrder_iff {terms : Record} {c : CommerceEvaluationContext} {usage : Usage} :
    (!strictEq (some (.str c.currency)) (terms.lookup "currency")
        || usage.amount != "0" && usage.currency != c.currency) = true ↔
      ForeignOrder terms c usage := by
  rw [ForeignOrder, Bool.or_eq_true, Bool.not_eq_true', Bool.and_eq_true, bne_iff_ne, bne_iff_ne,
    ← Bool.not_eq_true, strictEq_str_left]

/-- The order's check comes out alike if its currency rule does. -/
theorem checkCommerce_congr {mandate : AgentMandate} {envelope : TransactionEnvelope}
    {context : Option CommerceEvaluationContext} {reasons : Reasons} (h : SameUsage usage usage')
    (horder : ∀ c terms, context = some c → objectAt mandate.extensions "commerce" = some terms →
      (ForeignOrder terms c usage ↔ ForeignOrder terms c usage')) :
    checkCommerce engine mandate envelope context usage' reasons
      = checkCommerce engine mandate envelope context usage reasons := by
  unfold checkCommerce
  cases context with
  | none => rfl
  | some c =>
    cases hterms : objectAt mandate.extensions "commerce" with
    | none => rfl
    | some terms =>
      have hsame := Bool.eq_iff_iff.mpr
        ((foreignOrder_iff.trans (horder c terms rfl hterms).symm).trans foreignOrder_iff.symm)
      have hamount : Spells usage'.amount usage.amount := .inr h.amount.symm
      have htotal : Spells c.totalAmount c.totalAmount := .inl rfl
      have hbudget := fun (k : ℤ → Except JsError Reasons) =>
        compareSum_bind_congr hamount htotal (optionText engine (terms.lookup "max_total")) k
      simp only [hsame, hbudget, h.idempotencyKeys]

/-- The RWA check compares by value. -/
theorem checkRwa_congr {mandate : AgentMandate} {envelope : TransactionEnvelope}
    {context : Option Value} {tracked : Bool} {now : ℤ} {reasons : Reasons}
    (h : SameUsage usage usage') :
    checkRwa engine mandate envelope context usage' tracked now reasons
      = checkRwa engine mandate envelope context usage tracked now reasons := by
  unfold checkRwa
  cases truthy context with
  | false => rfl
  | true =>
    cases objectAt mandate.extensions "rwa" with
    | none => rfl
    | some terms =>
      have hspells : Spells usage'.quantity usage.quantity := .inr h.quantity.symm
      have hrefl : ∀ y, Spells y y := fun _ => .inl rfl
      have hquantity := fun (y limit : String) (k : ℤ → Except JsError Reasons) =>
        compareSum_bind_congr hspells (hrefl y) limit k
      have hminted := fun limit => @compareDecimal_congr _ _ limit h.mintedSupply.symm
      simp only [hquantity, hminted, h.consumed]

end Congruence

/-! ### The codes that depend on the text -/

/-- The codes of the rules that compare amounts as text. -/
structure TextCodes (engine : Engine) (request : EvaluationRequest) (reasons : Reasons) : Prop where
  context : "CONSUMPTION_CONTEXT_MISMATCH" ∈ reasons ↔
    ¬ ConsumptionAgrees request (effectiveConsumption engine request)
  currency : ∀ total, (request.mandate.limits.getD []).lookup "max_total" = some (.str total) →
    ("BUDGET_CURRENCY_MISMATCH" ∈ reasons ↔ ForeignBudget (request.mandate.limits.getD [])
      (normalizedUsage request.usage) (effectiveConsumption engine request))
  total : ∀ total, (request.mandate.limits.getD []).lookup "max_total" = some (.str total) →
    ("BUDGET_EXCEEDED" ∈ reasons ↔
      OverBudget total (normalizedUsage request.usage) (effectiveConsumption engine request))
  order : ∀ context terms, request.commerce = some context →
    objectAt request.mandate.extensions "commerce" = some terms →
    ("COMMERCE_CURRENCY_MISMATCH" ∈ reasons ↔
      ForeignOrder terms context (normalizedUsage request.usage))

theorem budgetCodes_of_checkConsumption {mandate : AgentMandate} {usage : Usage}
    {delta : EffectiveConsumption} {reasons next : Reasons} {total : String}
    (htotal : (mandate.limits.getD []).lookup "max_total" = some (.str total))
    (h : checkConsumption engine mandate usage delta reasons = .ok next)
    (hcurrency : "BUDGET_CURRENCY_MISMATCH" ∉ reasons) (hexceeded : "BUDGET_EXCEEDED" ∉ reasons) :
    ("BUDGET_CURRENCY_MISMATCH" ∈ next ↔
        ForeignBudget (mandate.limits.getD []) usage delta) ∧
      ("BUDGET_EXCEEDED" ∈ next ↔ OverBudget total usage delta) := by
  simp only [checkConsumption, bind_eq_ok] at h
  obtain ⟨quantity, -, hbudget⟩ := h
  obtain ⟨-, foreign, above, hforeign, hover, rfl⟩ := (checkBudget_eq_ok htotal).mp hbudget
  constructor
  · rw [Reasons.mem_addIf_of_ne (by decide), Reasons.mem_addIf_self, hforeign]
    simp only [Reasons.mem_addIf_of_ne, hcurrency, ne_eq, String.reduceEq, not_false_eq_true,
      or_false]
  · rw [Reasons.mem_addIf_self, hover]
    simp only [Reasons.mem_addIf_of_ne, hexceeded, ne_eq, String.reduceEq, not_false_eq_true,
      or_false]

theorem currencyCode_of_checkCommerce {mandate : AgentMandate} {envelope : TransactionEnvelope}
    {context : CommerceEvaluationContext} {terms : Record} {usage : Usage} {reasons next : Reasons}
    (hterms : objectAt mandate.extensions "commerce" = some terms)
    (h : checkCommerce engine mandate envelope (some context) usage reasons = .ok next)
    (hcurrency : "COMMERCE_CURRENCY_MISMATCH" ∉ reasons) :
    "COMMERCE_CURRENCY_MISMATCH" ∈ next ↔ ForeignOrder terms context usage := by
  simp only [checkCommerce, hterms, bind_eq_ok, pure_eq_ok] at h
  obtain ⟨_, -, _, -, _, -, _, -, _, -, _, -, rfl⟩ := h
  simp only [Reasons.mem_addIf_of_ne, Reasons.mem_addUnlessSome_of_ne, Reasons.mem_addIf_self, ne_eq,
    String.reduceEq, not_false_eq_true, hcurrency, or_false]
  exact foreignOrder_iff

theorem textCodes_of_ok {request : EvaluationRequest} {reasons : Reasons}
    (h : checkAuthority engine request = .ok reasons) : TextCodes engine request reasons := by
  simp only [checkAuthority, bind_eq_ok] at h
  obtain ⟨now, -, first, hfirst, limited, hlimited, priced, hpriced, hlast⟩ := h
  have hfresh : ∀ code ∉ mandateCodes, code ≠ "CONSUMPTION_CONTEXT_MISMATCH" →
      code ∉ checkConsumptionContext request (effectiveConsumption engine request) first := by
    intro code hcode hne
    rw [mem_checkConsumptionContext hne]
    exact notMem_checkMandate hfirst hcode
  constructor
  · obtain ⟨flag, hflag, hadds⟩ := exists_contextFlag request (effectiveConsumption engine request)
    rw [mem_checkRwaTerms hlast (by decide), mem_checkCommerceTerms hpriced (by decide),
      mem_checkConsumption hlimited (by decide), hadds, Reasons.mem_addIf_self, ← hflag,
      Bool.not_eq_false]
    exact or_iff_left (notMem_checkMandate hfirst (by decide))
  · intro total htotal
    rw [mem_checkRwaTerms hlast (by decide), mem_checkCommerceTerms hpriced (by decide)]
    exact (budgetCodes_of_checkConsumption htotal hlimited (hfresh _ (by decide) (by decide))
      (hfresh _ (by decide) (by decide))).1
  · intro total htotal
    rw [mem_checkRwaTerms hlast (by decide), mem_checkCommerceTerms hpriced (by decide)]
    exact (budgetCodes_of_checkConsumption htotal hlimited (hfresh _ (by decide) (by decide))
      (hfresh _ (by decide) (by decide))).2
  · intro context terms hcontext hterms
    have hneeds : needsCommerce request = true := by rw [needsCommerce, hcontext]; rfl
    rw [checkCommerceTerms, if_pos hneeds, hcontext] at hpriced
    rw [mem_checkRwaTerms hlast (by decide)]
    refine currencyCode_of_checkCommerce hterms hpriced ?_
    rw [mem_checkConsumption hlimited (by decide)]
    exact hfresh _ (by decide) (by decide)

/-! ### The evaluation -/

section Evaluation

variable {request : EvaluationRequest} {spelling : Respelling}

theorem sameUsage_respell (h : Respelled request spelling) :
    SameUsage (normalizedUsage request.usage)
      (normalizedUsage (request.respell spelling).usage) where
  calls := rfl
  amount := h.amount.sameDecimal
  currency := rfl
  quantity := h.quantity.sameDecimal
  consumed := rfl
  idempotencyKeys := rfl
  mintedSupply := h.mintedSupply.sameDecimal

/-- Only the amount of the update may be spelled in another way. -/
theorem exists_respelledAmount (engine : Engine) (h : Respelled request spelling) :
    ∃ amount, effectiveConsumption engine (request.respell spelling)
        = { effectiveConsumption engine request with amount := amount } ∧
      Spells (effectiveConsumption engine request).amount amount := by
  cases hconsumption : request.consumption with
  | none =>
    refine ⟨(effectiveConsumption engine request).amount, ?_, .inl rfl⟩
    simp only [effectiveConsumption, EvaluationRequest.respell, hconsumption, Option.map_none]
  | some c =>
    have hsame := (h.consumption c hconsumption).sameDecimal
    cases hcommerce : request.commerce with
    | none =>
      refine ⟨spelling.consumption.getD "0", ?_, .inr ?_⟩
      · simp only [effectiveConsumption, EvaluationRequest.respell, hconsumption, hcommerce,
          Option.map_some, Option.getD_some]
      · simpa only [effectiveConsumption, hconsumption, hcommerce, Option.getD_some] using hsame
    | some context =>
      refine ⟨(effectiveConsumption engine request).amount, ?_, .inl rfl⟩
      simp only [effectiveConsumption, EvaluationRequest.respell, hconsumption, hcommerce,
        Option.map_some, Option.getD_some]

/-- The checks of both spellings find the same reasons, if the rules that compare text do. -/
theorem checkAuthority_respell (h : Respelled request spelling)
    (halike : SpelledAlike engine request (request.respell spelling)) {reasons : Reasons}
    (hreasons : checkAuthority engine request = .ok reasons) :
    checkAuthority engine (request.respell spelling) = .ok reasons := by
  have husage := sameUsage_respell h
  obtain ⟨amount, hdelta, hamount⟩ := exists_respelledAmount engine h
  simp only [checkAuthority, bind_eq_ok] at hreasons ⊢
  obtain ⟨now, htime, first, hfirst, limited, hlimited, priced, hpriced, hlast⟩ := hreasons
  refine ⟨now, htime, first, hfirst, limited, ?_, priced, ?_, ?_⟩
  · obtain ⟨flag, hflag, hadds⟩ := exists_contextFlag request (effectiveConsumption engine request)
    obtain ⟨flag', hflag', hadds'⟩ := exists_contextFlag (request.respell spelling)
      (effectiveConsumption engine (request.respell spelling))
    have hsame : flag' = flag := by
      have hiff : flag' = false ↔ flag = false := hflag'.trans (halike.context.symm.trans hflag.symm)
      cases flag <;> cases flag' <;> simp_all
    rw [hadds']
    rw [hadds] at hlimited
    rw [hsame, hdelta]
    have hcurrency := halike.currency
    have htotal := halike.total
    rw [hdelta] at hcurrency htotal
    exact checkConsumption_congr husage hamount hcurrency htotal hlimited
  · have hneeds : needsCommerce (request.respell spelling) = needsCommerce request := rfl
    rw [checkCommerceTerms] at hpriced ⊢
    rw [hneeds, ← hpriced]
    exact if_congr Iff.rfl (checkCommerce_congr husage halike.order) rfl
  · have hneeds : needsRwa (request.respell spelling) = needsRwa request := rfl
    have htracked : (request.respell spelling).usage.mintedSupply.isSome
        = request.usage.mintedSupply.isSome := h.mintedSupply.isSome_eq.symm
    rw [checkRwaTerms] at hlast ⊢
    rw [hneeds, htracked, ← hlast]
    exact if_congr Iff.rfl (checkRwa_congr husage) rfl

/-- An update that exists exists in the other spelling. -/
theorem exists_nextUsage_respell (h : Respelled request spelling) {decision : Decision}
    {next : Usage} (hnext : nextUsage engine request decision = .ok next) :
    ∃ next', nextUsage engine (request.respell spelling) decision = .ok next' := by
  cases decision with
  | deny => exact ⟨_, rfl⟩
  | allow =>
    obtain ⟨amount, hdelta, hamount⟩ := exists_respelledAmount engine h
    obtain ⟨sum, text, quantity, minted, hsum, htext, hquantity, hminted, -⟩ :=
      applyConsumption_eq_ok.mp hnext
    obtain ⟨-, b, -, hb, -⟩ := addDecimal_denotes hsum
    obtain ⟨-, d, -, hd, -⟩ := addDecimal_denotes hquantity
    obtain ⟨p, -, hp⟩ := h.amount.sameDecimal
    obtain ⟨q, -, hq⟩ := h.quantity.sameDecimal
    obtain ⟨b', hb'⟩ : ∃ b', Denotes amount b' := by
      rcases hamount with heq | ⟨b', -, hb'⟩
      · exact ⟨b, heq ▸ hb⟩
      · exact ⟨b', hb'⟩
    obtain ⟨sum', hsum'⟩ := exists_addDecimal hp hb'
    obtain ⟨quantity', hquantity'⟩ := exists_addDecimal hq hd
    obtain ⟨minted', hminted'⟩ : ∃ minted', nextMintedSupply
        (normalizedUsage (request.respell spelling).usage) (request.respell spelling)
          = .ok minted' := by
      by_cases hrwa : truthy (request.respell spelling).rwa = true
      · have hrwa' : truthy request.rwa = true := hrwa
        rw [nextMintedSupply, if_pos hrwa'] at hminted
        rw [nextMintedSupply, if_pos hrwa]
        exact ⟨minted, hminted⟩
      · rw [nextMintedSupply, if_neg hrwa]
        exact ⟨_, rfl⟩
    rw [nextUsage, hdelta]
    exact ⟨_, applyConsumption_eq_ok.mpr
      ⟨sum', text, quantity', minted', hsum', htext, hquantity', hminted', rfl⟩⟩

/-- Two requests that differ in the spelling of decimals get the same decision for the same reasons
exactly if the rules that compare amounts as text come out alike. -/
theorem spelling_neutral_iff (h : Respelled request spelling) {result : EvaluationResult}
    (heval : evaluateAuthority engine request = .ok result) :
    (∃ result', evaluateAuthority engine (request.respell spelling) = .ok result' ∧
      result'.decision = result.decision ∧ result'.reasonCodes = result.reasonCodes) ↔
    SpelledAlike engine request (request.respell spelling) := by
  obtain ⟨reasons, next, hreasons, hnext, rfl⟩ := evaluateAuthority_eq_ok.mp heval
  constructor
  · rintro ⟨result', heval', -, hcodes⟩
    obtain ⟨reasons', next', hreasons', -, rfl⟩ := evaluateAuthority_eq_ok.mp heval'
    have hsorted : sortStrings reasons' = sortStrings reasons := hcodes
    have hmem : ∀ code, code ∈ reasons ↔ code ∈ reasons' := by
      intro code
      rw [← mem_sortStrings, ← @mem_sortStrings reasons', hsorted]
    have htext := textCodes_of_ok hreasons
    have htext' := textCodes_of_ok hreasons'
    constructor
    · exact not_iff_not.mp (htext.context.symm.trans ((hmem _).trans htext'.context))
    · intro total htotal
      exact (htext.currency total htotal).symm.trans ((hmem _).trans (htext'.currency total htotal))
    · intro total htotal
      exact (htext.total total htotal).symm.trans ((hmem _).trans (htext'.total total htotal))
    · intro context terms hcontext hterms
      exact (htext.order context terms hcontext hterms).symm.trans
        ((hmem _).trans (htext'.order context terms hcontext hterms))
  · intro halike
    obtain ⟨next', hnext'⟩ := exists_nextUsage_respell h hnext
    exact ⟨_, evaluateAuthority_eq_ok.mpr
      ⟨reasons, next', checkAuthority_respell h halike hreasons, hnext', rfl⟩, rfl, rfl⟩

end Evaluation

/-! ### An order on an empty budget -/

/-- The broker's order after nothing was spent. -/
def emptyBudgetOrder : EvaluationRequest :=
  { brokerOrder with
    envelope := { brokerOrder.envelope with id := "oati:tx:1", organisationId := "oati:org:desk" }
    usage := { amount := some "0", quantity := some "2.5" } }

/-- The nothing and the quantity with more digits. -/
def longer (amount quantity : String) : Respelling :=
  { amount := some amount, quantity := some quantity, mintedSupply := none, consumption := none }

theorem denotes_halves : Denotes "2.5" (5 / 2) ∧ Denotes "2.50" (5 / 2) :=
  ⟨⟨⟨25, 1⟩, by decide, by norm_num [Numeral.FixedPoint.value]⟩,
    ⟨⟨250, 2⟩, by decide, by norm_num [Numeral.FixedPoint.value]⟩⟩

/-- The answer to it. -/
def emptyBudgetResult (quantity : String) : EvaluationResult :=
  { orderResult with
    transactionId := "oati:tx:1"
    nextUsage := { orderResult.nextUsage with quantity := some quantity } }

theorem evaluate_emptyBudgetOrder :
    evaluateAuthority plainEngine emptyBudgetOrder = .ok (emptyBudgetResult "6.5") := by
  decide

/-- A quantity with another digit makes no difference. -/
theorem spelling_neutral_quantity :
    SpelledAlike plainEngine emptyBudgetOrder (emptyBudgetOrder.respell (longer "0" "2.50")) := by
  have hrespelled : Respelled emptyBudgetOrder (longer "0" "2.50") :=
    ⟨.inr ⟨_, _, rfl, rfl, 0, denotes_zero, denotes_zero⟩,
      .inr ⟨_, _, rfl, rfl, 5 / 2, denotes_halves.1, denotes_halves.2⟩, .inl ⟨rfl, rfl⟩,
      fun _ h => (by cases h)⟩
  have heval : evaluateAuthority plainEngine (emptyBudgetOrder.respell (longer "0" "2.50"))
      = .ok (emptyBudgetResult "6.50") := by decide +kernel
  exact (spelling_neutral_iff hrespelled evaluate_emptyBudgetOrder).mp ⟨_, heval, rfl, rfl⟩

/-- Nothing spelled with a fraction is an amount in no currency. -/
theorem spelling_denied_zero : Respelled emptyBudgetOrder (longer "0.00" "2.5") ∧
    evaluateAuthority plainEngine emptyBudgetOrder = .ok (emptyBudgetResult "6.5") ∧
    (emptyBudgetResult "6.5").decision = .allow ∧
    ∃ result, evaluateAuthority plainEngine (emptyBudgetOrder.respell (longer "0.00" "2.5"))
        = .ok result ∧
      result.decision = .deny ∧ result.reasonCodes = ["COMMERCE_CURRENCY_MISMATCH"] := by
  have hzero : Denotes "0.00" 0 := ⟨⟨0, 2⟩, by decide, by norm_num [Numeral.FixedPoint.value]⟩
  let denied : EvaluationResult :=
    { decision := .deny, mandateId := "oati:mandate:broker", transactionId := "oati:tx:1"
      reasonCodes := ["COMMERCE_CURRENCY_MISMATCH"]
      nextUsage :=
        { calls := some 0, amount := some "0.00", currency := some "", quantity := some "2.5"
          consumed := some false, idempotencyKeys := some [], mintedSupply := some "0" } }
  have heval : evaluateAuthority plainEngine (emptyBudgetOrder.respell (longer "0.00" "2.5"))
      = .ok denied := by decide +kernel
  refine ⟨⟨.inr ⟨_, _, rfl, rfl, 0, denotes_zero, hzero⟩,
    .inr ⟨_, _, rfl, rfl, 5 / 2, denotes_halves.1, denotes_halves.1⟩, .inl ⟨rfl, rfl⟩,
    fun _ h => (by cases h)⟩, evaluate_emptyBudgetOrder, rfl, denied, heval, rfl, rfl⟩

end Oati.TypeScript

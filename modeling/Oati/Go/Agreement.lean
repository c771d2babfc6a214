import Oati.Go.Checks

/-!
# The evaluators of the Go SDK and of the TypeScript SDK agree

On a request of the domain the two evaluators differ in one point only: a bound of the parent that
is named `__proto__` is found on every child by TypeScript, and in Go only on a child that has it.

* `checkChildMandate_follows`: the check of a child, when it has the bounds TypeScript accepts.
* `checkChildMandate_refuses`: Go gives a code of its own when it lacks one.
* `evaluators_agree_iff`: the results are the same exactly if no bound that TypeScript accepts is
  missing from the child.
-/

namespace Oati.Go

open Except (ok_bind)
open JsonText (Literal)
open TypeScript (Engine Reasons EvaluationRequest EvaluationResult AgentMandate isDecimal strictEq)

variable {engine : Engine} {runtime : Runtime}

/-! ### Delegation -/

theorem orThrow_ok (a b : Bool) :
    TypeScript.orThrow (.ok a) (.ok b) = .ok (a || b) := by
  cases a <;> rfl

theorem orElse_ok (a b : Bool) : orElse (.ok a) (.ok b) = .ok (a || b) := by
  cases a <;> rfl

/-- A decimal of the terms is widened in both programs, or in neither. -/
theorem decimalWidened_eq {c p : Object} {key : String} (hc : IsDecimalText (c.lookup key))
    (hp : IsDecimalText (p.lookup key)) :
    ∃ b, (Bool.not <$> TypeScript.decimalAtMost ((toRecord engine c).lookup key)
        ((toRecord engine p).lookup key)) = .ok b ∧
      Program.sdk.decimalWidened runtime (c.lookup key) (p.lookup key) = .ok b := by
  obtain ⟨s, hs, hsdecimal⟩ := hc
  obtain ⟨t, ht, htdecimal⟩ := hp
  obtain ⟨d, hd⟩ := exists_compareDecimal hsdecimal htdecimal
  have hexceeds := exceeds_of_compareDecimal hd
  refine ⟨decide (d > 0), ?_, ?_⟩
  · simp only [lookup_toRecord, hs, ht, Option.map_some, toTypeScript_str,
      TypeScript.decimalAtMost, hd, bind, Except.bind, pure, Except.pure, Functor.map, Except.map]
    rw [← decide_not, Except.ok.injEq, decide_eq_decide, not_le]
  · simp only [Program.decimalWidened, hs, ht, str_str, hexceeds]

/-- An integer of the terms is above the parent's, or not, in both programs. -/
theorem integer_of_terms (hengine : ReadsIntegers engine) {c : Object} (hc : Ordinary (.obj c))
    {key : String} {v : Value} {k : ℤ} (hv : c.lookup key = some v) (hk : IsInteger v k)
    (default : ℤ) : (toRecord engine c).lookup key = some (.num (k : ℚ)) ∧
      Program.sdk.integer (c.lookup key) default = k := by
  rw [lookup_toRecord, hv, Option.map_some, hk.toTypeScript hengine (hc.lookup hv)]
  exact ⟨rfl, hk.integer (hc.lookup hv)⟩

/-- The Commerce terms of a child are compared alike. -/
theorem commerceWidened_eq (hengine : ReadsIntegers engine) {c p : Option Object}
    (hc : ∀ t, c = some t → CommerceTerms t ∧ Ordinary (.obj t))
    (hp : ∀ t, p = some t → CommerceTerms t ∧ Ordinary (.obj t)) {widened : Bool}
    (h : TypeScript.commerceWidened (c.map (toRecord engine)) (p.map (toRecord engine))
      = .ok widened) : commerceWidened runtime .sdk c p = .ok widened := by
  cases p with
  | none => simpa [TypeScript.commerceWidened, commerceWidened] using h
  | some p =>
    cases c with
    | none => simpa [TypeScript.commerceWidened, commerceWidened] using h
    | some c =>
      obtain ⟨hct, hco⟩ := hc c rfl
      obtain ⟨hpt, hpo⟩ := hp p rfl
      obtain ⟨price, hprice, hprice'⟩ :=
        @decimalWidened_eq engine runtime _ _ _ hct.maxUnitPrice hpt.maxUnitPrice
      obtain ⟨total, htotal, htotal'⟩ :=
        @decimalWidened_eq engine runtime _ _ _ hct.maxTotal hpt.maxTotal
      obtain ⟨v, k, hv, hk⟩ := hct.maxQuantity
      obtain ⟨w, l, hw, hl⟩ := hpt.maxQuantity
      obtain ⟨hck, hck'⟩ := integer_of_terms hengine hco hv hk (-1)
      obtain ⟨hpl, hpl'⟩ := integer_of_terms hengine hpo hw hl (-1)
      have hsame := @sameFields_eq engine _ _ hco hpo _ hct.isText hpt.isText
      have hquantity : (!TypeScript.numberAtMost (some (.num ((k : ℤ) : ℚ)))
          (some (.num ((l : ℤ) : ℚ)))) = decide ((k : ℤ) > l) := by
        simp only [TypeScript.numberAtMost]
        rw [← decide_not, decide_eq_decide, not_le]
        exact_mod_cast Iff.rfl
      simp only [TypeScript.commerceWidened, Option.map_some, hprice, htotal, hck, hpl, hquantity,
        orThrow_ok] at h
      simp only [commerceWidened, hprice', htotal', hck', hpl', orElse_ok, hsame]
      simpa using h

/-- The RWA terms of a child are compared alike. -/
theorem rwaWidened_eq (hengine : ReadsIntegers engine) {c p : Option Object}
    (hc : ∀ t, c = some t → RwaTerms t ∧ Ordinary (.obj t))
    (hp : ∀ t, p = some t → RwaTerms t ∧ Ordinary (.obj t)) {widened : Bool}
    (h : TypeScript.rwaWidened (c.map (toRecord engine)) (p.map (toRecord engine))
      = .ok widened) : rwaWidened runtime .sdk c p = .ok widened := by
  cases p with
  | none => simpa [TypeScript.rwaWidened, rwaWidened] using h
  | some p =>
    cases c with
    | none => simpa [TypeScript.rwaWidened, rwaWidened] using h
    | some c =>
      obtain ⟨hct, hco⟩ := hc c rfl
      obtain ⟨hpt, hpo⟩ := hp p rfl
      obtain ⟨quantity, hquantity, hquantity'⟩ :=
        @decimalWidened_eq engine runtime _ _ _ hct.maxQuantity hpt.maxQuantity
      obtain ⟨v, k, hv, hk⟩ := hct.minimumApprovals
      obtain ⟨w, l, hw, hl⟩ := hpt.minimumApprovals
      obtain ⟨hck, hck'⟩ := integer_of_terms hengine hco hv hk (-1)
      obtain ⟨hpl, hpl'⟩ := integer_of_terms hengine hpo hw hl (-1)
      obtain ⟨conce, hconce⟩ := hct.oneTime
      obtain ⟨ponce, hponce⟩ := hpt.oneTime
      have hsame := @sameFields_eq engine _ _ hco hpo _ hct.isText hpt.isText
      have happrovals : (!TypeScript.numberAtLeast (some (.num (k : ℚ))) (some (.num (l : ℚ))))
          = decide (k < l) := by
        simp only [TypeScript.numberAtLeast]
        rw [← decide_not, decide_eq_decide, not_le]
        exact_mod_cast Iff.rfl
      have honce : ∀ b : Bool, strictEq (some (.bool b)) (some (.bool true)) = b := by decide
      have hroles := @stringArray_toTypeScript engine
      have hsubset : TypeScript.subset (stringsFrom (p.lookup "required_roles"))
          (stringsFrom (c.lookup "required_roles"))
            = subset (stringsFrom (p.lookup "required_roles"))
              (stringsFrom (c.lookup "required_roles")) := rfl
      have hconce' : (toRecord engine c).lookup "one_time" = some (.bool conce) := by
        rw [lookup_toRecord, hconce, Option.map_some, toTypeScript_bool]
      have hponce' : (toRecord engine p).lookup "one_time" = some (.bool ponce) := by
        rw [lookup_toRecord, hponce, Option.map_some, toTypeScript_bool]
      have hcroles : TypeScript.stringArray ((toRecord engine c).lookup "required_roles")
          = stringsFrom (c.lookup "required_roles") := by rw [lookup_toRecord, hroles]
      have hproles : TypeScript.stringArray ((toRecord engine p).lookup "required_roles")
          = stringsFrom (p.lookup "required_roles") := by rw [lookup_toRecord, hroles]
      simp only [TypeScript.rwaWidened, Option.map_some, hquantity, hck, hpl, happrovals,
        hconce', hponce', hcroles, hproles, honce, hsubset, orThrow_ok] at h
      simp only [rwaWidened, hquantity', hck', hpl', hconce, hponce, orElse_ok, hsame, boolean]
      exact congrArg Except.ok (Except.ok.inj h)

/-- The terms of the profiles are compared alike. -/
theorem checkProfileSubset_follows (hengine : ReadsIntegers engine) {c p : Object}
    {tc tp : AgentMandate} (hchild : IsMandate engine c tc) (hc : Ordinary (.obj c))
    (hct : TypedMandate c) (hparent : IsMandate engine p tp) (hp : Ordinary (.obj p))
    (hpt : TypedMandate p) {reasons next : Reasons}
    (h : TypeScript.checkProfileSubset tc tp reasons = .ok next) :
    Follows (checkProfileSubset runtime .sdk c p) reasons next := by
  have hdiffers : (str (c.lookup "profile") != str (p.lookup "profile"))
      = (tc.profile != tp.profile) := by
    rw [hchild.profile, hparent.profile, str_map, str_map]
    exact getD_bne_getD (hc.lookup_map hchild.profile) (hp.lookup_map hparent.profile)
  have hiff : str (c.lookup "profile") ≠ str (p.lookup "profile") ↔ tc.profile ≠ tp.profile := by
    rw [← bne_iff_ne, hdiffers, bne_iff_ne]
  have hsome : ∀ s : Option String, (s.getD "" != "") = s.any (· != "") := by
    intro s
    cases s <;> rfl
  unfold TypeScript.checkProfileSubset at h
  by_cases hprofile : tc.profile ≠ tp.profile
  · rw [if_pos hprofile, TypeScript.pure_eq_ok] at h
    apply Follows.intro
    · intro rs
      rw [checkProfileSubset, if_pos (hiff.mpr hprofile), hchild.profile, hparent.profile,
        str_map, str_map, hsome, hsome]
    · exact h
    · exact fun rs code hcode => Reasons.mem_addIf_of_mem hcode
  · rw [if_neg hprofile] at h
    simp only [TypeScript.bind_eq_ok, TypeScript.pure_eq_ok, objectAt_eq hchild.extensions,
      objectAt_eq hparent.extensions] at h
    obtain ⟨commerce, hcommerce, rwa, hrwa, rfl⟩ := h
    have hcommerce' := @commerceWidened_eq engine runtime hengine _ _
      (fun t ht => ⟨hct.commerce t ht, hc.terms ht⟩)
      (fun t ht => ⟨hpt.commerce t ht, hp.terms ht⟩) _ hcommerce
    have hrwa' := @rwaWidened_eq engine runtime hengine _ _
      (fun t ht => ⟨hct.rwa t ht, hc.terms ht⟩)
      (fun t ht => ⟨hpt.rwa t ht, hp.terms ht⟩) _ hrwa
    apply Follows.intro
    · intro rs
      rw [checkProfileSubset, if_neg (mt hiff.mp hprofile), hcommerce', ok_bind, hrwa', ok_bind]
      rfl
    · rfl
    · exact fun rs code hcode => Reasons.mem_addIf_of_mem (Reasons.mem_addIf_of_mem hcode)

/-- A delegation is read alike. -/
theorem delegation_cases {m : Object} {t : AgentMandate} (hmandate : IsMandate engine m t)
    (hm : Ordinary (.obj m)) :
    object (m.lookup "delegation") = none ∧ t.delegation = none ∨
      ∃ d td, object (m.lookup "delegation") = some d ∧ t.delegation = some td ∧
        boolean (d.lookup "allowed") = td.allowed ∧ maxDepth .sdk (some d) = td.maxDepth ∧
        td.maxDepth.natAbs ≤ 2 ^ 52 := by
  rcases object_cases hmandate.delegation with hnone | ⟨d, td, hd, ht, hdelegation⟩
  · exact .inl hnone
  · obtain ⟨v, hv, hk⟩ := hdelegation.maxDepth
    have hordinary := (hm.object hd).lookup hv
    refine .inr ⟨d, td, hd, ht, ?_, ?_, hk.natAbs_le hordinary⟩
    · rw [hdelegation.allowed]
      rfl
    · rw [maxDepth, index_some, hv]
      exact hk.integer hordinary

/-- What remains of a delegation is compared alike. -/
theorem delegationWidened_eq {c p : Object} {tc tp : AgentMandate}
    (hchild : IsMandate engine c tc) (hc : Ordinary (.obj c)) (hparent : IsMandate engine p tp)
    (hp : Ordinary (.obj p)) {depth : ℤ} (hdepth : depth.natAbs ≤ 2 ^ 52) {widened : Bool}
    (h : TypeScript.delegationWidened tc.delegation tp.delegation depth = .ok widened) :
    delegationWidened .sdk (object (c.lookup "delegation")) (object (p.lookup "delegation")) depth
      = widened := by
  unfold TypeScript.delegationWidened at h
  rcases delegation_cases hchild hc with ⟨hnone, ht⟩ | ⟨d, td, hd, ht, hallowed, hmax, -⟩
  · rw [ht] at h
    rw [hnone]
    exact Except.ok.inj h
  · rw [ht] at h
    rw [hd]
    by_cases hpasses : td.allowed = true
    · simp only [hpasses, if_true] at h
      rcases delegation_cases hparent hp with ⟨-, hpt⟩ | ⟨pd, tpd, hpd, hpt, -, hpmax, hple⟩
      · -- TypeScript throws without a delegation of the parent
        rw [hpt] at h
        cases h
      · rw [hpt] at h
        have hround : Double.roundInt (tpd.maxDepth - depth) = tpd.maxDepth - depth :=
          Double.roundInt_of_natAbs_le (by simp only [Double.exactBound]; omega)
        have hwrap : wrap (tpd.maxDepth - depth) = tpd.maxDepth - depth :=
          wrap_of_natAbs_le (by omega)
        rw [hpd, delegationWidened, index_some, hallowed, hpasses, hmax, hpmax, hwrap,
          Bool.true_and, ← hround]
        exact Except.ok.inj h
    · rw [delegationWidened, index_some, hallowed, Bool.eq_false_iff.mpr hpasses, Bool.false_and]
      simpa [hpasses] using h

/-- The bounds that TypeScript accepts are all members of the child. -/
def Bounded (child parent : Option TypeScript.Record) : Prop :=
  TypeScript.narrowerObject child parent = true → ownsBounds child parent = true

/-- Bounds of the same types are compared alike, up to members that the child lacks. -/
theorem narrow_eq (hengine : ReadsIntegers engine) {c p : Object} (hc : Ordinary (.obj c))
    (hp : Ordinary (.obj p)) {key : String} {tc tp : Option TypeScript.Record}
    (hchild : IsRecord engine (c.lookup key) tc) (hparent : IsRecord engine (p.lookup key) tp)
    (halike : ∀ a b, object (c.lookup key) = some a → object (p.lookup key) = some b →
      AlikeMembers a b) :
    narrowWith (Program.sdk.comparison runtime) (object (c.lookup key)) (object (p.lookup key))
      = .ok (TypeScript.narrowerObject tc tp && ownsBounds tc tp) := by
  rw [hchild.eq_map, hparent.eq_map]
  cases hb : object (p.lookup key) with
  | none => simp [narrowWith, TypeScript.narrowerObject, ownsBounds]
  | some b =>
    cases ha : object (c.lookup key) with
    | none => simp [narrowWith, TypeScript.narrowerObject, ownsBounds]
    | some a =>
      have hentry := @narrowEntry_eq engine hengine (.obj a) (.obj b) ⟨a, rfl, halike a b ha hb⟩
        (hc.object ha) (hp.object hb)
      simpa [narrowEntry, toTypeScript_obj, TypeScript.narrowerValue, owns, narrowWith,
        TypeScript.narrowerObject, ownsBounds, Program.comparison] using hentry

theorem onTime_eq {s : String} {x : ℤ} (h : parseTime runtime s = some x) (condition : ℤ → Bool) :
    Program.sdk.onTime runtime s condition = condition x := by
  rw [Program.onTime, h]
  rfl

/-- A set of the child is compared alike. -/
theorem checkChildSet_eq {c p : Object} {field code : String} {a b : Option (List String)}
    (hc : c.lookup field = a.map texts) (hp : p.lookup field = b.map texts) (reasons : Reasons) :
    checkChildSet c p field code reasons
      = reasons.addIf (!TypeScript.constrainedSubset a b) code := by
  rw [checkChildSet, hc, hp, stringsFrom_map, stringsFrom_map]
  cases b with
  | none => rfl
  | some b => cases a <;> rfl

theorem statusText_bne (status : TypeScript.MandateStatus) :
    (statusText status != "active") = (status != .active) := by
  cases status <;> decide

/-- The reasons of a child, from what was found of its parent, its times and its bounds. -/
def childReasons (child parent : AgentMandate)
    (inactive disallowed longer limits dataUse deeper : Bool) (reasons : Reasons) : Reasons :=
  let reasons := reasons.addIf (child.parentMandate != some parent.id) "PARENT_MANDATE_MISMATCH"
  let reasons := reasons.addIf inactive "PARENT_MANDATE_NOT_ACTIVE"
  let reasons := reasons.addIf disallowed "DELEGATION_NOT_ALLOWED"
  let reasons := reasons.addIf (!TypeScript.subset child.actions parent.actions)
    "CHILD_ACTION_AMPLIFICATION"
  let reasons := reasons.addIf (!TypeScript.constrainedSubset child.resources parent.resources)
    "CHILD_RESOURCE_AMPLIFICATION"
  let reasons := reasons.addIf
    (!TypeScript.constrainedSubset child.counterparties parent.counterparties)
    "CHILD_COUNTERPARTY_AMPLIFICATION"
  let reasons := reasons.addIf
    (!TypeScript.constrainedSubset child.destinations parent.destinations)
    "CHILD_DESTINATION_AMPLIFICATION"
  let reasons := reasons.addIf (child.purpose != parent.purpose) "CHILD_PURPOSE_AMPLIFICATION"
  let reasons := reasons.addIf longer "CHILD_TIME_AMPLIFICATION"
  let reasons := reasons.addIf limits "CHILD_LIMIT_AMPLIFICATION"
  let reasons := reasons.addIf dataUse "CHILD_DATA_USE_AMPLIFICATION"
  reasons.addIf deeper "CHILD_DELEGATION_AMPLIFICATION"

section ChildReasons

variable {child parent : AgentMandate} {inactive disallowed longer limits dataUse deeper : Bool}
  {reasons : Reasons} {code : String}

theorem mem_childReasons_of_mem (hcode : code ∈ reasons) :
    code ∈ childReasons child parent inactive disallowed longer limits dataUse deeper reasons := by
  unfold childReasons
  repeat apply Reasons.mem_addIf_of_mem
  exact hcode

theorem limits_mem_childReasons : "CHILD_LIMIT_AMPLIFICATION" ∈
    childReasons child parent inactive disallowed longer limits dataUse deeper reasons
      ↔ limits = true ∨ "CHILD_LIMIT_AMPLIFICATION" ∈ reasons := by
  unfold childReasons
  simp (disch := decide) only [Reasons.mem_addIf_of_ne]
  rw [Reasons.mem_addIf_self]
  simp (disch := decide) only [Reasons.mem_addIf_of_ne]

theorem dataUse_mem_childReasons : "CHILD_DATA_USE_AMPLIFICATION" ∈
    childReasons child parent inactive disallowed longer limits dataUse deeper reasons
      ↔ dataUse = true ∨ "CHILD_DATA_USE_AMPLIFICATION" ∈ reasons := by
  unfold childReasons
  simp (disch := decide) only [Reasons.mem_addIf_of_ne]
  rw [Reasons.mem_addIf_self]
  simp (disch := decide) only [Reasons.mem_addIf_of_ne]

end ChildReasons

/-- A child and its parent, as both programs read them. -/
structure IsPair (engine : Engine) (c p : Object) (tc tp : AgentMandate) : Prop where
  child : IsMandate engine c tc
  ordinary : Ordinary (.obj c)
  typed : TypedMandate c
  parent : IsMandate engine p tp
  parentOrdinary : Ordinary (.obj p)
  parentTyped : TypedMandate p
  bounds : ∀ key ∈ ["limits", "data_use"], ∀ a b, object (c.lookup key) = some a →
    object (p.lookup key) = some b → AlikeMembers a b

/-- What both programs compute for a child: they find the same of its parent and of its times, and
the Go program also asks for the members of the bounds. -/
theorem checkChildMandate_eq (hengine : ReadsIntegers engine) {c p : Object} {tc tp : AgentMandate}
    (hpair : IsPair engine c p tc tp) {depth : ℤ} (hdepth : depth.natAbs ≤ 2 ^ 52) {now : ℤ}
    {reasons next : Reasons}
    (h : TypeScript.checkChildMandate engine tc tp depth (1000 * now) reasons = .ok next) :
    ∃ inactive disallowed longer deeper,
      TypeScript.checkProfileSubset tc tp (childReasons tc tp inactive disallowed longer
        (!TypeScript.narrowerObject tc.limits tp.limits)
        (!TypeScript.narrowerObject tc.dataUse tp.dataUse) deeper reasons) = .ok next ∧
      ∀ rs, checkChildMandate runtime .sdk c p depth (1000000000 * now) rs
        = checkProfileSubset runtime .sdk c p (childReasons tc tp inactive disallowed longer
          (!(TypeScript.narrowerObject tc.limits tp.limits && ownsBounds tc.limits tp.limits))
          (!(TypeScript.narrowerObject tc.dataUse tp.dataUse && ownsBounds tc.dataUse tp.dataUse))
          deeper rs) := by
  -- the times of both mandates
  have hnotBefore := hpair.typed.notBefore
  have hexpiresAt := hpair.typed.expiresAt
  have hparentNotBefore := hpair.parentTyped.notBefore
  have hparentExpiresAt := hpair.parentTyped.expiresAt
  rw [hpair.child.notBefore, str_str] at hnotBefore
  rw [hpair.child.expiresAt, str_str] at hexpiresAt
  rw [hpair.parent.notBefore, str_str] at hparentNotBefore
  rw [hpair.parent.expiresAt, str_str] at hparentExpiresAt
  obtain ⟨start, hstart, hstart'⟩ := hnotBefore.reads engine runtime
  obtain ⟨stop, hstop, hstop'⟩ := hexpiresAt.reads engine runtime
  obtain ⟨parentStart, hpstart, hpstart'⟩ := hparentNotBefore.reads engine runtime
  obtain ⟨parentStop, hpstop, hpstop'⟩ := hparentExpiresAt.reads engine runtime
  simp only [TypeScript.checkChildMandate, hstart, hstop, hpstart, hpstop, ok_bind, pure,
    Except.pure, orThrow_ok, TypeScript.bind_eq_ok] at h
  obtain ⟨deeper, hdeeper, hprofile⟩ := h
  refine ⟨_, _, _, deeper, hprofile, fun rs => ?_⟩
  have hlimits := @narrow_eq engine runtime hengine _ _ hpair.ordinary hpair.parentOrdinary _ _ _ hpair.child.limits hpair.parent.limits
    (hpair.bounds "limits" (by simp))
  have hdataUse := @narrow_eq engine runtime hengine _ _ hpair.ordinary hpair.parentOrdinary _ _ _ hpair.child.dataUse
    hpair.parent.dataUse (hpair.bounds "data_use" (by simp))
  have hwidened := delegationWidened_eq hpair.child hpair.ordinary hpair.parent hpair.parentOrdinary hdepth hdeeper
  have hid : (tc.parentMandate.getD "" != tp.id) = (tc.parentMandate != some tp.id) :=
    getD_bne (hpair.parentOrdinary.lookup_str hpair.parent.id).nonempty
  have hdisallowed : delegationDisallowed .sdk (object (p.lookup "delegation")) depth
      = (tp.delegation.elim true fun d => !d.allowed || decide (depth > d.maxDepth)) := by
    rcases delegation_cases hpair.parent hpair.parentOrdinary with ⟨hnone, ht⟩ | ⟨d, td, hd, ht, hallowed, hmax, -⟩
    · rw [hnone, ht]
      rfl
    · rw [hd, ht, delegationDisallowed, index_some, hallowed, hmax]
      rfl
  have htimes : (decide (1000000000 * start < 1000000000 * parentStart)
        || decide (1000000000 * stop > 1000000000 * parentStop))
      = (decide (1000 * start < 1000 * parentStart) || decide (1000 * stop > 1000 * parentStop)) := by
    congr 1 <;> rw [decide_eq_decide] <;> omega
  have hinactive : (decide (1000000000 * parentStart > 1000000000 * now)
        || !decide (1000000000 * parentStop > 1000000000 * now))
      = (decide (1000 * parentStart > 1000 * now) || decide (1000 * parentStop ≤ 1000 * now)) := by
    rw [← decide_not]
    congr 1 <;> rw [decide_eq_decide] <;> omega
  simp only [checkChildMandate, hpair.child.parentMandate, hpair.parent.id, hpair.parent.status,
    hpair.parent.notBefore, hpair.parent.expiresAt, hpair.child.notBefore, hpair.child.expiresAt, hpair.child.actions,
    hpair.parent.actions, hpair.child.purpose, hpair.parent.purpose, str_str, str_map, stringsFrom_texts,
    onTime_eq hstart', onTime_eq hstop', onTime_eq hpstart', onTime_eq hpstop', hid,
    statusText_bne, Bool.or_assoc, hinactive, hdisallowed, htimes, hlimits, hdataUse, ok_bind,
    hwidened, checkChildSet_eq hpair.child.resources hpair.parent.resources,
    checkChildSet_eq hpair.child.counterparties hpair.parent.counterparties,
    checkChildSet_eq hpair.child.destinations hpair.parent.destinations]
  cases tp.delegation <;> rfl

/-- With a bounded child the comparison asks for no more. -/
theorem Bounded.eq {child parent : Option TypeScript.Record} (h : Bounded child parent) :
    (TypeScript.narrowerObject child parent && ownsBounds child parent)
      = TypeScript.narrowerObject child parent := by
  cases hnarrower : TypeScript.narrowerObject child parent with
  | false => rfl
  | true => rw [h hnarrower, Bool.and_true]

/-- Without it only TypeScript accepts the bounds. -/
theorem not_bounded {child parent : Option TypeScript.Record} (h : ¬ Bounded child parent) :
    TypeScript.narrowerObject child parent = true ∧ ownsBounds child parent = false := by
  obtain ⟨hnarrower, howns⟩ := Classical.not_imp.mp h
  exact ⟨hnarrower, Bool.eq_false_iff.mpr howns⟩

/-- A child that has the bounds TypeScript accepts is checked alike. -/
theorem checkChildMandate_follows (hengine : ReadsIntegers engine) {c p : Object}
    {tc tp : AgentMandate} (hpair : IsPair engine c p tc tp) {depth : ℤ}
    (hdepth : depth.natAbs ≤ 2 ^ 52) {now : ℤ} {reasons next : Reasons}
    (hlimits : Bounded tc.limits tp.limits) (hdataUse : Bounded tc.dataUse tp.dataUse)
    (h : TypeScript.checkChildMandate engine tc tp depth (1000 * now) reasons = .ok next) :
    Follows (checkChildMandate runtime .sdk c p depth (1000000000 * now)) reasons next := by
  obtain ⟨inactive, disallowed, longer, deeper, hprofile, hgo⟩ :=
    @checkChildMandate_eq engine runtime hengine _ _ _ _ hpair _ hdepth _ _ _ h
  rw [hlimits.eq, hdataUse.eq] at hgo
  obtain ⟨adds, hadds, hnext, hkept⟩ := @checkProfileSubset_follows engine runtime hengine _ _ _ _
    hpair.child hpair.ordinary hpair.typed hpair.parent hpair.parentOrdinary hpair.parentTyped _ _
    hprofile
  refine ⟨_, fun rs => ?_, hnext, fun rs code hcode => hkept _ code ?_⟩
  · rw [hgo, hadds]
  · exact mem_childReasons_of_mem hcode

/-- The codes for the bounds of a child. -/
def boundCodes : List String := ["CHILD_LIMIT_AMPLIFICATION", "CHILD_DATA_USE_AMPLIFICATION"]

/-- Of a child that lacks such a bound, Go gives a code that TypeScript does not. -/
theorem checkChildMandate_refuses (hengine : ReadsIntegers engine) {c p : Object}
    {tc tp : AgentMandate} (hpair : IsPair engine c p tc tp) {depth : ℤ}
    (hdepth : depth.natAbs ≤ 2 ^ 52) {now : ℤ} {reasons next : Reasons}
    (hmissing : ¬ (Bounded tc.limits tp.limits ∧ Bounded tc.dataUse tp.dataUse))
    (hnew : ∀ code ∈ boundCodes, code ∉ reasons)
    (h : TypeScript.checkChildMandate engine tc tp depth (1000 * now) reasons = .ok next) :
    ∃ next', checkChildMandate runtime .sdk c p depth (1000000000 * now) reasons = .ok next' ∧
      ∃ code ∈ boundCodes, code ∈ next' ∧ code ∉ next := by
  obtain ⟨inactive, disallowed, longer, deeper, hprofile, hgo⟩ :=
    @checkChildMandate_eq engine runtime hengine _ _ _ _ hpair _ hdepth _ _ _ h
  obtain ⟨adds, hadds, -, hkept⟩ := @checkProfileSubset_follows engine runtime hengine _ _ _ _
    hpair.child hpair.ordinary hpair.typed hpair.parent hpair.parentOrdinary hpair.parentTyped _ _
    hprofile
  refine ⟨_, (hgo reasons).trans (hadds _), ?_⟩
  by_cases hlimits : Bounded tc.limits tp.limits
  · have hdataUse := not_bounded fun hdataUse => hmissing ⟨hlimits, hdataUse⟩
    refine ⟨"CHILD_DATA_USE_AMPLIFICATION", by simp [boundCodes], hkept _ _ ?_, ?_⟩
    · exact dataUse_mem_childReasons.mpr (.inl (by rw [hdataUse.2, Bool.and_false]; rfl))
    · rw [TypeScript.mem_checkProfileSubset hprofile (by decide), dataUse_mem_childReasons,
        hdataUse.1]
      simpa using hnew "CHILD_DATA_USE_AMPLIFICATION" (by simp [boundCodes])
  · obtain ⟨hnarrower, howns⟩ := not_bounded hlimits
    refine ⟨"CHILD_LIMIT_AMPLIFICATION", by simp [boundCodes], hkept _ _ ?_, ?_⟩
    · exact limits_mem_childReasons.mpr (.inl (by rw [howns, Bool.and_false]; rfl))
    · rw [TypeScript.mem_checkProfileSubset hprofile (by decide), limits_mem_childReasons,
        hnarrower]
      simpa using hnew "CHILD_LIMIT_AMPLIFICATION" (by simp [boundCodes])

/-! ### The mandate -/

/-- A set of the mandate is held against the envelope alike. -/
theorem checkSetConstraint_eq {o : Object} (ho : Ordinary (.obj o)) {field code : String}
    {allowed : Option (List String)} (hallowed : o.lookup field = allowed.map texts)
    {actual : Option String} (hactual : ∀ s, actual = some s → OrdinaryText s)
    (reasons : Reasons) : checkSetConstraint o field (actual.getD "") code reasons
      = TypeScript.checkSetConstraint allowed actual code reasons := by
  rw [checkSetConstraint, hallowed, stringsFrom_map, Option.isSome_map]
  cases allowed with
  | none => rfl
  | some items =>
    have hitems := ho.lookup_texts hallowed
    cases actual with
    | none =>
      have hmissing : "" ∉ items := fun hmem => (hitems _ hmem).nonempty rfl
      simp [TypeScript.checkSetConstraint, hmissing]
    | some s =>
      have hnonempty : (s == "") = false := beq_eq_false_iff_ne.mpr (hactual s rfl).nonempty
      simp [TypeScript.checkSetConstraint, hnonempty]

/-- The reasons of a mandate before its parent is looked at. -/
def mandateReasons (t : EvaluationRequest) (early late : Bool) : Reasons :=
  let reasons : Reasons := []
  let reasons := reasons.addIf (t.mandate.status != .active) "MANDATE_NOT_ACTIVE"
  let reasons := reasons.addIf early "MANDATE_NOT_YET_ACTIVE"
  let reasons := reasons.addIf late "MANDATE_EXPIRED"
  let reasons := reasons.addIf (t.envelope.mandateId != t.mandate.id) "MANDATE_REFERENCE_MISMATCH"
  let reasons := reasons.addIf (t.envelope.agentId != t.mandate.subject) "SUBJECT_MISMATCH"
  let reasons := reasons.addIf (!t.mandate.actions.contains t.envelope.action) "ACTION_NOT_ALLOWED"
  let reasons := TypeScript.checkSetConstraint t.mandate.resources (some t.envelope.resource)
    "RESOURCE_NOT_ALLOWED" reasons
  let reasons := reasons.addIf (t.envelope.purpose != some t.mandate.purpose) "PURPOSE_MISMATCH"
  let reasons := TypeScript.checkSetConstraint t.mandate.counterparties t.envelope.counterparty
    "COUNTERPARTY_NOT_ALLOWED" reasons
  let reasons := TypeScript.checkSetConstraint t.mandate.destinations t.envelope.destination
    "DESTINATION_NOT_ALLOWED" reasons
  reasons.addIf (t.envelope.profile.isSome && t.envelope.profile != t.mandate.profile)
    "PROFILE_MISMATCH"

theorem notMem_mandateReasons {t : EvaluationRequest} {early late : Bool} {code : String}
    (hcode : code ∈ boundCodes) : code ∉ mandateReasons t early late := by
  simp only [boundCodes, List.mem_cons, List.not_mem_nil, or_false] at hcode
  unfold mandateReasons
  rcases hcode with rfl | rfl <;>
    simp (disch := decide) only [Reasons.mem_addIf_of_ne, TypeScript.mem_checkSetConstraint,
      List.not_mem_nil, not_false_eq_true]

/-- The request of a mandate and an envelope, as both programs read it. -/
structure IsInput (engine : Engine) (o m e : Object) (t : EvaluationRequest) : Prop where
  request : IsRequest engine o t
  domain : InDomain o
  mandateMember : object (o.lookup "mandate") = some m
  mandate : IsMandate engine m t.mandate
  envelopeMember : object (o.lookup "envelope") = some e
  envelope : IsEnvelope engine e t.envelope

/-- A parent of the request, with the mandate. -/
theorem IsInput.pair {o m e : Object} {t : EvaluationRequest} (h : IsInput engine o m e t)
    {p : Object} {tp : AgentMandate} (hp : object (o.lookup "parent_mandate") = some p)
    (hparent : IsMandate engine p tp) : IsPair engine m p t.mandate tp :=
  { child := h.mandate
    ordinary := h.domain.ordinary.object h.mandateMember
    typed := h.domain.mandate m h.mandateMember
    parent := hparent
    parentOrdinary := h.domain.ordinary.object hp
    parentTyped := h.domain.parent p hp
    bounds := h.domain.bounds m p h.mandateMember hp }

/-- The depth of a delegation is the same small integer. -/
theorem delegationDepth_eq {o : Object} {t : EvaluationRequest} (h : IsRequest engine o t)
    (ho : Ordinary (.obj o)) :
    Program.sdk.integerDefault (o.lookup "delegation_depth") 1 = t.delegationDepth.getD 1 ∧
      (t.delegationDepth.getD 1).natAbs ≤ 2 ^ 52 := by
  rcases rel_cases h.delegationDepth with ⟨hnone, ht⟩ | ⟨v, k, hv, ht, hk⟩
  · rw [hnone, ht]
    exact ⟨rfl, by norm_num⟩
  · have hinteger := hk.integer (ho.lookup hv)
    have hle := hk.natAbs_le (ho.lookup hv)
    obtain ⟨n, rfl, -⟩ := hk
    rw [hv, ht]
    exact ⟨hinteger, hle⟩

/-- What both programs check of a mandate before its parent. -/
theorem checkMandate_eq {o m e : Object} {t : EvaluationRequest} (h : IsInput engine o m e t)
    {now : ℤ} {next : Reasons} (hnext : TypeScript.checkMandate engine t (1000 * now) = .ok next) :
    ∃ early late,
      (t.parentMandate = none →
        checkMandate runtime .sdk o m e (1000000000 * now) = .ok next) ∧
      ∀ p tp, object (o.lookup "parent_mandate") = some p → t.parentMandate = some tp →
        TypeScript.checkChildMandate engine t.mandate tp (t.delegationDepth.getD 1) (1000 * now)
            (mandateReasons t early late) = .ok next ∧
          checkMandate runtime .sdk o m e (1000000000 * now)
            = checkChildMandate runtime .sdk m p (t.delegationDepth.getD 1) (1000000000 * now)
              (mandateReasons t early late) := by
  have htyped := h.domain.mandate m h.mandateMember
  have hnotBefore := htyped.notBefore
  have hexpiresAt := htyped.expiresAt
  rw [h.mandate.notBefore, str_str] at hnotBefore
  rw [h.mandate.expiresAt, str_str] at hexpiresAt
  obtain ⟨start, hstart, hstart'⟩ := hnotBefore.reads engine runtime
  obtain ⟨stop, hstop, hstop'⟩ := hexpiresAt.reads engine runtime
  simp only [TypeScript.checkMandate, hstart, hstop, ok_bind] at hnext
  have hm := h.domain.ordinary.object h.mandateMember
  have he := h.domain.ordinary.object h.envelopeMember
  have hearly : decide (1000000000 * start > 1000000000 * now)
      = decide (1000 * start > 1000 * now) := by
    rw [decide_eq_decide]
    omega
  have hlate : (!decide (1000000000 * stop > 1000000000 * now))
      = decide (1000 * stop ≤ 1000 * now) := by
    rw [← decide_not, decide_eq_decide]
    omega
  have hpurpose : (t.envelope.purpose.getD "" != t.mandate.purpose)
      = (t.envelope.purpose != some t.mandate.purpose) :=
    getD_bne (hm.lookup_str h.mandate.purpose).nonempty
  have hprofile : (t.envelope.profile.getD "" != t.mandate.profile.getD "")
      = (t.envelope.profile != t.mandate.profile) :=
    getD_bne_getD (he.lookup_map h.envelope.profile) (hm.lookup_map h.mandate.profile)
  have hresource : ∀ rs, checkSetConstraint m "resources" t.envelope.resource "RESOURCE_NOT_ALLOWED"
        rs = TypeScript.checkSetConstraint t.mandate.resources (some t.envelope.resource)
          "RESOURCE_NOT_ALLOWED" rs := by
    intro rs
    have hactual : ∀ s, some t.envelope.resource = some s → OrdinaryText s := by
      intro s hs
      exact Option.some.inj hs ▸ he.lookup_str h.envelope.resource
    exact @checkSetConstraint_eq _ hm _ _ _ h.mandate.resources _ hactual rs
  have hcounterparty := @checkSetConstraint_eq _ hm "counterparties" "COUNTERPARTY_NOT_ALLOWED" _
    h.mandate.counterparties _ (he.lookup_map h.envelope.counterparty)
  have hdestination := @checkSetConstraint_eq _ hm "destinations" "DESTINATION_NOT_ALLOWED" _
    h.mandate.destinations _ (he.lookup_map h.envelope.destination)
  have hdepth := (delegationDepth_eq h.request h.domain.ordinary).1
  have hrequired : (t.mandate.parentMandate.getD "" != "")
      = t.mandate.parentMandate.any (· != "") := by
    cases t.mandate.parentMandate <;> rfl
  have hgo : checkMandate runtime .sdk o m e (1000000000 * now)
      = (object (o.lookup "parent_mandate")).elim
        (.ok ((mandateReasons t (decide (1000 * start > 1000 * now))
          (decide (1000 * stop ≤ 1000 * now))).addIf (t.mandate.parentMandate.any (· != ""))
            "PARENT_MANDATE_REQUIRED"))
        fun p => checkChildMandate runtime .sdk m p (t.delegationDepth.getD 1) (1000000000 * now)
          (mandateReasons t (decide (1000 * start > 1000 * now))
            (decide (1000 * stop ≤ 1000 * now))) := by
    simp only [checkMandate, h.mandate.status, h.mandate.notBefore, h.mandate.expiresAt,
      h.mandate.id, h.mandate.subject, h.mandate.actions, h.mandate.purpose, h.mandate.profile,
      h.mandate.parentMandate, h.envelope.mandateId, h.envelope.agentId, h.envelope.action,
      h.envelope.resource, h.envelope.purpose, h.envelope.counterparty, h.envelope.destination,
      h.envelope.profile, Option.isSome_map, str_str, str_map, stringsFrom_texts, statusText_bne,
      onTime_eq hstart', onTime_eq hstop', hearly, hlate, hpurpose, hprofile, hresource,
      hcounterparty, hdestination, hdepth, hrequired]
    cases object (o.lookup "parent_mandate") <;> rfl
  refine ⟨decide (1000 * start > 1000 * now), decide (1000 * stop ≤ 1000 * now), fun hnone => ?_,
    fun p tp hp htp => ⟨?_, ?_⟩⟩
  · rcases object_cases h.request.parentMandate with ⟨hmissing, -⟩ | ⟨_, _, -, hsome, -⟩
    · rw [hnone, TypeScript.pure_eq_ok] at hnext
      rw [hgo, hmissing, ← hnext]
      rfl
    · rw [hnone] at hsome
      cases hsome
  · rw [htp] at hnext
    exact hnext
  · rw [hgo, hp]
    rfl

/-- Every bound of a parent that TypeScript accepts has its members in the child. -/
def Covered (t : EvaluationRequest) : Prop :=
  ∀ parent, t.parentMandate = some parent →
    Bounded t.mandate.limits parent.limits ∧ Bounded t.mandate.dataUse parent.dataUse

/-- The mandate of a covered request is checked alike. -/
theorem checkMandate_of_covered (hengine : ReadsIntegers engine) {o m e : Object}
    {t : EvaluationRequest} (h : IsInput engine o m e t) {now : ℤ} {next : Reasons}
    (hcovered : Covered t) (hnext : TypeScript.checkMandate engine t (1000 * now) = .ok next) :
    checkMandate runtime .sdk o m e (1000000000 * now) = .ok next := by
  obtain ⟨early, late, hnone, hsome⟩ := @checkMandate_eq engine runtime _ _ _ _ h _ _ hnext
  rcases object_cases h.request.parentMandate with ⟨-, ht⟩ | ⟨p, tp, hp, ht, hparent⟩
  · exact hnone ht
  · obtain ⟨hchild, hgo⟩ := hsome p tp hp ht
    obtain ⟨hlimits, hdataUse⟩ := hcovered tp ht
    have hdepth := (delegationDepth_eq h.request h.domain.ordinary).2
    obtain ⟨adds, hadds, rfl, -⟩ := @checkChildMandate_follows engine runtime hengine _ _ _ _
      (h.pair hp hparent) _ hdepth _ _ _ hlimits hdataUse hchild
    rw [hgo, hadds]

/-- Of another request Go gives a code that TypeScript does not. -/
theorem checkMandate_of_not_covered (hengine : ReadsIntegers engine) {o m e : Object}
    {t : EvaluationRequest} (h : IsInput engine o m e t) {now : ℤ} {next : Reasons}
    (hmissing : ¬ Covered t) (hnext : TypeScript.checkMandate engine t (1000 * now) = .ok next) :
    ∃ next', checkMandate runtime .sdk o m e (1000000000 * now) = .ok next' ∧
      ∃ code ∈ boundCodes, code ∈ next' ∧ code ∉ next := by
  obtain ⟨early, late, -, hsome⟩ := @checkMandate_eq engine runtime _ _ _ _ h _ _ hnext
  rcases object_cases h.request.parentMandate with ⟨-, ht⟩ | ⟨p, tp, hp, ht, hparent⟩
  · exact absurd (fun parent hp => by rw [ht] at hp; cases hp) hmissing
  · obtain ⟨hchild, hgo⟩ := hsome p tp hp ht
    have hdepth := (delegationDepth_eq h.request h.domain.ordinary).2
    have hlacks : ¬ (Bounded t.mandate.limits tp.limits ∧
        Bounded t.mandate.dataUse tp.dataUse) := by
      intro hbounded
      refine hmissing fun parent hsame => ?_
      obtain rfl := Option.some.inj (ht.symm.trans hsame)
      exact hbounded
    rw [hgo]
    exact checkChildMandate_refuses hengine (h.pair hp hparent) hdepth hlacks
      (fun code hcode => notMem_mandateReasons hcode) hchild

/-! ### The evaluation -/

/-- The checks after those of the mandate add the same reasons. -/
theorem rest_follows (hengine : ReadsIntegers engine) {o m e : Object} {t : EvaluationRequest}
    (h : IsInput engine o m e t) {now : ℤ} {reasons limited priced next : Reasons}
    (hlimited : TypeScript.checkConsumption engine t.mandate (TypeScript.normalizedUsage t.usage)
      (TypeScript.effectiveConsumption engine t)
      (TypeScript.checkConsumptionContext t (TypeScript.effectiveConsumption engine t) reasons)
        = .ok limited)
    (hpriced : TypeScript.checkCommerceTerms engine t limited = .ok priced)
    (hnext : TypeScript.checkRwaTerms engine t (1000 * now) priced = .ok next) :
    Follows (fun rs => do
      let rs := checkConsumptionContext o (effectiveConsumption .sdk o m) rs
      let rs ← checkConsumption .sdk m (normalizeUsage .sdk (object (o.lookup "usage")))
        (effectiveConsumption .sdk o m) rs
      let rs ← checkCommerceTerms .sdk o m e (normalizeUsage .sdk (object (o.lookup "usage"))) rs
      checkRWATerms runtime .sdk o m e (normalizeUsage .sdk (object (o.lookup "usage")))
        (1000000000 * now) rs) reasons next := by
  obtain ⟨v, hv, u, rfl, husage⟩ := h.request.usage
  have hu : object (o.lookup "usage") = some u := by
    rw [hv]
    rfl
  have hm := h.domain.ordinary.object h.mandateMember
  obtain ⟨hnormal, hcalls⟩ := normalizeUsage_eq husage (h.domain.ordinary.object hu)
  have hdelta := effectiveConsumption_isDelta h.request h.mandate h.domain h.mandateMember
  obtain ⟨limit, hlimit, rfl, hkept⟩ := checkConsumption_follows hengine h.mandate hm
    (fun limits => h.domain.limits m limits h.mandateMember) hcalls hdelta hlimited
  obtain ⟨price, hprice, rfl, hkept'⟩ := checkCommerceTerms_follows hengine h.request h.domain
    h.mandateMember h.mandate h.envelopeMember h.envelope hpriced
  obtain ⟨back, hback, rfl, hkept''⟩ := @checkRWATerms_follows engine runtime hengine _ _ _ _ _
    h.request h.domain h.mandateMember h.mandate h.envelopeMember h.envelope hu husage _ _ _ hnext
  refine ⟨fun rs => back (price (limit (TypeScript.checkConsumptionContext t
    (TypeScript.effectiveConsumption engine t) rs))), fun rs => ?_, rfl, fun rs code hcode => ?_⟩
  · simp only [hu, hnormal, checkConsumptionContext_eq h.request hdelta, hlimit, hprice, hback,
      ok_bind]
  · refine hkept'' _ _ (hkept' _ _ (hkept _ _ ?_))
    unfold TypeScript.checkConsumptionContext
    cases t.consumption with
    | none => exact hcode
    | some supplied => exact Reasons.mem_addIf_of_mem hcode

/-- A text of basic characters, by its list of them. -/
theorem basic_ofList {cs : List Char} (h : cs.all (fun c => decide (c.toNat < 0x10000)) = true) :
    (String.ofList cs).toList.all (fun c => decide (c.toNat < 0x10000)) = true := by
  rw [String.toList_ofList]
  exact h

/-- The codes are sorted alike. -/
theorem sortStrings_reasons {t : EvaluationRequest} {reasons : Reasons}
    (h : TypeScript.checkAuthority engine t = .ok reasons) :
    sortStrings reasons = TypeScript.sortStrings reasons := by
  have hbasic : ∀ code ∈ TypeScript.authorityCodes,
      (code.toList.all fun c => decide (c.toNat < 0x10000)) = true := by
    simp only [TypeScript.authorityCodes, TypeScript.mandateCodes, TypeScript.commerceCodes,
      TypeScript.rwaCodes, List.forall_mem_append]
    refine ⟨⟨⟨?_, ?_⟩, ?_⟩, ?_⟩
    all_goals
      repeat refine List.forall_mem_cons.mpr ⟨basic_ofList (by decide), ?_⟩
      exact List.forall_mem_nil _
  simp only [List.all_eq_true, decide_eq_true_eq] at hbasic
  exact sortStrings_eq fun code hcode => hbasic code (TypeScript.mem_authorityCodes h hcode)

/-- The key that a request uses is a text of the request, or empty. -/
theorem idempotencyKey_basic {o : Object} {t : EvaluationRequest} (h : IsRequest engine o t)
    (ho : Ordinary (.obj o)) :
    ∀ c ∈ (TypeScript.effectiveConsumption engine t).idempotencyKey.toList, c.toNat < 0x10000 := by
  obtain ⟨c, hc, hordinary, -⟩ := index_consumption h ho
  unfold TypeScript.effectiveConsumption
  rcases object_cases h.commerce with ⟨-, ht⟩ | ⟨k, tk, hk, ht, hcontext⟩
  · rw [ht]
    cases hkey : (t.consumption.getD {}).idempotencyKey with
    | none => simp [hkey]
    | some key => simpa [hkey] using (hordinary.lookup_map hc.idempotencyKey key hkey).basicPlane
  · rw [ht]
    exact ((ho.object hk).lookup_str hcontext.idempotencyKey).basicPlane

/-- The usage after the request is the same. -/
theorem nextUsage_eq {o m e : Object} {t : EvaluationRequest} (h : IsInput engine o m e t)
    {decision : TypeScript.Decision} {usage : TypeScript.Usage}
    (hnext : TypeScript.nextUsage engine t decision = .ok usage) :
    nextUsage .sdk o m decision = .ok (ofUsage usage) := by
  obtain ⟨v, hv, u, rfl, husage⟩ := h.request.usage
  have hu : object (o.lookup "usage") = some u := by
    rw [hv]
    rfl
  have huo := h.domain.ordinary.object hu
  obtain ⟨hnormal, hcalls⟩ := normalizeUsage_eq husage huo
  unfold nextUsage
  rw [hu, hnormal]
  cases decision with
  | deny =>
    obtain rfl := Except.ok.inj hnext
    rfl
  | allow =>
    have hkeys : ∀ s ∈ (TypeScript.normalizedUsage t.usage).idempotencyKeys,
        ∀ c ∈ s.toList, c.toNat < 0x10000 := by
      intro s hs
      have hmem := TypeScript.mem_sortStrings.mp hs
      cases hkeys : t.usage.idempotencyKeys with
      | none => simp [hkeys] at hmem
      | some keys =>
        have hlookup := husage.idempotencyKeys
        rw [hkeys] at hlookup hmem
        exact (huo.lookup_texts hlookup s hmem).basicPlane
    exact applyConsumption_eq h.request h.domain hcalls hkeys
      (TypeScript.sortStrings_sortStrings _)
      (effectiveConsumption_isDelta h.request h.mandate h.domain h.mandateMember)
      (idempotencyKey_basic h.request h.domain.ordinary) hnext

/-- The result of the Go program is that of the TypeScript program. -/
structure Agrees (g : Result) (r : EvaluationResult) : Prop where
  decision : g.decision = r.decision
  mandateId : g.mandateId = r.mandateId
  transactionId : g.transactionId = r.transactionId
  reasonCodes : g.reasonCodes = r.reasonCodes
  nextUsage : ∃ usage, r.nextUsage = usage.toSnapshot ∧ g.nextUsage = ofUsage usage

/-- The result, once the reasons are found. -/
theorem conclude_eq_ok {program : Program} {request mandate envelope : Object} {now : ℤ}
    {reasons : Reasons} {g : Result}
    (h : checkAuthority runtime program request mandate envelope now = .ok reasons) :
    conclude runtime program request mandate envelope now = .ok g ↔
      ∃ usage, nextUsage program request mandate
          (if sortStrings reasons = [] then .allow else .deny) = .ok usage ∧
        g = ⟨if sortStrings reasons = [] then .allow else .deny, str (mandate.lookup "id"),
          str (envelope.lookup "id"), sortStrings reasons, usage⟩ := by
  simp only [conclude, h, ok_bind]
  constructor
  · intro hg
    obtain ⟨usage, husage, hresult⟩ := bind_eq_ok.mp hg
    exact ⟨usage, husage, (Except.ok.inj hresult).symm⟩
  · rintro ⟨usage, husage, rfl⟩
    exact bind_eq_ok.mpr ⟨usage, husage, rfl⟩

/-- On a request of the domain on which the TypeScript evaluator returns, the Go evaluator returns
the same result exactly if the child has the bounds that TypeScript accepts. -/
theorem evaluators_agree_iff (hengine : ReadsIntegers engine) {o : Object} {t : EvaluationRequest}
    (h : IsRequest engine o t) (hd : InDomain o) {result : EvaluationResult}
    (hresult : TypeScript.evaluateAuthority engine t = .ok result) :
    (∃ g, EvaluateAuthority runtime o = .ok (.ok g) ∧ Agrees g result) ↔ Covered t := by
  obtain ⟨v, hv, m, rfl, hmandate⟩ := h.mandate
  obtain ⟨w, hw, e, rfl, henvelope⟩ := h.envelope
  have hm : object (o.lookup "mandate") = some m := by
    rw [hv]
    rfl
  have he : object (o.lookup "envelope") = some e := by
    rw [hw]
    rfl
  have hinput : IsInput engine o m e t := ⟨h, hd, hm, hmandate, he, henvelope⟩
  have htime := hd.evaluationTime
  rw [h.evaluationTime, str_str] at htime
  obtain ⟨now, hnow, hnow'⟩ := htime.reads engine runtime
  simp only [TypeScript.evaluateAuthority, TypeScript.bind_eq_ok, TypeScript.pure_eq_ok] at hresult
  obtain ⟨reasons, hreasons, usage, husage, rfl⟩ := hresult
  have hsorted := sortStrings_reasons hreasons
  have hparts := hreasons
  simp only [TypeScript.checkAuthority, hnow, ok_bind, TypeScript.bind_eq_ok] at hparts
  obtain ⟨first, hfirst, limited, hlimited, priced, hpriced, hlast⟩ := hparts
  obtain ⟨adds, hadds, hadded, hkept⟩ :=
    @rest_follows engine runtime hengine _ _ _ _ hinput _ _ _ _ _ hlimited hpriced hlast
  -- the Go program goes on with what it found for the mandate
  have hgo : ∀ first', checkMandate runtime .sdk o m e (1000000000 * now) = .ok first' →
      checkAuthority runtime .sdk o m e (1000000000 * now) = .ok (adds first') := by
    intro first' hfirst'
    rw [checkAuthority, hfirst']
    exact hadds first'
  have hevaluate : EvaluateAuthority runtime o
      = .ok <$> conclude runtime .sdk o m e (1000000000 * now) := by
    simp only [EvaluateAuthority, evaluate, hm, he, h.evaluationTime, str_str, hnow']
  constructor
  · rintro ⟨g, hg, hagrees⟩
    by_contra hmissing
    obtain ⟨first', hfirst', code, hcode, hthere, hnot⟩ :=
      @checkMandate_of_not_covered engine runtime hengine _ _ _ _ hinput _ _ hmissing hfirst
    have hconclude : conclude runtime .sdk o m e (1000000000 * now) = .ok g := by
      rw [hevaluate] at hg
      cases hconclude : conclude runtime .sdk o m e (1000000000 * now) with
      | error fault =>
        rw [hconclude] at hg
        cases hg
      | ok g' =>
        rw [hconclude] at hg
        rw [Except.ok.inj (Except.ok.inj hg)]
    obtain ⟨next, -, rfl⟩ := (conclude_eq_ok (hgo first' hfirst')).mp hconclude
    have hin : code ∈ sortStrings (adds first') := by
      rw [sortStrings, List.mem_insertionSort]
      exact hkept first' code hthere
    have hout : code ∉ reasons := by
      have hother : ∀ code ∈ boundCodes, code ∉ TypeScript.rwaCodes ∧
          code ∉ TypeScript.commerceCodes ∧ code ∉ ["MANDATE_ALREADY_CONSUMED",
            "IDEMPOTENCY_REPLAY", "CALL_LIMIT_EXCEEDED", "QUANTITY_LIMIT_EXCEEDED",
            "BUDGET_CURRENCY_MISMATCH", "BUDGET_EXCEEDED"] ∧
          code ≠ "CONSUMPTION_CONTEXT_MISMATCH" := by
        decide
      obtain ⟨hrwa, hcommerce, hconsumption, hcontext⟩ := hother code hcode
      rw [TypeScript.mem_checkRwaTerms hlast hrwa, TypeScript.mem_checkCommerceTerms hpriced hcommerce,
        TypeScript.mem_checkConsumption hlimited hconsumption,
        TypeScript.mem_checkConsumptionContext hcontext]
      exact hnot
    have hsame := hagrees.reasonCodes
    simp only at hsame
    rw [hsame, TypeScript.mem_sortStrings] at hin
    exact hout hin
  · intro hcovered
    have hfirst' := @checkMandate_of_covered engine runtime hengine _ _ _ _ hinput _ _ hcovered
      hfirst
    have hall : checkAuthority runtime .sdk o m e (1000000000 * now) = .ok reasons := by
      rw [hgo first hfirst', hadded]
    have hnext := nextUsage_eq hinput husage
    have hconclude := (conclude_eq_ok hall).mpr ⟨ofUsage usage, by rw [hsorted]; exact hnext, rfl⟩
    refine ⟨_, by rw [hevaluate, hconclude]; rfl, ?_⟩
    refine ⟨by rw [hsorted], ?_, ?_, hsorted, usage, rfl, rfl⟩
    · rw [hmandate.id, str_str]
    · rw [henvelope.id, str_str]

/-! ### A bound by the name of the prototype -/

theorem exactEngine_readsIntegers : ReadsIntegers exactEngine := fun n k hk _ => by
  rw [literalNumber_exact]
  exact (value_of_reads_literal (reads_of_setString hk)).symm

theorem isNumber_one : JsonText.isNumber "1".toList = true := by decide

/-- Limits with one bound, which every object of TypeScript inherits. -/
def prototypeLimits : Object := [("__proto__", .obj [])]

/-- A mandate with these limits, delegated once. -/
def libraryMandate : Object :=
  [("oati_version", .str "1.0"), ("id", .str "oati:mandate:library"),
    ("issuer", .str "oati:org:lab"), ("subject", .str "oati:agent:librarian"),
    ("purpose", .str "research"), ("actions", texts ["data.read"]),
    ("limits", .obj prototypeLimits),
    ("delegation", .obj [("allowed", .bool true), ("max_depth", .num ⟨"1", isNumber_one⟩)]),
    ("not_before", .str "2026-01-01T00:00:00Z"), ("expires_at", .str "2027-01-01T00:00:00Z"),
    ("status", .str "active")]

/-- A mandate under it. -/
def readerMandate (limits : Object) : Object :=
  [("oati_version", .str "1.0"), ("id", .str "oati:mandate:reader"),
    ("issuer", .str "oati:agent:librarian"), ("subject", .str "oati:agent:reader"),
    ("parent_mandate", .str "oati:mandate:library"), ("purpose", .str "research"),
    ("actions", texts ["data.read"]), ("limits", .obj limits),
    ("not_before", .str "2026-01-01T00:00:00Z"), ("expires_at", .str "2027-01-01T00:00:00Z"),
    ("status", .str "active")]

/-- A read under the delegated mandate. -/
def delegatedRead (limits : Object) : Object :=
  [("oati_version", .str "1.0"), ("evaluation_time", .str "2026-07-27T12:00:00Z"),
    ("mandate", .obj (readerMandate limits)), ("parent_mandate", .obj libraryMandate),
    ("envelope", .obj
      [("oati_version", .str "1.0"), ("id", .str "oati:tx:1"), ("agent_id", .str "oati:agent:reader"),
        ("organisation_id", .str "oati:org:lab"), ("mandate_id", .str "oati:mandate:reader"),
        ("action", .str "data.read"), ("resource", .str "oati:dataset:tides"),
        ("purpose", .str "research"), ("issued_at", .str "2026-07-27T12:00:00Z"),
        ("nonce", .str "0123456789abcdef")]),
    ("usage", .obj [])]

/-- The same request, as the TypeScript program reads it. -/
def typedRead (limits : Object) : EvaluationRequest :=
  { evaluationTime := "2026-07-27T12:00:00Z"
    mandate :=
      { id := "oati:mandate:reader", subject := "oati:agent:reader"
        parentMandate := some "oati:mandate:library", purpose := "research"
        actions := ["data.read"], limits := some (toRecord exactEngine limits)
        notBefore := "2026-01-01T00:00:00Z", expiresAt := "2027-01-01T00:00:00Z"
        status := .active }
    parentMandate := some
      { id := "oati:mandate:library", subject := "oati:agent:librarian", purpose := "research"
        actions := ["data.read"], limits := some (toRecord exactEngine prototypeLimits)
        delegation := some ⟨true, 1⟩
        notBefore := "2026-01-01T00:00:00Z", expiresAt := "2027-01-01T00:00:00Z"
        status := .active }
    envelope :=
      { id := "oati:tx:1", agentId := "oati:agent:reader", organisationId := "oati:org:lab"
        mandateId := "oati:mandate:reader", action := "data.read"
        resource := "oati:dataset:tides", purpose := some "research" } }

theorem isRequest_delegatedRead (limits : Object) :
    IsRequest exactEngine (delegatedRead limits) (typedRead limits) where
  evaluationTime := rfl
  mandate := by
    refine ⟨_, rfl, readerMandate limits, rfl, ?_⟩
    exact ⟨rfl, rfl, rfl, rfl, rfl, rfl, rfl, rfl, ⟨some limits, rfl, rfl⟩, ⟨none, rfl, rfl⟩, .none,
      rfl, rfl, rfl, rfl, ⟨none, rfl, rfl⟩⟩
  parentMandate := by
    refine .some ⟨libraryMandate, rfl, ?_⟩
    have hdelegation : IsObject IsDelegation
        (.obj [("allowed", .bool true), ("max_depth", .num ⟨"1", isNumber_one⟩)]) ⟨true, 1⟩ :=
      ⟨_, rfl, rfl, _, rfl, _, rfl, by decide⟩
    exact ⟨rfl, rfl, rfl, rfl, rfl, rfl, rfl, rfl, ⟨some prototypeLimits, rfl, rfl⟩,
      ⟨none, rfl, rfl⟩, .some hdelegation, rfl, rfl, rfl, rfl, ⟨none, rfl, rfl⟩⟩
  delegationDepth := .none
  envelope := by
    refine ⟨_, rfl, _, rfl, ?_⟩
    exact ⟨rfl, rfl, rfl, rfl, rfl, rfl, rfl, rfl, rfl, ⟨none, rfl, rfl⟩⟩
  usage := ⟨_, rfl, [], rfl, .none, rfl, rfl, rfl, rfl, rfl, rfl⟩
  consumption := .none
  commerce := .none
  rwa := .none

theorem wholeSecond_now : WholeSecond "2026-07-27T12:00:00Z" := by decide

theorem wholeSecond_start : WholeSecond "2026-01-01T00:00:00Z" := by decide

theorem wholeSecond_stop : WholeSecond "2027-01-01T00:00:00Z" := by decide

/-- The request is in the domain, with or without the bound. -/
theorem inDomain_delegatedRead {limits : Object} (h : limits = [] ∨ limits = prototypeLimits) :
    InDomain (delegatedRead limits) where
  ordinary := by
    have hnumbers : (Json.obj (delegatedRead limits)).numbers.all
        (fun n => decide (SmallInteger n)) = true := by
      rcases h with rfl | rfl <;> decide
    have hstrings : (Json.obj (delegatedRead limits)).strings.all
        (fun s => decide (OrdinaryText s)) = true := by
      rcases h with rfl | rfl <;> decide
    simp only [List.all_eq_true, decide_eq_true_eq] at hnumbers hstrings
    exact ⟨hnumbers, hstrings⟩
  evaluationTime := wholeSecond_now
  mandate := by
    rintro m ⟨⟩
    exact ⟨wholeSecond_start, wholeSecond_stop, by rintro t ⟨⟩, by rintro t ⟨⟩⟩
  limits := by
    rintro m limits' ⟨⟩ ⟨⟩
    rcases h with rfl | rfl <;>
      exact ⟨by rintro v ⟨⟩, by rintro v ⟨⟩, by rintro v ⟨⟩, by rintro v ⟨⟩⟩
  parent := by
    rintro m ⟨⟩
    exact ⟨wholeSecond_start, wholeSecond_stop, by rintro t ⟨⟩, by rintro t ⟨⟩⟩
  bounds := by
    rintro m p ⟨⟩ ⟨⟩ key hkey c b hc hb
    simp only [List.mem_cons, List.not_mem_nil, or_false] at hkey
    rcases hkey with rfl | rfl
    · obtain rfl := Option.some.inj hc
      obtain rfl := Option.some.inj hb
      refine ⟨fun x hx => ?_, trivial⟩
      rcases h with rfl | rfl
      · cases hx
      · obtain rfl := Option.some.inj hx
        exact ⟨[], rfl, trivial⟩
    · cases hc
  rwa := by rintro c ⟨⟩
  signedCommerce := by rintro e c signed _ ⟨⟩
  signedRwa := by rintro e c signed _ ⟨⟩

/-- What TypeScript returns, with or without the bound. -/
theorem evaluateAuthority_typedRead {limits : Object} (h : limits = [] ∨ limits = prototypeLimits) :
    TypeScript.evaluateAuthority exactEngine (typedRead limits) = .ok
      { decision := .allow, mandateId := "oati:mandate:reader", transactionId := "oati:tx:1"
        reasonCodes := [], nextUsage := TypeScript.Usage.toSnapshot ⟨1, "0", "", "0", false, [], "0"⟩ } := by
  rcases h with rfl | rfl <;> decide

/-- What Go returns without the bound. -/
theorem EvaluateAuthority_delegatedRead : EvaluateAuthority plainRuntime (delegatedRead []) = .ok (.ok
    { decision := .deny, mandateId := "oati:mandate:reader", transactionId := "oati:tx:1"
      reasonCodes := ["CHILD_LIMIT_AMPLIFICATION"]
      nextUsage := ⟨0, "0", "", "0", false, [], "0"⟩ }) := by
  decide

/-- TypeScript finds the bound on a child without limits of its own, Go does not. -/
theorem delegatedRead_differs :
    IsRequest exactEngine (delegatedRead []) (typedRead []) ∧ InDomain (delegatedRead []) ∧
      ∃ result g, TypeScript.evaluateAuthority exactEngine (typedRead []) = .ok result ∧
        EvaluateAuthority plainRuntime (delegatedRead []) = .ok (.ok g) ∧
        result.decision = .allow ∧ g.decision = .deny ∧ ¬ Agrees g result := by
  refine ⟨isRequest_delegatedRead [], inDomain_delegatedRead (.inl rfl), _, _,
    evaluateAuthority_typedRead (.inl rfl), EvaluateAuthority_delegatedRead, rfl, rfl, ?_⟩
  intro hagrees
  cases hagrees.decision

/-- With the bound on the child, they agree. -/
theorem evaluators_agree_iff_delegatedRead :
    (∃ g, EvaluateAuthority plainRuntime (delegatedRead prototypeLimits) = .ok (.ok g) ∧
      Agrees g
        { decision := .allow, mandateId := "oati:mandate:reader", transactionId := "oati:tx:1"
          reasonCodes := []
          nextUsage := TypeScript.Usage.toSnapshot ⟨1, "0", "", "0", false, [], "0"⟩ }) := by
  refine (evaluators_agree_iff exactEngine_readsIntegers (isRequest_delegatedRead _)
    (inDomain_delegatedRead (.inr rfl)) (evaluateAuthority_typedRead (.inr rfl))).mpr ?_
  rintro parent ⟨⟩
  exact ⟨fun _ => by decide, fun _ => by decide⟩

end Oati.Go

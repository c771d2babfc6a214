import Oati.TypeScript.EvaluatorSpec

/-!
# Narrowing is transitive

`narrowerObject` compares two free-form objects entry by entry: numbers and decimal strings by
their order, arrays by inclusion, objects by recursion, anything else by equality. Each of
these relations is transitive, and so is the whole comparison once no member of the outermost
bound is named `__proto__`, the one name that a lookup finds on every object.

* `narrowerValue_trans`: one entry, by induction on the bound.
* `narrowerObject_trans`: the optional records of two mandates.
-/

namespace Oati.TypeScript

/-! ### Lookups -/

theorem property_of_ne {child : Record} {key : String} (h : key ≠ "__proto__") :
    property child key = child.lookup key := by
  unfold property
  cases child.lookup key <;> simp [h]

/-- A missing entry is not within any bound. -/
@[simp] theorem narrowerValue_none (bound : Value) : narrowerValue none bound = false := by
  cases bound <;> simp [narrowerValue, narrowerDecimal, strictEq]

theorem narrowerMembers_iff {child : Record} {bounds : List (String × Value)} :
    narrowerMembers child bounds = true ↔
      ∀ m ∈ bounds, narrowerValue (property child m.1) m.2 = true := by
  induction bounds with
  | nil => simp [narrowerMembers]
  | cons m rest ih => simp [narrowerMembers, ih]

/-- An entry of the bound under an ordinary name is one of the child, within it. -/
theorem exists_of_narrowerMembers {child bounds : Record} (h : narrowerMembers child bounds = true)
    {key : String} (hkey : key ≠ "__proto__") {bound : Value}
    (hbound : (key, bound) ∈ bounds) :
    ∃ v, child.lookup key = some v ∧ narrowerValue (some v) bound = true := by
  have hv := narrowerMembers_iff.mp h _ hbound
  rw [property_of_ne hkey] at hv
  cases hlookup : child.lookup key with
  | none => simp [hlookup] at hv
  | some v => exact ⟨v, rfl, by rwa [hlookup] at hv⟩

/-! ### One entry -/

/-- A decimal bound is the order of what the strings denote. -/
theorem narrowerDecimal_iff {child : Option Value} {bound : String} :
    narrowerDecimal child bound = true ↔ DecimalAtMost child (some (.str bound)) := by
  unfold narrowerDecimal
  constructor
  · intro h
    split at h
    next c =>
      simp only [Bool.and_eq_true] at h
      obtain ⟨-, hle⟩ := h
      split at hle
      next n hn =>
        obtain ⟨p, q, hp, hq, hpq⟩ := compareDecimal_nonpos_iff.mp ⟨n, hn, of_decide_eq_true hle⟩
        exact ⟨c, bound, p, q, rfl, rfl, hp, hq, hpq⟩
      next => cases hle
    next => cases h
  · rintro ⟨c, p, a, b, rfl, hp, ha, hb, hle⟩
    cases hp
    obtain ⟨n, hn, hn0⟩ := compareDecimal_nonpos_iff.mpr ⟨a, b, ha, hb, hle⟩
    simp [ha.isDecimal, hn, hn0]

theorem narrowerValue_decimal {child : Option Value} {bound : String}
    (hbound : isDecimal bound = true) :
    narrowerValue child (.str bound) = true ↔ DecimalAtMost child (some (.str bound)) := by
  rw [narrowerValue, if_pos hbound, narrowerDecimal_iff]

theorem narrowerValue_num {child : Option Value} {bound : ℚ} :
    narrowerValue child (.num bound) = true ↔ NumberAtMost child (some (.num bound)) := by
  rcases child with _ | c
  · simp [NumberAtMost]
  · cases c <;> simp [narrowerValue, NumberAtMost]

/-- A string bounds a string: by order when it is a decimal, by equality when it is not. -/
theorem narrowerValue_str {child : Option Value} {bound : String}
    (h : narrowerValue child (.str bound) = true) :
    ∃ c, child = some (.str c) ∧ (c = bound ∨ DecimalAtMost child (some (.str bound))) := by
  by_cases hs : isDecimal bound = true
  · have hle := (narrowerValue_decimal hs).mp h
    obtain ⟨c, _, _, _, hc, -⟩ := id hle
    exact ⟨c, hc, .inr hle⟩
  · rw [narrowerValue, if_neg hs] at h
    exact ⟨bound, eq_of_strictEq h, .inl rfl⟩

/-- Narrowing one entry composes. The bound is the outermost of the three; the induction on it
takes the middle value apart with it. -/
theorem narrowerValue_trans {bound : Value} (hproto : "__proto__" ∉ bound.names) :
    ∀ {x : Option Value} {y : Value}, narrowerValue x y = true →
      narrowerValue (some y) bound = true → narrowerValue x bound = true := by
  induction bound using Json.induction with
  | null | bool =>
    intro x y hxy hy
    obtain rfl : y = _ := Option.some.inj (eq_of_strictEq (by simpa [narrowerValue] using hy))
    exact hxy
  | num q =>
    intro x y hxy hy
    cases y with
    | num p =>
      simp only [narrowerValue, decide_eq_true_eq] at hxy hy ⊢
      split at hxy
      next c => simpa using (of_decide_eq_true hxy).trans hy
      next => cases hxy
    | _ => simp [narrowerValue] at hy
  | str s =>
    intro x y hxy hy
    by_cases hs : isDecimal s = true
    · obtain ⟨c, p, a, b, hc, hp, ha, hb, hle⟩ := (narrowerValue_decimal hs).mp hy
      cases hc
      have hx := (narrowerValue_decimal ha.isDecimal).mp hxy
      exact (narrowerValue_decimal hs).mpr (hx.trans ⟨_, _, a, b, rfl, hp, ha, hb, hle⟩)
    · have hstrict : strictEq (some y) (some (.str s)) = true := by
        simpa only [narrowerValue, if_neg hs] using hy
      obtain rfl : y = .str s := Option.some.inj (eq_of_strictEq hstrict)
      exact hxy
  | arr items ih =>
    intro x y hxy hy
    cases y with
    | arr ys =>
      simp only [narrowerValue, List.all_eq_true] at hxy hy ⊢
      split at hxy
      next xs =>
        simp only [List.all_eq_true] at hxy ⊢
        exact fun v hv => includes_trans hy (hxy v hv)
      next => cases hxy
    | _ => simp [narrowerValue] at hy
  | obj members ih =>
    intro x y hxy hy
    cases y with
    | obj ys =>
      simp only [narrowerValue] at hxy hy ⊢
      split at hxy
      next xs =>
        refine narrowerMembers_iff.mpr fun m hm => ?_
        have hname : m.1 ≠ "__proto__" := fun h =>
          hproto (by rw [Json.names, Json.mem_memberNames]; exact ⟨m, hm, .inl h.symm⟩)
        have hvalue : "__proto__" ∉ m.2.names := fun h =>
          hproto (by rw [Json.names, Json.mem_memberNames]; exact ⟨m, hm, .inr h⟩)
        obtain ⟨v, hv, hvm⟩ := exists_of_narrowerMembers hy hname hm
        have hxv := narrowerMembers_iff.mp hxy _ (List.mem_of_lookup_eq_some hv)
        exact ih m hm hvalue hxv hvm
      next => cases hxy
    | _ => simp [narrowerValue] at hy

/-! ### Two records -/

/-- No member of a record, at any depth, is named `__proto__`. -/
def NoProto (record : Option Record) : Prop :=
  ∀ members, record = some members → "__proto__" ∉ Json.memberNames members

theorem narrowerObject_iff {child bound : Option Record} : narrowerObject child bound = true ↔
    ∀ b, bound = some b → ∃ c, child = some c ∧ narrowerMembers c b = true := by
  cases bound with
  | none => simp [narrowerObject]
  | some b => cases child <;> simp [narrowerObject]

theorem narrowerObject_trans {a b c : Option Record} (hproto : NoProto c)
    (hab : narrowerObject a b = true) (hbc : narrowerObject b c = true) :
    narrowerObject a c = true := by
  refine narrowerObject_iff.mpr fun bounds hbounds => ?_
  obtain ⟨middle, hmiddle, hle⟩ := narrowerObject_iff.mp hbc bounds hbounds
  obtain ⟨child, hchild, hle'⟩ := narrowerObject_iff.mp hab middle hmiddle
  have hobj : narrowerValue (some (.obj child)) (.obj bounds) = true :=
    narrowerValue_trans (y := .obj middle) (by rw [Json.names]; exact hproto bounds hbounds)
    (by rw [narrowerValue]; exact hle') (by rw [narrowerValue]; exact hle)
  exact ⟨child, hchild, by rwa [narrowerValue] at hobj⟩

/-- A bound under an ordinary name carries over to the child's record. -/
theorem exists_of_narrowerObject {child bound : Option Record}
    (h : narrowerObject child bound = true) {key : String} (hkey : key ≠ "__proto__")
    {v : Value} (hv : (bound.getD []).lookup key = some v) :
    ∃ w, (child.getD []).lookup key = some w ∧ narrowerValue (some w) v = true := by
  cases bound with
  | none => simp at hv
  | some b =>
    obtain ⟨c, rfl, hle⟩ := narrowerObject_iff.mp h b rfl
    exact exists_of_narrowerMembers hle hkey (List.mem_of_lookup_eq_some hv)

end Oati.TypeScript

import Oati.TypeScript.Engine

/-!
# Decimal arithmetic of the evaluator

The functions at the end of `evaluator.ts`: the grammar `(0|[1-9][0-9]*)(.[0-9]+)?`, parsing
into a `bigint` coefficient and a scale, comparison, addition and multiplication by an integer.

`decimalValue` is the rational a string of the grammar denotes. Each operation gets one
specification lemma in terms of it: comparison is the order of values, `addDecimal` stays in the
grammar and denotes the sum. The rules of the evaluator are proved from these lemmas alone.
-/

namespace Oati.TypeScript

open Numeral

/-- `isDecimal`. -/
def isDecimal (value : String) : Bool :=
  match value.toList.splitOn '.' with
  | [whole] => IsWhole whole
  | [whole, fraction] => IsWhole whole && IsFraction fraction
  | _ => false

/-- `parseDecimal`: the digits as one `bigint`, and how many of them follow the point. -/
def parseDecimal (value : String) : Except JsError FixedPoint :=
  if isDecimal value then
    match value.toList.splitOn '.' with
    | whole :: fraction :: _ =>
      .ok ⟨Nat.ofDigitChars 10 (whole ++ fraction) 0, fraction.length⟩
    | [whole] => .ok ⟨Nat.ofDigitChars 10 whole 0, 0⟩
    | [] => .ok ⟨0, 0⟩
  else .error (.typeError ("Invalid decimal: " ++ value))

/-- `compareDecimal`: `0`, `1` or `-1`. -/
def compareDecimal (left right : String) : Except JsError ℤ := do
  let l ← parseDecimal left
  let r ← parseDecimal right
  let (a, b, _) := FixedPoint.align l r
  return if a = b then 0 else if a > b then 1 else -1

/-- The characters of a `bigint`. -/
def bigintChars (n : ℤ) : List Char :=
  match n with
  | .ofNat n => Nat.toDigits 10 n
  | .negSucc n => '-' :: Nat.toDigits 10 (n + 1)

/-- `formatDecimal`. -/
def formatDecimal (coefficient : ℤ) (scale : ℕ) : String :=
  if scale = 0 then String.ofList (bigintChars coefficient)
  else
    let digits := (bigintChars coefficient).leftpad (scale + 1) '0'
    String.ofList
      (digits.take (digits.length - scale) ++ '.' :: digits.drop (digits.length - scale))

/-- `addDecimal`. -/
def addDecimal (left right : String) : Except JsError String := do
  let l ← parseDecimal left
  let r ← parseDecimal right
  let (a, b, scale) := FixedPoint.align l r
  return formatDecimal (a + b) scale

/-- `BigInt(number)`: only integers convert. -/
def toBigInt (q : ℚ) : Except JsError ℤ :=
  if q.den = 1 then .ok q.num
  else .error (.rangeError "The number cannot be converted to a BigInt because it is not an integer")

/-- `multiplyDecimal`. -/
def multiplyDecimal (value : String) (multiplier : ℚ) : Except JsError String := do
  let parsed ← parseDecimal value
  let n ← toBigInt multiplier
  return formatDecimal (parsed.coefficient * n) parsed.scale

/-- A raw value as the argument of a decimal function: only a string gets past
`parseDecimal`, since any other value fails the pattern or has no `split`. -/
def decimalText (value : Option Value) : Except JsError String :=
  match value with
  | some (.str s) => .ok s
  | _ => .error (.typeError "Invalid decimal")

/-! ### What the operations denote -/

/-- The rational a string of the grammar denotes. -/
def decimalValue (value : String) : Option ℚ :=
  match parseDecimal value with
  | .ok d => some d.value
  | .error _ => none

/-- `value` is in the grammar and denotes `q`. -/
def Denotes (value : String) (q : ℚ) : Prop :=
  ∃ d, parseDecimal value = .ok d ∧ d.value = q

theorem Denotes.unique {value : String} {p q : ℚ} (hp : Denotes value p) (hq : Denotes value q) :
    p = q := by
  obtain ⟨d, hd, rfl⟩ := hp
  obtain ⟨e, he, rfl⟩ := hq
  rw [hd] at he
  cases he
  rfl

theorem decimalValue_eq_some_iff {value : String} {q : ℚ} :
    decimalValue value = some q ↔ Denotes value q := by
  unfold decimalValue Denotes
  cases parseDecimal value with
  | ok d => simp
  | error e => simp

/-- A parsed decimal is in the grammar and has a nonnegative coefficient. -/
theorem parseDecimal_ok {value : String} {d : FixedPoint} (h : parseDecimal value = .ok d) :
    isDecimal value = true ∧ 0 ≤ d.coefficient := by
  unfold parseDecimal at h
  split at h
  next hdec =>
    refine ⟨hdec, ?_⟩
    split at h <;> cases h <;> simp
  next => cases h

theorem exists_parseDecimal {value : String} (h : isDecimal value = true) :
    ∃ d, parseDecimal value = .ok d := by
  unfold parseDecimal
  rw [if_pos h]
  split <;> exact ⟨_, rfl⟩

theorem exists_denotes {value : String} (h : isDecimal value = true) :
    ∃ q, Denotes value q ∧ 0 ≤ q := by
  obtain ⟨d, hd⟩ := exists_parseDecimal h
  exact ⟨d.value, ⟨d, hd, rfl⟩, FixedPoint.value_nonneg (parseDecimal_ok hd).2⟩

theorem Denotes.isDecimal {value : String} {q : ℚ} (h : Denotes value q) :
    isDecimal value = true := by
  obtain ⟨d, hd, -⟩ := h
  exact (parseDecimal_ok hd).1

theorem Denotes.nonneg {value : String} {q : ℚ} (h : Denotes value q) : 0 ≤ q := by
  obtain ⟨d, hd, rfl⟩ := h
  exact FixedPoint.value_nonneg (parseDecimal_ok hd).2

/-- Comparison succeeds exactly on two strings of the grammar, and is then the order of the
rationals they denote. -/
theorem compareDecimal_eq_ok {left right : String} {c : ℤ} :
    compareDecimal left right = .ok c ↔
      ∃ p q, Denotes left p ∧ Denotes right q ∧
        c = if p = q then 0 else if q < p then 1 else -1 := by
  unfold compareDecimal Denotes
  cases hl : parseDecimal left with
  | error e => simp [bind, Except.bind]
  | ok l =>
    cases hr : parseDecimal right with
    | error e => simp [bind, Except.bind]
    | ok r =>
      have heq := FixedPoint.align_eq_iff l r
      have hlt : (FixedPoint.align l r).2.1 < (FixedPoint.align l r).1 ↔ r.value < l.value := by
        rw [← not_le, ← not_le, FixedPoint.align_le_iff]
      simp only [bind, Except.bind, pure, Except.pure, Except.ok.injEq, gt_iff_lt]
      constructor
      · rintro rfl
        exact ⟨l.value, r.value, ⟨l, rfl, rfl⟩, ⟨r, rfl, rfl⟩, by simp only [heq, hlt]⟩
      · rintro ⟨p, q, ⟨l', hl', rfl⟩, ⟨r', hr', rfl⟩, rfl⟩
        cases hl'
        cases hr'
        simp only [heq, hlt]

/-- `compareDecimal(a, b) <= 0`. -/
theorem compareDecimal_nonpos_iff {left right : String} :
    (∃ c, compareDecimal left right = .ok c ∧ c ≤ 0) ↔
      ∃ p q, Denotes left p ∧ Denotes right q ∧ p ≤ q := by
  simp only [compareDecimal_eq_ok]
  constructor
  · rintro ⟨c, ⟨p, q, hp, hq, rfl⟩, hc⟩
    refine ⟨p, q, hp, hq, ?_⟩
    split_ifs at hc with h1 h2
    · exact h1.le
    · norm_num at hc
    · exact not_lt.mp h2
  · rintro ⟨p, q, hp, hq, hle⟩
    refine ⟨_, ⟨p, q, hp, hq, rfl⟩, ?_⟩
    rw [if_neg (not_lt.mpr hle)]
    split_ifs <;> norm_num

theorem splitOn_append_dot {whole fraction : List Char} (hw : ∀ c ∈ whole, c.isDigit)
    (hf : ∀ c ∈ fraction, c.isDigit) :
    (whole ++ '.' :: fraction).splitOn '.' = [whole, fraction] := by
  rw [List.splitOn_append_cons_self_of_not_mem (dot_notMem_of_isDigit hw),
    List.splitOn_eq_singleton (dot_notMem_of_isDigit hf)]

theorem parseDecimal_whole {whole : List Char} (hw : IsWhole whole) :
    parseDecimal (String.ofList whole) = .ok ⟨Nat.ofDigitChars 10 whole 0, 0⟩ := by
  have hsplit : (String.ofList whole).toList.splitOn '.' = [whole] := by
    rw [String.toList_ofList, List.splitOn_eq_singleton (dot_notMem_of_isDigit (isDigit_of_isWhole hw))]
  have hdec : isDecimal (String.ofList whole) = true := by rw [isDecimal, hsplit]; exact hw
  rw [parseDecimal, if_pos hdec, hsplit]

theorem parseDecimal_point {whole fraction : List Char} (hw : IsWhole whole)
    (hf : IsFraction fraction) :
    parseDecimal (String.ofList (whole ++ '.' :: fraction))
      = .ok ⟨Nat.ofDigitChars 10 (whole ++ fraction) 0, fraction.length⟩ := by
  have hfd : ∀ c ∈ fraction, c.isDigit := by
    simp only [IsFraction, Bool.and_eq_true, List.all_eq_true] at hf; exact hf.2
  have hsplit : (String.ofList (whole ++ '.' :: fraction)).toList.splitOn '.'
      = [whole, fraction] := by
    rw [String.toList_ofList, splitOn_append_dot (isDigit_of_isWhole hw) hfd]
  have hdec : isDecimal (String.ofList (whole ++ '.' :: fraction)) = true := by
    rw [isDecimal, hsplit]; simp [hw, hf]
  rw [parseDecimal, if_pos hdec, hsplit]

/-- Parsing undoes formatting, for every natural coefficient and scale. -/
theorem parseDecimal_formatDecimal (n scale : ℕ) :
    parseDecimal (formatDecimal n scale) = .ok ⟨n, scale⟩ := by
  by_cases hs : scale = 0
  · subst hs
    rw [formatDecimal, if_pos rfl]
    show parseDecimal (String.ofList (Nat.toDigits 10 n)) = _
    rw [parseDecimal_whole (isWhole_toDigits n), Nat.ofDigitChars_ten_toDigits]
  · rw [formatDecimal, if_neg hs]
    show parseDecimal (String.ofList
      ((paddedDigits n scale).take ((paddedDigits n scale).length - scale)
        ++ '.' :: (paddedDigits n scale).drop ((paddedDigits n scale).length - scale))) = _
    rw [parseDecimal_point (isWhole_take_paddedDigits n scale) (isFraction_drop_paddedDigits n hs),
      List.take_append_drop, ofDigitChars_paddedDigits, length_drop_paddedDigits]

/-- `addDecimal` succeeds exactly on two strings of the grammar, and then denotes the sum. -/
theorem addDecimal_denotes {left right sum : String} (h : addDecimal left right = .ok sum) :
    ∃ p q, Denotes left p ∧ Denotes right q ∧ Denotes sum (p + q) := by
  unfold addDecimal at h
  cases hl : parseDecimal left with
  | error e => simp [hl, bind, Except.bind] at h
  | ok l =>
    cases hr : parseDecimal right with
    | error e => simp [hl, hr, bind, Except.bind] at h
    | ok r =>
      simp only [hl, hr, bind, Except.bind, pure, Except.pure, Except.ok.injEq] at h
      have hnn := FixedPoint.align_add_nonneg (parseDecimal_ok hl).2 (parseDecimal_ok hr).2
      obtain ⟨n, hn⟩ := Int.eq_ofNat_of_zero_le hnn
      refine ⟨l.value, r.value, ⟨l, hl, rfl⟩, ⟨r, hr, rfl⟩, ?_⟩
      refine ⟨⟨n, (FixedPoint.align l r).2.2⟩, ?_, ?_⟩
      · rw [← h, hn, parseDecimal_formatDecimal]
      · rw [← FixedPoint.value_align_add l r, hn]

theorem exists_addDecimal {left right : String} {p q : ℚ} (hl : Denotes left p)
    (hr : Denotes right q) : ∃ sum, addDecimal left right = .ok sum := by
  obtain ⟨l, hl, -⟩ := hl
  obtain ⟨r, hr, -⟩ := hr
  exact ⟨_, by simp [addDecimal, hl, hr, bind, Except.bind, pure, Except.pure]; rfl⟩

/-- Multiplication by a natural number denotes the product. -/
theorem multiplyDecimal_natCast {value product : String} {n : ℕ}
    (h : multiplyDecimal value n = .ok product) :
    ∃ p, Denotes value p ∧ Denotes product (p * n) := by
  unfold multiplyDecimal at h
  cases hv : parseDecimal value with
  | error e => simp [hv, bind, Except.bind] at h
  | ok d =>
    simp only [hv, bind, Except.bind, toBigInt, Rat.den_natCast, if_true, Rat.num_natCast, pure,
      Except.pure, Except.ok.injEq] at h
    obtain ⟨k, hk⟩ := Int.eq_ofNat_of_zero_le
      (mul_nonneg (parseDecimal_ok hv).2 (Int.natCast_nonneg n))
    refine ⟨d.value, ⟨d, hv, rfl⟩, ⟨k, d.scale⟩, ?_, ?_⟩
    · rw [← h, hk, parseDecimal_formatDecimal]
    · have := FixedPoint.value_mul d.coefficient n d.scale
      rw [hk] at this
      rw [this]; simp [FixedPoint.value]

theorem exists_multiplyDecimal {value : String} (h : isDecimal value = true) (n : ℕ) :
    ∃ product, multiplyDecimal value n = .ok product := by
  obtain ⟨d, hd⟩ := exists_parseDecimal h
  simp [multiplyDecimal, hd, bind, Except.bind, toBigInt, pure, Except.pure]

/-- The digits of a natural denote it. -/
theorem denotes_repr (n : ℕ) : Denotes (Nat.repr n) n := by
  have hlist : Nat.repr n = String.ofList (Nat.toDigits 10 n) := Nat.repr_eq_ofList_toDigits
  refine ⟨⟨n, 0⟩, ?_, by simp [FixedPoint.value]⟩
  rw [hlist, parseDecimal_whole (isWhole_toDigits n), Nat.ofDigitChars_ten_toDigits]

theorem denotes_zero : Denotes "0" 0 := by exact_mod_cast denotes_repr 0

/-- The text of a safe natural denotes it. -/
theorem denotes_numberText (engine : Engine) {n : ℕ} (h : n ≤ Double.maxSafeInteger) :
    Denotes (numberText engine n) n := by
  rw [numberText_natCast engine h]; exact denotes_repr n

end Oati.TypeScript

import Mathlib.Algebra.Order.Field.Rat
import Mathlib.Algebra.Order.Field.Power
import Mathlib.Tactic.Ring
import Mathlib.Tactic.FieldSimp
import Mathlib.Tactic.Positivity
import Mathlib.Tactic.Linarith
import Mathlib.Data.Nat.Digits.Lemmas

/-!
# Decimal numerals and fixed-point numbers

Two small theories that meet in the last section:

* **Digit strings**: `IsWhole` (a nonempty digit string without a superfluous leading zero)
  and `IsFraction` (a nonempty digit string), with the reading `Nat.ofDigitChars 10`.
* **Fixed-point numbers**: an integer `coefficient` over a power of ten, with the rational
  `value` it denotes. Bringing two of them to the larger scale (`align`) compares and adds the
  denoted rationals exactly.
* **Printing**: padding the digits of a natural to more than `scale` characters and cutting
  off the last `scale` of them gives a whole part and a fraction that read back to it.
-/

namespace Numeral

/-! ### Digit strings -/

/-- A whole part: `0`, or digits of which the first is not `0`. -/
def IsWhole (cs : List Char) : Bool :=
  match cs with
  | [] => false
  | [c] => c.isDigit
  | c :: rest => c.isDigit && c != '0' && rest.all Char.isDigit

/-- A fraction part: at least one digit. -/
def IsFraction (cs : List Char) : Bool := !cs.isEmpty && cs.all Char.isDigit

theorem isDigit_of_isWhole {cs : List Char} (h : IsWhole cs) : ∀ c ∈ cs, c.isDigit := by
  match cs with
  | [] => simp
  | [c] => simpa [IsWhole] using h
  | c :: d :: rest =>
    simp only [IsWhole, Bool.and_eq_true, List.all_eq_true] at h
    simp only [List.mem_cons]
    rintro x (rfl | hx)
    · exact h.1.1
    · exact h.2 x (by simpa using hx)

theorem isWhole_of_head {cs : List Char} (hne : cs ≠ []) (hd : ∀ c ∈ cs, c.isDigit)
    (h0 : cs.head? ≠ some '0') : IsWhole cs := by
  match cs with
  | [] => exact absurd rfl hne
  | [c] => simpa [IsWhole] using hd
  | c :: d :: rest =>
    have hc : c ≠ '0' := by simpa using h0
    simp only [List.mem_cons, forall_eq_or_imp] at hd
    simpa [IsWhole, hc] using hd

/-- A digit is not the decimal point. -/
theorem ne_dot_of_isDigit {c : Char} (h : c.isDigit) : c ≠ '.' := by
  rintro rfl; simp at h

theorem dot_notMem_of_isDigit {cs : List Char} (h : ∀ c ∈ cs, c.isDigit) : '.' ∉ cs :=
  fun hmem => ne_dot_of_isDigit (h _ hmem) rfl

/-- The decimal digits of a natural, most significant first. -/
theorem isDigit_of_mem_toDigits {n : ℕ} : ∀ c ∈ Nat.toDigits 10 n, c.isDigit :=
  fun _ hc => Nat.isDigit_of_mem_toDigits (by norm_num) (by norm_num) hc

/-- The first digit of a positive natural is not `0`. -/
theorem head?_toDigits_ne_zero {n : ℕ} (hn : 0 < n) : (Nat.toDigits 10 n).head? ≠ some '0' := by
  induction n using Nat.base_induction 10 (by norm_num) with
  | single m hm =>
    rw [Nat.toDigits_of_lt_base hm]
    simpa using hn.ne'
  | digit m k hk hm ih =>
    rw [← Nat.toDigits_append_toDigits (by norm_num) hm hk,
      List.head?_append_of_ne_nil _ Nat.toDigits_ne_nil]
    exact ih hm

theorem isWhole_toDigits (n : ℕ) : IsWhole (Nat.toDigits 10 n) := by
  rcases Nat.eq_zero_or_pos n with rfl | hn
  · rw [Nat.toDigits_zero]; rfl
  · exact isWhole_of_head Nat.toDigits_ne_nil isDigit_of_mem_toDigits (head?_toDigits_ne_zero hn)

/-- A digit is read as one and written back. -/
theorem toDigits_digit {c : Char} (h : c.isDigit) :
    Nat.toDigits 10 (c.toNat - '0'.toNat) = [c] ∧ c.toNat - '0'.toNat < 10 := by
  have hc : ∃ n < 10, c = Char.ofNat (48 + n) := by
    simp only [Char.isDigit, ge_iff_le, Bool.and_eq_true, decide_eq_true_eq] at h
    have h1 : 48 ≤ c.toNat := h.1
    have h2 : c.toNat ≤ 57 := h.2
    refine ⟨c.toNat - 48, by omega, ?_⟩
    rw [Nat.add_sub_cancel' h1, Char.ofNat_toNat]
  obtain ⟨n, hn, rfl⟩ := hc
  interval_cases n <;> exact ⟨rfl, by decide⟩

/-- A whole part is the digits of its value. -/
theorem toDigits_ofDigitChars {cs : List Char} (h : IsWhole cs) :
    Nat.toDigits 10 (Nat.ofDigitChars 10 cs 0) = cs := by
  have hpositive : ∀ ds : List Char, ds ≠ [] → (∀ c ∈ ds, c.isDigit) → ds.head? ≠ some '0' →
      Nat.toDigits 10 (Nat.ofDigitChars 10 ds 0) = ds := by
    intro ds
    induction ds using List.reverseRecOn with
    | nil => exact fun hne => absurd rfl hne
    | append_singleton init c ih =>
      intro _ hdigits hhead
      obtain ⟨hc, hlt⟩ := toDigits_digit (hdigits c (by simp))
      rw [Nat.ofDigitChars_append, Nat.ofDigitChars_cons, Nat.ofDigitChars_nil]
      rcases List.eq_nil_or_concat' init with rfl | hinit
      · simpa using hc
      · have hne : init ≠ [] := by
          obtain ⟨_, _, rfl⟩ := hinit
          simp
        have hhead' : init.head? ≠ some '0' := by
          rwa [List.head?_append_of_ne_nil _ hne] at hhead
        have hinit := ih hne (fun d hd => hdigits d (by simp [hd])) hhead'
        have hpos : 0 < Nat.ofDigitChars 10 init 0 := by
          rcases Nat.eq_zero_or_pos (Nat.ofDigitChars 10 init 0) with hzero | hpos
          · rw [hzero, Nat.toDigits_zero] at hinit
            rw [← hinit] at hhead'
            exact absurd rfl hhead'
          · exact hpos
        rw [← Nat.toDigits_append_toDigits (by norm_num) hpos hlt, hinit, hc]
  by_cases hzero : cs.head? = some '0'
  · match cs, h, hzero with
    | [c], _, hzero =>
      obtain rfl : c = '0' := by simpa using hzero
      rfl
    | c :: d :: rest, h, hzero =>
      obtain rfl : c = '0' := by simpa using hzero
      simp [IsWhole] at h
  · refine hpositive cs ?_ (isDigit_of_isWhole h) hzero
    rintro rfl
    cases h

/-! ### Fixed-point numbers -/

/-- The number `coefficient / 10 ^ scale`. -/
structure FixedPoint where
  coefficient : ℤ
  scale : ℕ
  deriving DecidableEq, Repr

namespace FixedPoint

/-- The rational a fixed-point number denotes. -/
def value (d : FixedPoint) : ℚ := d.coefficient / 10 ^ d.scale

/-- Raising the scale multiplies the coefficient and keeps the value. -/
theorem value_rescale (d : FixedPoint) {scale : ℕ} (h : d.scale ≤ scale) :
    (⟨d.coefficient * 10 ^ (scale - d.scale), scale⟩ : FixedPoint).value = d.value := by
  have hpow : (10 : ℚ) ^ scale = 10 ^ (scale - d.scale) * 10 ^ d.scale := by
    rw [← pow_add, Nat.sub_add_cancel h]
  simp only [value, hpow]
  push_cast
  field_simp

/-- At one scale, comparing coefficients compares values. -/
theorem value_le_value_iff {a b : ℤ} {scale : ℕ} :
    (⟨a, scale⟩ : FixedPoint).value ≤ (⟨b, scale⟩ : FixedPoint).value ↔ a ≤ b := by
  simp only [value]
  rw [div_le_div_iff_of_pos_right (by positivity)]
  exact_mod_cast Iff.rfl

/-- At one scale, equal values have equal coefficients. -/
theorem value_eq_value_iff {a b : ℤ} {scale : ℕ} :
    (⟨a, scale⟩ : FixedPoint).value = (⟨b, scale⟩ : FixedPoint).value ↔ a = b := by
  simp only [le_antisymm_iff, value_le_value_iff]

/-- At one scale, adding coefficients adds values. -/
theorem value_add (a b : ℤ) (scale : ℕ) : (⟨a + b, scale⟩ : FixedPoint).value
    = (⟨a, scale⟩ : FixedPoint).value + (⟨b, scale⟩ : FixedPoint).value := by
  simp only [value]; push_cast; ring

theorem value_mul (a n : ℤ) (scale : ℕ) :
    (⟨a * n, scale⟩ : FixedPoint).value = (⟨a, scale⟩ : FixedPoint).value * n := by
  simp only [value]; push_cast; ring

theorem value_nonneg {d : FixedPoint} (h : 0 ≤ d.coefficient) : 0 ≤ d.value :=
  div_nonneg (by exact_mod_cast h) (by positivity)

/-- The coefficients of two numbers at the larger of their scales. -/
def align (left right : FixedPoint) : ℤ × ℤ × ℕ :=
  let scale := max left.scale right.scale
  (left.coefficient * 10 ^ (scale - left.scale), right.coefficient * 10 ^ (scale - right.scale),
    scale)

theorem value_align_left (left right : FixedPoint) :
    (⟨(align left right).1, (align left right).2.2⟩ : FixedPoint).value = left.value :=
  value_rescale left (le_max_left _ _)

theorem value_align_right (left right : FixedPoint) :
    (⟨(align left right).2.1, (align left right).2.2⟩ : FixedPoint).value = right.value :=
  value_rescale right (le_max_right _ _)

/-- Aligned coefficients are ordered as the denoted rationals. -/
theorem align_le_iff (left right : FixedPoint) :
    (align left right).1 ≤ (align left right).2.1 ↔ left.value ≤ right.value := by
  rw [← value_align_left left right, ← value_align_right left right, value_le_value_iff]

theorem align_eq_iff (left right : FixedPoint) :
    (align left right).1 = (align left right).2.1 ↔ left.value = right.value := by
  rw [← value_align_left left right, ← value_align_right left right, value_eq_value_iff]

/-- The sum of aligned coefficients denotes the sum. -/
theorem value_align_add (left right : FixedPoint) :
    (⟨(align left right).1 + (align left right).2.1, (align left right).2.2⟩ : FixedPoint).value
      = left.value + right.value := by
  rw [value_add, value_align_left, value_align_right]

theorem align_add_nonneg {left right : FixedPoint} (hl : 0 ≤ left.coefficient)
    (hr : 0 ≤ right.coefficient) : 0 ≤ (align left right).1 + (align left right).2.1 := by
  simp only [align]; positivity

end FixedPoint

/-! ### Printing at a scale -/

/-- The digits of `n`, padded on the left with zeros to more than `scale` characters. -/
def paddedDigits (n scale : ℕ) : List Char := (Nat.toDigits 10 n).leftpad (scale + 1) '0'

theorem isDigit_of_mem_paddedDigits {n scale : ℕ} : ∀ c ∈ paddedDigits n scale, c.isDigit := by
  intro c hc
  rcases List.mem_append.mp hc with h | h
  · rw [List.eq_of_mem_replicate h]; rfl
  · exact isDigit_of_mem_toDigits c h

theorem scale_lt_length_paddedDigits (n scale : ℕ) : scale < (paddedDigits n scale).length := by
  simp only [paddedDigits, List.leftpad, List.length_append, List.length_replicate]; omega

/-- Reading back the padded digits gives `n`. -/
theorem ofDigitChars_paddedDigits (n scale : ℕ) :
    Nat.ofDigitChars 10 (paddedDigits n scale) 0 = n := by
  simp [paddedDigits, List.leftpad, Nat.ofDigitChars_append]

/-- The part before the last `scale` padded digits is a whole part: either padding filled it
with the single `0`, or it starts with the first digit of `n`. -/
theorem isWhole_take_paddedDigits (n scale : ℕ) :
    IsWhole ((paddedDigits n scale).take ((paddedDigits n scale).length - scale)) := by
  set k := (paddedDigits n scale).length - scale with hk
  have hkpos : 0 < k := Nat.sub_pos_of_lt (scale_lt_length_paddedDigits n scale)
  rcases Nat.lt_or_ge scale (Nat.toDigits 10 n).length with hlong | hshort
  · -- no padding: the digits of `n` are already longer than the scale
    have hpad : paddedDigits n scale = Nat.toDigits 10 n := by
      simp [paddedDigits, List.leftpad, Nat.sub_eq_zero_of_le (Nat.succ_le_of_lt hlong)]
    rw [hpad]
    have hne : (Nat.toDigits 10 n).take k ≠ [] := by
      simp [List.take_eq_nil_iff, hkpos.ne']
    rcases Nat.eq_zero_or_pos n with rfl | hn
    · have hk1 : k = 1 := by
        rw [hk, hpad, show scale = 0 by simpa [Nat.toDigits_zero] using hlong]; simp
      rw [hk1, Nat.toDigits_zero]; rfl
    · refine isWhole_of_head hne (fun c hc => isDigit_of_mem_toDigits c (List.mem_of_mem_take hc)) ?_
      rw [List.head?_take, if_neg hkpos.ne']
      exact head?_toDigits_ne_zero hn
  · -- padded to exactly `scale + 1` characters, of which the first is a padding zero
    have hlen : (paddedDigits n scale).length = scale + 1 := by
      simp only [paddedDigits, List.leftpad, List.length_append, List.length_replicate]; omega
    have hk1 : k = 1 := by omega
    obtain ⟨m, hm⟩ : ∃ m, scale + 1 - (Nat.toDigits 10 n).length = m + 1 :=
      ⟨scale - (Nat.toDigits 10 n).length, by omega⟩
    rw [hk1, paddedDigits, List.leftpad, hm, List.replicate_succ]
    rfl

/-- The last `scale` padded digits are a fraction part when the scale is positive. -/
theorem isFraction_drop_paddedDigits (n : ℕ) {scale : ℕ} (hs : scale ≠ 0) :
    IsFraction ((paddedDigits n scale).drop ((paddedDigits n scale).length - scale)) := by
  have hlt := scale_lt_length_paddedDigits n scale
  have hne : (paddedDigits n scale).drop ((paddedDigits n scale).length - scale) ≠ [] := by
    rw [Ne, List.drop_eq_nil_iff]; omega
  have hall : ∀ c ∈ (paddedDigits n scale).drop ((paddedDigits n scale).length - scale),
      c.isDigit := fun c hc => isDigit_of_mem_paddedDigits c (List.mem_of_mem_drop hc)
  simpa [IsFraction, hne] using hall

theorem length_drop_paddedDigits (n scale : ℕ) :
    ((paddedDigits n scale).drop ((paddedDigits n scale).length - scale)).length = scale := by
  have := scale_lt_length_paddedDigits n scale
  rw [List.length_drop]; omega

end Numeral

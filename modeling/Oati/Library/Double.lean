import Mathlib.Algebra.Order.Floor.Semifield
import Mathlib.Algebra.Order.Ring.Int
import Mathlib.Data.Int.Log
import Mathlib.Data.Nat.Log
import Mathlib.Data.Rat.Floor
import Mathlib.Tactic.FieldSimp
import Mathlib.Tactic.Positivity
import Mathlib.Tactic.Ring

/-!
# Double-precision numbers

The integers a double represents exactly are all those up to `2 ^ 53` in absolute value; a
larger one is replaced by the nearest multiple of its unit in the last place, ties to the even
multiple. `roundInt` is that replacement, so that `roundInt (a + b)` is the double-precision sum
of two integers (overflow to infinity apart). `round` is the same for rational numbers.
-/

namespace Double

/-- Every integer up to this one in absolute value is a double. -/
def exactBound : ℕ := 2 ^ 53

/-- The largest integer `n` such that `n` and `n + 1` are told apart. -/
def maxSafeInteger : ℕ := 2 ^ 53 - 1

/-- The double nearest to a natural, ties to even. -/
def roundNat (n : ℕ) : ℕ :=
  if n ≤ exactBound then n
  else
    let ulp := 2 ^ (Nat.log2 n - 52)
    let q := n / ulp
    let r := n % ulp
    if 2 * r < ulp ∨ (2 * r = ulp ∧ q % 2 = 0) then q * ulp else (q + 1) * ulp

/-- The double nearest to an integer, ties to even. -/
def roundInt (z : ℤ) : ℤ := if 0 ≤ z then roundNat z.toNat else -roundNat (-z).toNat

theorem roundNat_of_le {n : ℕ} (h : n ≤ exactBound) : roundNat n = n := by
  simp [roundNat, h]

theorem roundInt_of_natAbs_le {z : ℤ} (h : z.natAbs ≤ exactBound) : roundInt z = z := by
  rcases Int.le_total 0 z with hz | hz
  · rw [roundInt, if_pos hz, roundNat_of_le (by omega)]; omega
  · rcases eq_or_lt_of_le hz with rfl | hneg
    · rfl
    · rw [roundInt, if_neg (by omega), roundNat_of_le (by omega)]; omega

/-- Rounding does not cross the last exactly representable bound. -/
theorem exactBound_le_roundNat {n : ℕ} (h : exactBound ≤ n) : exactBound ≤ roundNat n := by
  rcases eq_or_lt_of_le h with rfl | hlt
  · rw [roundNat_of_le le_rfl]
  · rw [roundNat, if_neg (by omega)]
    set ulp := 2 ^ (Nat.log2 n - 52) with hulp
    have hn : n ≠ 0 := by simp only [exactBound] at hlt; omega
    have hlog : 53 ≤ Nat.log2 n := (Nat.le_log2 hn).mpr (by simpa [exactBound] using h)
    -- the quotient by the unit in the last place keeps the 53 leading bits
    have hq : 2 ^ 52 ≤ n / ulp := by
      rw [Nat.le_div_iff_mul_le (by positivity), hulp, ← pow_add]
      rw [show 52 + (Nat.log2 n - 52) = Nat.log2 n by omega]
      exact Nat.log2_self_le hn
    have hu : 2 ≤ ulp := by
      rw [hulp]
      calc 2 = 2 ^ 1 := rfl
        _ ≤ 2 ^ (Nat.log2 n - 52) := Nat.pow_le_pow_right (by norm_num) (by omega)
    have hmul : exactBound ≤ n / ulp * ulp := by
      calc exactBound = 2 ^ 52 * 2 := by norm_num [exactBound]
        _ ≤ n / ulp * ulp := Nat.mul_le_mul hq hu
    dsimp only
    split_ifs
    · exact hmul
    · exact hmul.trans (Nat.mul_le_mul_right _ (Nat.le_succ _))

/-- A result below the exact bound was not rounded. -/
theorem roundNat_eq_of_lt {n : ℕ} (h : roundNat n < exactBound) : roundNat n = n := by
  rcases Nat.lt_or_ge exactBound n with hlt | hle
  · exact absurd (exactBound_le_roundNat hlt.le) (by omega)
  · exact roundNat_of_le hle

/-! ### Rational numbers -/

/-- The unit in the last place of the doubles next to a positive number. -/
def ulp (q : ℚ) : ℚ := 2 ^ max (Int.log 2 q - 52) (-1074)

/-- The multiple of its unit in the last place that is nearest to a non-negative number, ties to
the even multiple. -/
def roundNonneg (q : ℚ) : ℚ :=
  let n := ⌊q / ulp q⌋₊
  let r := q / ulp q - n
  if 2 * r < 1 ∨ (2 * r = 1 ∧ n % 2 = 0) then n * ulp q else (n + 1 : ℕ) * ulp q

/-- The double nearest to a rational number, ties to even. -/
def round (q : ℚ) : ℚ := if 0 ≤ q then roundNonneg q else -roundNonneg (-q)

theorem ulp_pos (q : ℚ) : 0 < ulp q := zpow_pos (by norm_num) _

/-- A multiple of its unit in the last place is a double. -/
theorem roundNonneg_of_multiple {q : ℚ} {m : ℕ} (h : q = m * ulp q) : roundNonneg q = q := by
  have hpos := ulp_pos q
  have hdiv : q / ulp q = m := by rw [div_eq_iff hpos.ne']; exact h
  have hfloor : ⌊q / ulp q⌋₊ = m := by rw [hdiv, Nat.floor_natCast]
  rw [roundNonneg]
  simp only [hfloor]
  rw [if_pos (Or.inl (by rw [hdiv]; norm_num))]
  exact h.symm

theorem roundNonneg_natCast (n : ℕ) : roundNonneg n = roundNat n := by
  rcases Nat.lt_or_ge exactBound n with hlarge | hsmall
  · have hn : n ≠ 0 := by rintro rfl; exact absurd hlarge (by decide)
    have hlog : 53 ≤ Nat.log2 n := (Nat.le_log2 hn).mpr (by simpa [exactBound] using hlarge.le)
    have hulp : ulp n = (2 ^ (Nat.log2 n - 52) : ℕ) := by
      rw [ulp, Int.log_natCast, ← Nat.log2_eq_log_two, max_eq_left (by omega)]
      rw [show ((Nat.log2 n : ℤ) - 52) = ((Nat.log2 n - 52 : ℕ) : ℤ) by omega, zpow_natCast]
      norm_num
    rw [roundNonneg, roundNat, if_neg hlarge.not_ge]
    simp only [hulp]
    generalize hu : 2 ^ (Nat.log2 n - 52) = u
    have hu0 : 0 < u := by rw [← hu]; positivity
    rw [Nat.floor_div_eq_div]
    have hr : (n : ℚ) / u - (n / u : ℕ) = (n % u : ℕ) / u := by
      have h : (n : ℚ) = u * (n / u : ℕ) + (n % u : ℕ) := by
        exact_mod_cast (Nat.div_add_mod n u).symm
      have hu' : (u : ℚ) ≠ 0 := by positivity
      field_simp
      linarith
    rw [hr]
    have hlt : 2 * (((n % u : ℕ) : ℚ) / u) < 1 ↔ 2 * (n % u) < u := by
      rw [← mul_div_assoc, div_lt_one (by positivity)]
      exact_mod_cast Iff.rfl
    have heq : 2 * (((n % u : ℕ) : ℚ) / u) = 1 ↔ 2 * (n % u) = u := by
      rw [← mul_div_assoc, div_eq_one_iff_eq (by positivity)]
      exact_mod_cast Iff.rfl
    rw [if_congr (or_congr hlt (and_congr_left' heq)) rfl rfl]
    split_ifs <;> push_cast <;> rfl
  · rw [roundNat_of_le hsmall]
    rcases hsmall.eq_or_lt with rfl | hlt
    · refine roundNonneg_of_multiple (m := 2 ^ 52) ?_
      have hlog : Nat.log 2 exactBound = 53 := Nat.log_pow (by norm_num) 53
      rw [ulp, Int.log_natCast, hlog]
      norm_num [exactBound]
    · have hlog : Nat.log 2 n < 53 := Nat.log_lt_of_lt_pow' (by norm_num) hlt
      obtain ⟨k, hk⟩ : ∃ k : ℕ, max ((Nat.log 2 n : ℤ) - 52) (-1074) = -k :=
        Int.exists_eq_neg_ofNat (max_le (by omega) (by norm_num))
      refine roundNonneg_of_multiple (m := n * 2 ^ k) ?_
      rw [ulp, Int.log_natCast, hk, zpow_neg, zpow_natCast]
      push_cast
      field_simp

/-- On integers, rounding is that of `roundInt`. -/
theorem round_intCast (z : ℤ) : round z = roundInt z := by
  rw [round, roundInt]
  have hcast : (0 : ℚ) ≤ z ↔ 0 ≤ z := Int.cast_nonneg_iff
  rw [if_congr hcast rfl rfl]
  split_ifs with h
  · obtain ⟨n, rfl⟩ := Int.eq_ofNat_of_zero_le h
    exact_mod_cast roundNonneg_natCast n
  · obtain ⟨n, hn⟩ := Int.eq_ofNat_of_zero_le (show 0 ≤ -z by omega)
    have hq : (-z : ℚ) = n := by exact_mod_cast hn
    rw [hq, hn, roundNonneg_natCast]
    push_cast
    rfl

/-- A small integer is a double. -/
theorem round_intCast_of_natAbs_le {z : ℤ} (h : z.natAbs ≤ exactBound) : round z = z := by
  rw [round_intCast, roundInt_of_natAbs_le h]

end Double

import Mathlib.FieldTheory.Finite.Basic
import Mathlib.Tactic.LinearCombination

/-!
# Residues of integers

Between integers that are reduced modulo a number and the residues of Mathlib: the least residue
of an integer, inverses and square roots by exponentiation, and the parity of a residue and of its
negative.
-/

namespace Residue

/-- The least residue of an integer, from its class. -/
theorem emod_eq_val {n : ℕ} [NeZero n] {a : ℤ} {x : ZMod n} (h : (a : ZMod n) = x) :
    a % n = x.val := by
  rw [← h, ZMod.val_intCast]

theorem emod_eq_emod_iff {n : ℕ} {a b : ℤ} : a % n = b % n ↔ (a : ZMod n) = b :=
  (ZMod.intCast_eq_intCast_iff' a b n).symm

theorem emod_eq_zero_iff {n : ℕ} {a : ℤ} : a % n = 0 ↔ (a : ZMod n) = 0 := by
  rw [ZMod.intCast_zmod_eq_zero_iff_dvd, Int.dvd_iff_emod_eq_zero]

/-- An integer in range is the least residue of its class. -/
theorem val_of_range {n : ℕ} [NeZero n] {a : ℤ} (h : 0 ≤ a) (hlt : a < n) :
    ((a : ZMod n).val : ℤ) = a := by
  rw [ZMod.val_intCast, Int.emod_eq_of_lt h hlt]

section Prime

variable {p : ℕ} [Fact p.Prime]

/-- The inverse by exponentiation; the inverse of zero is zero. -/
theorem pow_sub_two (hp : 2 < p) (a : ZMod p) : a ^ (p - 2) = a⁻¹ := by
  by_cases ha : a = 0
  · rw [ha, inv_zero, zero_pow (by omega)]
  · refine eq_inv_of_mul_eq_one_left ?_
    rw [← pow_succ, show p - 2 + 1 = p - 1 by omega]
    exact ZMod.pow_card_sub_one_eq_one ha

/-- The candidate for a square root modulo a prime of the form `8 k + 5`: it squares to the number
or to its negative, if that is a square. -/
theorem sq_candidate (hp : p % 8 = 5) {a : ZMod p} (ha : IsSquare a) :
    (a ^ ((p + 3) / 8)) ^ 2 = a ∨ (a ^ ((p + 3) / 8)) ^ 2 = -a := by
  obtain ⟨b, rfl⟩ := ha
  by_cases hb : b = 0
  · left
    rw [hb, mul_zero, zero_pow (by omega), zero_pow (by decide)]
  · have hfermat : b ^ (p - 1) = 1 := ZMod.pow_card_sub_one_eq_one hb
    have hsplit : ((b * b) ^ ((p + 3) / 8)) ^ 2 = b * b * b ^ ((p - 1) / 2) := by
      rw [← sq, ← pow_mul, ← pow_mul, ← pow_add]
      congr 1
      omega
    have hsq : (b ^ ((p - 1) / 2)) ^ 2 = 1 := by
      rw [← pow_mul, show (p - 1) / 2 * 2 = p - 1 by omega, hfermat]
    rw [hsplit]
    rcases sq_eq_sq_iff_eq_or_eq_neg.mp (hsq.trans (one_pow 2).symm) with h | h
    · left
      rw [h, mul_one]
    · right
      rw [h, mul_neg_one]

/-- A residue and its negative have different parities, unless it is zero. -/
theorem val_neg_add_val {x : ZMod p} (hx : x ≠ 0) : (-x).val + x.val = p := by
  have hlt := x.val_lt
  rw [ZMod.neg_val, if_neg hx]
  omega

end Prime

end Residue

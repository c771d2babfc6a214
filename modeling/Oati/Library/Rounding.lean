import Mathlib.Tactic.Linarith
import Mathlib.Tactic.NormNum
import Oati.Library.Double

/-!
# The order of doubles

Rounding to the nearest double is monotone and leaves the doubles where they are.

* `nearestEven`: the nearest natural, ties to even. A number is rounded to that many of its unit
  in the last place.
* `round_mono`: two numbers are rounded in their order. Where the units differ, a power of two
  lies between them.
* `round_dyadic`: an integer of 53 bits, scaled by a power of two, is a double.
* `round_round`: a rounded number is a double.
* `IsFinite`: the numbers that are finite doubles.
-/

namespace Double

/-! ### The nearest natural -/

/-- The natural nearest to a non-negative number, ties to even. -/
def nearestEven (x : ℚ) : ℕ :=
  if 2 * (x - ⌊x⌋₊) < 1 ∨ (2 * (x - ⌊x⌋₊) = 1 ∧ ⌊x⌋₊ % 2 = 0) then ⌊x⌋₊ else ⌊x⌋₊ + 1

theorem roundNonneg_eq_nearestEven (q : ℚ) : roundNonneg q = nearestEven (q / ulp q) * ulp q := by
  unfold roundNonneg nearestEven
  dsimp only
  split_ifs <;> rfl

theorem nearestEven_natCast (n : ℕ) : nearestEven n = n := by
  rw [nearestEven, Nat.floor_natCast, sub_self, if_pos (Or.inl (by norm_num))]

theorem floor_le_nearestEven (x : ℚ) : ⌊x⌋₊ ≤ nearestEven x := by
  unfold nearestEven
  split_ifs
  · exact le_rfl
  · exact Nat.le_succ _

theorem nearestEven_le_floor_succ (x : ℚ) : nearestEven x ≤ ⌊x⌋₊ + 1 := by
  unfold nearestEven
  split_ifs
  · exact Nat.le_succ _
  · exact le_rfl

/-- The nearest naturals of two numbers are in their order. -/
theorem nearestEven_mono {x y : ℚ} (h : x ≤ y) : nearestEven x ≤ nearestEven y := by
  rcases (Nat.floor_mono h).eq_or_lt with hfloor | hfloor
  · unfold nearestEven
    rw [← hfloor]
    -- with the same integer part, what rounds the larger number down rounds the smaller one down
    split_ifs with hx hy hy
    · exact le_rfl
    · exact Nat.le_succ _
    · refine absurd ?_ hx
      rcases hy with hlt | ⟨heq, heven⟩
      · exact Or.inl (by linarith)
      · rcases h.eq_or_lt with rfl | hxy
        · exact Or.inr ⟨heq, heven⟩
        · exact Or.inl (by linarith)
    · exact le_rfl
  · calc nearestEven x ≤ ⌊x⌋₊ + 1 := nearestEven_le_floor_succ x
      _ ≤ ⌊y⌋₊ := hfloor
      _ ≤ nearestEven y := floor_le_nearestEven y

/-! ### Monotonicity -/

/-- The exponent of the unit in the last place. -/
def ulpExponent (q : ℚ) : ℤ := max (Int.log 2 q - 52) (-1074)

theorem ulp_eq (q : ℚ) : ulp q = 2 ^ ulpExponent q := rfl

/-- A power of two is a multiple of every unit that is no larger. -/
theorem zpow_eq_natCast_mul {u e : ℤ} (h : u ≤ e) :
    (2 : ℚ) ^ e = (2 ^ (e - u).toNat : ℕ) * 2 ^ u := by
  have hsum : ((e - u).toNat : ℤ) + u = e := by omega
  rw [Nat.cast_pow, Nat.cast_ofNat, ← zpow_natCast, ← zpow_add₀ (by norm_num), hsum]

theorem roundNonneg_nonneg (q : ℚ) : 0 ≤ roundNonneg q := by
  rw [roundNonneg_eq_nearestEven]
  exact mul_nonneg (Nat.cast_nonneg _) (ulp_pos q).le

/-- A number below a multiple of its unit is not rounded beyond it. -/
theorem roundNonneg_le_of_le_multiple {q : ℚ} {n : ℕ} (h : q ≤ n * ulp q) :
    roundNonneg q ≤ n * ulp q := by
  have hdiv : q / ulp q ≤ n := (div_le_iff₀ (ulp_pos q)).mpr h
  have hnearest := nearestEven_mono hdiv
  rw [nearestEven_natCast] at hnearest
  rw [roundNonneg_eq_nearestEven]
  exact mul_le_mul_of_nonneg_right (by exact_mod_cast hnearest) (ulp_pos q).le

/-- A number above a multiple of its unit is not rounded below it. -/
theorem le_roundNonneg_of_multiple_le {q : ℚ} {n : ℕ} (h : n * ulp q ≤ q) :
    n * ulp q ≤ roundNonneg q := by
  have hdiv : (n : ℚ) ≤ q / ulp q := (le_div_iff₀ (ulp_pos q)).mpr h
  have hnearest := nearestEven_mono hdiv
  rw [nearestEven_natCast] at hnearest
  rw [roundNonneg_eq_nearestEven]
  exact mul_le_mul_of_nonneg_right (by exact_mod_cast hnearest) (ulp_pos q).le

/-- Positive numbers are rounded in their order. -/
theorem roundNonneg_mono {p q : ℚ} (hp : 0 < p) (h : p ≤ q) : roundNonneg p ≤ roundNonneg q := by
  have hq : 0 < q := hp.trans_le h
  have hlog : Int.log 2 p ≤ Int.log 2 q := Int.log_mono_right hp h
  by_cases hunit : ulpExponent p = ulpExponent q
  · have hulp : ulp p = ulp q := by rw [ulp_eq, ulp_eq, hunit]
    rw [roundNonneg_eq_nearestEven, roundNonneg_eq_nearestEven, hulp]
    have hdiv : p / ulp q ≤ q / ulp q := div_le_div_of_nonneg_right h (ulp_pos q).le
    exact mul_le_mul_of_nonneg_right (by exact_mod_cast nearestEven_mono hdiv) (ulp_pos q).le
  · -- the power of two below `q` is a multiple of both units
    unfold ulpExponent at hunit
    have hlt : Int.log 2 p < Int.log 2 q := by omega
    have hbelow : p ≤ (2 : ℚ) ^ Int.log 2 q := by
      have hsucc := Int.lt_zpow_succ_log_self (by norm_num : 1 < 2) p
      refine hsucc.le.trans (zpow_le_zpow_right₀ (by norm_num) ?_)
      omega
    have habove : (2 : ℚ) ^ Int.log 2 q ≤ q := Int.zpow_log_le_self (by norm_num) hq
    have hpunit := zpow_eq_natCast_mul (u := ulpExponent p) (e := Int.log 2 q)
      (by unfold ulpExponent; omega)
    have hqunit := zpow_eq_natCast_mul (u := ulpExponent q) (e := Int.log 2 q)
      (by unfold ulpExponent; omega)
    calc roundNonneg p ≤ 2 ^ Int.log 2 q := by
          rw [hpunit] at hbelow ⊢
          exact roundNonneg_le_of_le_multiple hbelow
      _ ≤ roundNonneg q := by
          rw [hqunit] at habove ⊢
          exact le_roundNonneg_of_multiple_le habove

theorem round_of_nonneg {q : ℚ} (h : 0 ≤ q) : round q = roundNonneg q := if_pos h

theorem round_zero : round 0 = 0 := by
  rw [round_of_nonneg le_rfl]
  exact roundNonneg_of_multiple (m := 0) (by simp)

theorem round_neg (q : ℚ) : round (-q) = -round q := by
  rcases lt_trichotomy q 0 with h | rfl | h
  · rw [round_of_nonneg (by linarith), round, if_neg (by linarith), neg_neg]
  · rw [neg_zero, round_zero, neg_zero]
  · rw [round, if_neg (by linarith), neg_neg, round_of_nonneg h.le]

theorem round_nonneg {q : ℚ} (h : 0 ≤ q) : 0 ≤ round q := by
  rw [round_of_nonneg h]
  exact roundNonneg_nonneg q

/-- Numbers are rounded in their order. -/
theorem round_mono {p q : ℚ} (h : p ≤ q) : round p ≤ round q := by
  have hpos : ∀ {a b : ℚ}, 0 ≤ a → a ≤ b → round a ≤ round b := by
    intro a b ha hab
    rcases ha.eq_or_lt with rfl | ha
    · rw [round_zero]
      exact round_nonneg hab
    · rw [round_of_nonneg ha.le, round_of_nonneg (ha.le.trans hab)]
      exact roundNonneg_mono ha hab
  rcases le_total 0 p with hp | hp
  · exact hpos hp h
  · have hneg : round p = -round (-p) := by rw [round_neg, neg_neg]
    rcases le_total 0 q with hq | hq
    · have h1 := round_nonneg (neg_nonneg.mpr hp)
      have h2 := round_nonneg hq
      linarith
    · have h1 := hpos (neg_nonneg.mpr hq) (neg_le_neg h)
      rw [round_neg, round_neg] at h1
      linarith

theorem round_natCast (n : ℕ) : round n = roundNat n := by
  rw [round_of_nonneg (Nat.cast_nonneg n), roundNonneg_natCast]

theorem roundNat_mono {m n : ℕ} (h : m ≤ n) : roundNat m ≤ roundNat n := by
  have hround := round_mono (Nat.cast_le.mpr h : (m : ℚ) ≤ n)
  rw [round_natCast, round_natCast] at hround
  exact_mod_cast hround

/-! ### Doubles -/

/-- An integer of 53 bits scaled by a power of two is a double. -/
theorem round_dyadic {m : ℕ} {e : ℤ} (hm : m < 2 ^ 53) (he : -1074 ≤ e) :
    round (m * 2 ^ e) = m * 2 ^ e := by
  have hscale : (0 : ℚ) < 2 ^ e := zpow_pos (by norm_num) e
  rw [round_of_nonneg (mul_nonneg (Nat.cast_nonneg m) hscale.le)]
  rcases Nat.eq_zero_or_pos m with rfl | hpos
  · exact roundNonneg_of_multiple (m := 0) (by simp)
  · have hq : (0 : ℚ) < m * 2 ^ e := mul_pos (Nat.cast_pos.mpr hpos) hscale
    have hlog : Int.log 2 ((m : ℚ) * 2 ^ e) < 53 + e := by
      rw [← Int.lt_zpow_iff_log_lt (by norm_num) hq, Nat.cast_ofNat, zpow_add₀ (by norm_num)]
      refine mul_lt_mul_of_pos_right ?_ hscale
      exact_mod_cast hm
    -- the unit in the last place is no larger than the scale
    have hunit : ulpExponent ((m : ℚ) * 2 ^ e) ≤ e := by
      unfold ulpExponent
      omega
    refine roundNonneg_of_multiple
      (m := m * 2 ^ (e - ulpExponent ((m : ℚ) * 2 ^ e)).toNat) ?_
    rw [Nat.cast_mul, mul_assoc, ulp_eq, ← zpow_eq_natCast_mul hunit]

/-- The multiple of the unit that a positive number is rounded to. -/
theorem nearestEven_div_ulp_le {q : ℚ} : nearestEven (q / ulp q) ≤ 2 ^ 53 := by
  have hlt := Int.lt_zpow_succ_log_self (by norm_num : 1 < 2) q
  have hle : q / ulp q ≤ (2 ^ 53 : ℕ) := by
    rw [div_le_iff₀ (ulp_pos q), ulp_eq, Nat.cast_pow, Nat.cast_ofNat, ← zpow_natCast,
      ← zpow_add₀ (by norm_num)]
    refine hlt.le.trans (zpow_le_zpow_right₀ (by norm_num) ?_)
    unfold ulpExponent
    push_cast
    omega
  have hnearest := nearestEven_mono hle
  rwa [nearestEven_natCast] at hnearest

/-- A rounded number is not rounded again. -/
theorem round_round (q : ℚ) : round (round q) = round q := by
  have hnonneg : ∀ {x : ℚ}, 0 ≤ x → round (roundNonneg x) = roundNonneg x := by
    intro x hx
    have hexponent : -1074 ≤ ulpExponent x := le_max_right _ _
    rw [roundNonneg_eq_nearestEven, ulp_eq]
    rcases nearestEven_div_ulp_le.lt_or_eq with hlt | heq
    · exact round_dyadic hlt hexponent
    · -- the next power of two
      have hpow : ((2 ^ 53 : ℕ) : ℚ) * 2 ^ ulpExponent x = (1 : ℕ) * 2 ^ (53 + ulpExponent x) := by
        rw [zpow_add₀ (by norm_num), Nat.cast_one, one_mul, Nat.cast_pow, Nat.cast_ofNat]
        rfl
      rw [← ulp_eq, heq, ulp_eq, hpow]
      exact round_dyadic (by norm_num) (by omega)
  rcases le_total 0 q with h | h
  · rw [round_of_nonneg h]
    exact hnonneg h
  · have hq : q = -(-q) := (neg_neg q).symm
    have hneg : 0 ≤ -q := neg_nonneg.mpr h
    rw [hq, round_neg, round_neg, round_of_nonneg hneg, hnonneg hneg]

/-- A number that is rounded to this or more overflows. -/
def overflow : ℚ := 2 ^ 1024

/-- The numbers that are finite doubles. -/
def IsFinite (q : ℚ) : Prop := round q = q ∧ |q| < overflow

instance (q : ℚ) : Decidable (IsFinite q) := inferInstanceAs (Decidable (_ ∧ _))

theorem IsFinite.neg {q : ℚ} (h : IsFinite q) : IsFinite (-q) :=
  ⟨by rw [round_neg, h.1], by rw [abs_neg]; exact h.2⟩

theorem IsFinite.abs {q : ℚ} (h : IsFinite q) : IsFinite |q| := by
  rcases abs_choice q with habs | habs
  · rwa [habs]
  · rw [habs]
    exact h.neg

/-- The largest finite double. -/
theorem IsFinite.le_largest {q : ℚ} (h : IsFinite q) : q ≤ (2 ^ 53 - 1) * 2 ^ 971 := by
  have hpos : (0 : ℚ) < 2 ^ 971 := by positivity
  have hupper : (2 : ℚ) ^ 1024 = 2 ^ 53 * 2 ^ 971 := by rw [← pow_add]
  have hlower : (2 : ℚ) ^ 1023 = 2 ^ 52 * 2 ^ 971 := by rw [← pow_add]
  by_contra hlarge
  have hlarge : (2 ^ 53 - 1) * 2 ^ 971 < q := not_le.mp hlarge
  have hq : 0 < q := (mul_pos (by norm_num) hpos).trans hlarge
  have hbound : q < 2 ^ 1024 := (le_abs_self q).trans_lt h.2
  -- such a number is a multiple of `2 ^ 971`, and there is none in between
  have hlog : Int.log 2 q = 1023 := by
    refine le_antisymm ?_ ?_
    · rw [← Int.lt_add_one_iff, ← Int.lt_zpow_iff_log_lt (by norm_num) hq, Nat.cast_ofNat]
      exact hbound
    · have hle : (2 : ℚ) ^ 1023 ≤ q := by
        rw [hlower]
        exact (mul_le_mul_of_nonneg_right (by norm_num) hpos.le).trans hlarge.le
      rw [← Int.zpow_le_iff_le_log (by norm_num) hq]
      exact_mod_cast hle
  have hulp : ulp q = 2 ^ 971 := by
    rw [ulp, hlog]
    exact zpow_natCast 2 971
  have hround := h.1
  rw [round_of_nonneg hq.le, roundNonneg_eq_nearestEven, hulp] at hround
  rw [← hround] at hlarge hbound
  rw [hupper] at hbound
  have hmore : (2 ^ 53 - 1 : ℚ) < nearestEven (q / 2 ^ 971) := lt_of_mul_lt_mul_right hlarge hpos.le
  have hless : (nearestEven (q / 2 ^ 971) : ℚ) < 2 ^ 53 := lt_of_mul_lt_mul_right hbound hpos.le
  have h1 : 2 ^ 53 < nearestEven (q / 2 ^ 971) + 1 := by
    have hsucc : (2 ^ 53 : ℚ) < nearestEven (q / 2 ^ 971) + 1 := by linarith
    exact_mod_cast hsucc
  have h2 : nearestEven (q / 2 ^ 971) < 2 ^ 53 := by exact_mod_cast hless
  omega

end Double

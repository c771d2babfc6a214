import Oati.Library.Numeral
import Oati.Library.Rounding

/-!
# The shortest digits of a double

What a printer of doubles starts from: the fewest decimal digits that are rounded to the double,
with the place of their point. Of several strings of that length any may be the one that is
printed.

* `Digits`: significant digits with a point; `positional` and `scientific` are the two notations
  of it.
* `IsShortest.pow_le_iff`: to compare the double with a power of ten is to look where the point
  is.
* `IsShortest.chars_eq`: the digits of an integer below `2 ^ 53` are its own.
-/

namespace Double

open Numeral

/-- The number `0.d₁…dₖ * 10 ^ point`, where `d₁…dₖ` are the digits of `significand`. -/
structure Digits where
  significand : ℕ
  point : ℤ
  deriving DecidableEq, Repr

namespace Digits

/-- The digits. -/
def chars (d : Digits) : List Char := Nat.toDigits 10 d.significand

/-- The number they denote. -/
def value (d : Digits) : ℚ := d.significand * 10 ^ (d.point - d.chars.length)

/-- The notation without an exponent. -/
def positional (d : Digits) : List Char :=
  if (d.chars.length : ℤ) ≤ d.point then
    d.chars ++ List.replicate (d.point.toNat - d.chars.length) '0'
  else if 0 < d.point then d.chars.take d.point.toNat ++ '.' :: d.chars.drop d.point.toNat
  else '0' :: '.' :: (List.replicate (-d.point).toNat '0' ++ d.chars)

/-- One digit, and the others after a point. -/
def mantissa (d : Digits) : List Char :=
  d.chars.take 1 ++ (if d.chars.length = 1 then [] else '.' :: d.chars.drop 1)

/-- The sign of an exponent. -/
def exponentSign (e : ℤ) : Char := if e < 0 then '-' else '+'

/-- The notation with an exponent. -/
def scientific (d : Digits) : List Char :=
  d.mantissa ++ 'e' :: exponentSign (d.point - 1) :: Nat.toDigits 10 (d.point - 1).natAbs

variable {d : Digits}

theorem length_pos (d : Digits) : 0 < d.chars.length := Nat.length_toDigits_pos

theorem isDigit_of_mem_chars : ∀ c ∈ d.chars, c.isDigit := isDigit_of_mem_toDigits

theorem significand_lt (d : Digits) : d.significand < 10 ^ d.chars.length :=
  (Nat.length_toDigits_le_iff (by norm_num) d.length_pos).mp le_rfl

theorem pow_le_significand (h : 0 < d.significand) :
    10 ^ (d.chars.length - 1) ≤ d.significand := by
  rcases Nat.eq_zero_or_pos (d.chars.length - 1) with hone | hmore
  · rw [hone]
    exact h
  · by_contra hlt
    have hshort := (Nat.length_toDigits_le_iff (by norm_num) hmore).mpr (not_le.mp hlt)
    have hlength : d.chars.length ≤ d.chars.length - 1 := hshort
    omega

/-- Powers of ten are multiplied by adding the exponents. -/
theorem natCast_pow_mul_zpow (n : ℕ) (e : ℤ) : ((10 ^ n : ℕ) : ℚ) * 10 ^ e = 10 ^ (n + e : ℤ) := by
  rw [Nat.cast_pow, Nat.cast_ofNat, ← zpow_natCast, ← zpow_add₀ (by norm_num)]

theorem value_lt (d : Digits) : d.value < 10 ^ d.point := by
  have hpos : (0 : ℚ) < 10 ^ (d.point - d.chars.length) := zpow_pos (by norm_num) _
  calc d.value < (10 ^ d.chars.length : ℕ) * 10 ^ (d.point - d.chars.length) :=
        mul_lt_mul_of_pos_right (by exact_mod_cast d.significand_lt) hpos
    _ = 10 ^ d.point := by rw [natCast_pow_mul_zpow, add_sub_cancel]

theorem pow_le_value (h : 0 < d.significand) : 10 ^ (d.point - 1) ≤ d.value := by
  have hpos : (0 : ℚ) < 10 ^ (d.point - d.chars.length) := zpow_pos (by norm_num) _
  have hlength := d.length_pos
  calc (10 : ℚ) ^ (d.point - 1)
      = (10 ^ (d.chars.length - 1) : ℕ) * 10 ^ (d.point - d.chars.length) := by
        rw [natCast_pow_mul_zpow]
        congr 1
        omega
    _ ≤ d.value := mul_le_mul_of_nonneg_right (by exact_mod_cast pow_le_significand h) hpos.le

/-- One digit is at most nine. -/
theorem value_le_of_length_le_one (h : d.chars.length ≤ 1) :
    d.value ≤ 9 * 10 ^ (d.point - 1) := by
  have hone : d.chars.length = 1 := le_antisymm h d.length_pos
  have hlt := d.significand_lt
  rw [hone] at hlt
  rw [value, hone]
  refine mul_le_mul_of_nonneg_right ?_ (zpow_pos (by norm_num) _).le
  exact_mod_cast (by omega : d.significand ≤ 9)

/-- A trailing zero of the digits is one of the number. -/
theorem toDigits_mul_ten {n : ℕ} (h : 0 < n) : Nat.toDigits 10 (10 * n) = Nat.toDigits 10 n ++ ['0'] := by
  have happend := Nat.toDigits_append_toDigits (b := 10) (by norm_num) h (by norm_num : 0 < 10)
  rw [add_zero, Nat.toDigits_zero] at happend
  exact happend.symm

theorem toDigits_mul_pow {n : ℕ} (h : 0 < n) (j : ℕ) :
    Nat.toDigits 10 (n * 10 ^ j) = Nat.toDigits 10 n ++ List.replicate j '0' := by
  induction j with
  | zero => simp
  | succ j ih =>
    have hmul : n * 10 ^ (j + 1) = 10 * (n * 10 ^ j) := by ring
    rw [hmul, toDigits_mul_ten (by positivity), ih, List.append_assoc, List.replicate_succ']

end Digits

/-! ### Shortest digits -/

/-- The digits are rounded to the number, and no fewer digits are. -/
structure IsShortest (q : ℚ) (d : Digits) : Prop where
  pos : 0 < d.significand
  round_value : round d.value = q
  minimal : ∀ e : Digits, 0 < e.significand → round e.value = q → d.chars.length ≤ e.chars.length

variable {q : ℚ} {d : Digits}

/-- The double is at least a power of ten exactly if the point is beyond the place of its one,
when the one-digit number before that power is a smaller double. -/
theorem IsShortest.pow_le_iff {n : ℤ} (h : IsShortest q d)
    (hbefore : round (9 * 10 ^ (n - 1)) < round (10 ^ n)) :
    round (10 ^ n) ≤ q ↔ n < d.point := by
  constructor
  · intro hle
    by_contra hpoint
    have hpoint : d.point ≤ n := not_lt.mp hpoint
    have hvalue : d.value ≤ 10 ^ n :=
      d.value_lt.le.trans (zpow_le_zpow_right₀ (by norm_num) hpoint)
    have heq : round (10 ^ n) = q := by
      refine le_antisymm hle ?_
      rw [← h.round_value]
      exact round_mono hvalue
    -- the power of ten itself has one digit, so the shortest digits are one digit too
    have hlength : (⟨1, n + 1⟩ : Digits).chars.length = 1 := by
      rw [Digits.chars, Nat.toDigits_of_lt_base (by norm_num)]
      rfl
    have hone : (⟨1, n + 1⟩ : Digits).value = 10 ^ n := by
      rw [Digits.value, hlength, Nat.cast_one, Nat.cast_one, one_mul, add_sub_cancel_right]
    have hminimal := h.minimal ⟨1, n + 1⟩ Nat.one_pos (by rw [hone, heq])
    rw [hlength] at hminimal
    have hnine : d.value ≤ 9 * 10 ^ (n - 1) := by
      refine (Digits.value_le_of_length_le_one hminimal).trans ?_
      refine mul_le_mul_of_nonneg_left ?_ (by norm_num)
      exact zpow_le_zpow_right₀ (by norm_num) (by omega)
    have hround := round_mono hnine
    rw [h.round_value, ← heq] at hround
    exact absurd hbefore (not_lt.mpr hround)
  · intro hpoint
    rw [← h.round_value]
    refine round_mono (le_trans ?_ (Digits.pow_le_value h.pos))
    exact zpow_le_zpow_right₀ (by norm_num) (by omega)

/-- The threshold `1e-6`. -/
theorem IsShortest.micro_le_iff (h : IsShortest q d) :
    round (10 ^ (-6 : ℤ)) ≤ q ↔ -6 < d.point := by
  refine h.pow_le_iff ?_
  calc round (9 * 10 ^ (-6 - 1 : ℤ)) ≤ round ((32 : ℕ) * 2 ^ (-25 : ℤ)) :=
        round_mono (by norm_num)
    _ = (32 : ℕ) * 2 ^ (-25 : ℤ) := round_dyadic (by norm_num) (by norm_num)
    _ < (33 : ℕ) * 2 ^ (-25 : ℤ) := by norm_num
    _ = round ((33 : ℕ) * 2 ^ (-25 : ℤ)) := (round_dyadic (by norm_num) (by norm_num)).symm
    _ ≤ round (10 ^ (-6 : ℤ)) := round_mono (by norm_num)

/-- `1e21` is a double. -/
theorem round_sextillion : round (10 ^ (21 : ℤ)) = 10 ^ (21 : ℤ) := by
  have hdyadic := @round_dyadic (5 ^ 21) 21 (by norm_num) (by norm_num)
  norm_num at hdyadic ⊢
  exact hdyadic

/-- The threshold `1e21`. -/
theorem IsShortest.lt_sextillion_iff (h : IsShortest q d) :
    q < 10 ^ (21 : ℤ) ↔ d.point ≤ 21 := by
  have hpow : round (10 ^ (21 : ℤ)) ≤ q ↔ 21 < d.point := by
    refine h.pow_le_iff ?_
    rw [round_sextillion]
    calc round (9 * 10 ^ (21 - 1 : ℤ)) = round ((9 * 5 ^ 20 : ℕ) * 2 ^ (20 : ℤ)) := by norm_num
      _ = (9 * 5 ^ 20 : ℕ) * 2 ^ (20 : ℤ) := round_dyadic (by norm_num) (by norm_num)
      _ < 10 ^ (21 : ℤ) := by norm_num
  rw [round_sextillion] at hpow
  rw [← not_le, hpow, not_lt]

/-- Shortest digits do not end in a zero. -/
theorem IsShortest.significand_mod_ten (h : IsShortest q d) : d.significand % 10 ≠ 0 := by
  intro hzero
  obtain ⟨s, hs⟩ : 10 ∣ d.significand := Nat.dvd_of_mod_eq_zero hzero
  have hpos : 0 < s := by
    have := h.pos
    omega
  have hchars : d.chars = (⟨s, d.point⟩ : Digits).chars ++ ['0'] := by
    rw [Digits.chars, hs, Digits.toDigits_mul_ten hpos]
    rfl
  have hlength : d.chars.length = (⟨s, d.point⟩ : Digits).chars.length + 1 := by
    rw [hchars, List.length_append]
    rfl
  have hvalue : (⟨s, d.point⟩ : Digits).value = d.value := by
    rw [Digits.value, Digits.value, hlength, hs]
    push_cast
    rw [sub_add_eq_sub_sub, zpow_sub₀ (by norm_num : (10 : ℚ) ≠ 0) _ 1]
    field_simp
  have hminimal := h.minimal ⟨s, d.point⟩ hpos (by rw [hvalue, h.round_value])
  omega

/-- The last digit is not a zero. -/
theorem IsShortest.getLast_chars (h : IsShortest q d) : d.chars.getLast? ≠ some '0' := by
  have hmod := h.significand_mod_ten
  have hdigit : ∀ k < 10, k ≠ 0 → (Nat.toDigits 10 k).getLast? ≠ some '0' := by decide
  rw [Digits.chars]
  rcases Nat.lt_or_ge d.significand 10 with hsmall | hlarge
  · exact hdigit _ hsmall h.pos.ne'
  · have hlt : d.significand % 10 < 10 := Nat.mod_lt _ (by norm_num)
    have happend := Nat.toDigits_append_toDigits (b := 10) (by norm_num)
      (by omega : 0 < d.significand / 10) hlt
    rw [Nat.div_add_mod] at happend
    rw [← happend, List.getLast?_append_of_ne_nil _ Nat.toDigits_ne_nil]
    exact hdigit _ hlt hmod

/-! ### Integers -/

/-- A natural without its trailing zeros. -/
theorem exists_eq_mul_pow {m : ℕ} (h : 0 < m) : ∃ t j : ℕ, t % 10 ≠ 0 ∧ m = t * 10 ^ j := by
  induction m using Nat.strong_induction_on with
  | _ m ih =>
    by_cases hzero : m % 10 = 0
    · obtain ⟨t, j, ht, hm⟩ := ih (m / 10) (by omega) (by omega)
      refine ⟨t, j + 1, ht, ?_⟩
      rw [pow_succ, ← mul_assoc, ← hm]
      omega
    · exact ⟨m, 0, hzero, by simp⟩

/-- An integer below `2 ^ 53` is the value of its shortest digits, which have no fraction. -/
theorem IsShortest.value_natCast {m : ℕ} (hm : 0 < m) (hbound : m < 2 ^ 53)
    (h : IsShortest m d) : (d.chars.length : ℤ) ≤ d.point ∧
      m = d.significand * 10 ^ (d.point.toNat - d.chars.length) := by
  have hexact : ∀ n : ℕ, n ≤ 2 ^ 53 → round n = n := fun n hn =>
    round_intCast_of_natAbs_le (z := n) (by simpa [exactBound] using hn)
  have hlength := d.length_pos
  have hpoint : (d.chars.length : ℤ) ≤ d.point := by
    by_contra hshort
    -- the integer has digits of its own, and the shortest ones are no more than these
    obtain ⟨t, j, ht, hmt⟩ := exists_eq_mul_pow hm
    have htpos : 0 < t := by omega
    have hown : (⟨t, (Nat.toDigits 10 t).length + j⟩ : Digits).value = m := by
      rw [Digits.value, Digits.chars, add_sub_cancel_left, zpow_natCast, hmt]
      push_cast
      rfl
    have hfewer : d.chars.length ≤ (Nat.toDigits 10 t).length :=
      h.minimal ⟨t, (Nat.toDigits 10 t).length + j⟩ htpos
        (by rw [hown, hexact m hbound.le])
    -- so their value is below the first power of ten with as many digits
    have hpow : 10 ^ ((Nat.toDigits 10 t).length - 1) ≤ t :=
      Digits.pow_le_significand (d := ⟨t, 0⟩) htpos
    have htm : t ≤ m := by
      rw [hmt]
      exact Nat.le_mul_of_pos_right t (by positivity)
    have hbelow : d.value ≤ (10 ^ ((Nat.toDigits 10 t).length - 1) : ℕ) := by
      refine d.value_lt.le.trans ?_
      rw [Nat.cast_pow, Nat.cast_ofNat, ← zpow_natCast]
      exact zpow_le_zpow_right₀ (by norm_num) (by omega)
    have hround := round_mono hbelow
    rw [h.round_value, hexact _ (hpow.trans (htm.trans hbound.le))] at hround
    have hmpow : m ≤ 10 ^ ((Nat.toDigits 10 t).length - 1) := by exact_mod_cast hround
    -- then the integer is that power, which has one digit only if it is one
    have hone : (Nat.toDigits 10 t).length - 1 = 0 := by
      by_contra hmore
      obtain ⟨k, hk⟩ := Nat.exists_eq_succ_of_ne_zero hmore
      have heq : t = 10 ^ ((Nat.toDigits 10 t).length - 1) := by omega
      rw [hk, pow_succ] at heq
      omega
    rw [hone] at hmpow
    have hvalue : d.value ≤ 15 * 2 ^ (-4 : ℤ) := by
      refine (Digits.value_le_of_length_le_one (by omega)).trans ?_
      have hpow : (10 : ℚ) ^ (d.point - 1) ≤ 10 ^ (-1 : ℤ) :=
        zpow_le_zpow_right₀ (by norm_num) (by omega)
      norm_num at hpow ⊢
      linarith
    have hlt := round_mono hvalue
    have hdyadic := @round_dyadic 15 (-4) (by norm_num) (by norm_num)
    rw [Nat.cast_ofNat] at hdyadic
    rw [h.round_value, hdyadic] at hlt
    have hm1 : (1 : ℚ) ≤ m := by exact_mod_cast hm
    norm_num at hlt
    linarith
  refine ⟨hpoint, ?_⟩
  have hvalue : d.value = (d.significand * 10 ^ (d.point.toNat - d.chars.length) : ℕ) := by
    have hexponent : d.point - d.chars.length = ((d.point.toNat - d.chars.length : ℕ) : ℤ) := by
      omega
    rw [Digits.value, hexponent, zpow_natCast]
    push_cast
    rfl
  rcases Nat.lt_or_ge (2 ^ 53) (d.significand * 10 ^ (d.point.toNat - d.chars.length)) with hbig | hle
  · have hround := round_mono (show ((2 ^ 53 : ℕ) : ℚ) ≤ d.value by
      rw [hvalue]
      exact_mod_cast hbig.le)
    rw [h.round_value, hexact _ le_rfl] at hround
    exact absurd hbound (not_lt.mpr (by exact_mod_cast hround))
  · have hround := h.round_value
    rw [hvalue, hexact _ hle] at hround
    exact_mod_cast hround.symm

/-- The digits of an integer below `2 ^ 53` are its own. -/
theorem IsShortest.positional_natCast {m : ℕ} (hm : 0 < m) (hbound : m < 2 ^ 53)
    (h : IsShortest m d) : d.positional = Nat.toDigits 10 m := by
  obtain ⟨hpoint, hvalue⟩ := h.value_natCast hm hbound
  rw [Digits.positional, if_pos hpoint, hvalue, Digits.toDigits_mul_pow h.pos]
  rfl

end Double

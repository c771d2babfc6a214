import Mathlib.AlgebraicGeometry.EllipticCurve.Affine.Point
import Mathlib.NumberTheory.LegendreSymbol.Basic
import Mathlib.Tactic.NormNum.Prime
import Oati.Library.BinaryMethod
import Oati.Library.Edwards
import Oati.Library.Residues

/-!
# Two standard curves

The primes `2 ^ 255 - 19` and `2 ^ 256 - 2 ^ 224 + 2 ^ 192 + 2 ^ 96 - 1` by Lucas's test, the
twisted Edwards curve of Ed25519 over the first and the Weierstrass curve P-256 over the second.
On the former `-1` is a square and `d` is not, both by Euler's criterion, so that its addition law
is complete.
-/

namespace StandardCurves

open BinaryMethod (Certificate natCast_pow_eq_one_iff powMod_eq)

/-! ### The prime of Ed25519 -/

/-- The prime of Ed25519. -/
def p25519 : ℕ := 2 ^ 255 - 19

private theorem prime_72106336199 : Nat.Prime 72106336199 := by
  have hlast : Nat.Prime 2773320623 := (Certificate.mk _ 5 [2, 2437, 569003]).prime
    (by simp only [List.forall_mem_cons]; norm_num) (by decide +kernel)
  exact (Certificate.mk _ 7 [2773320623, 2, 13]).prime
    (List.forall_mem_cons.mpr ⟨hlast, by simp only [List.forall_mem_cons]; norm_num⟩)
    (by decide +kernel)

private theorem prime_75445702479781427272750846543864801 :
    Nat.Prime 75445702479781427272750846543864801 := by
  have hlast : Nat.Prime 1919519569386763 :=
    (Certificate.mk _ 2 [2, 3, 7, 19, 47, 47, 127, 8574133]).prime
      (by simp only [List.forall_mem_cons]; norm_num) (by decide +kernel)
  exact (Certificate.mk _ 7
    [1919519569386763, 72106336199, 2, 2, 2, 2, 2, 3, 3, 5, 5, 75707]).prime
    (List.forall_mem_cons.mpr ⟨hlast, List.forall_mem_cons.mpr
      ⟨prime_72106336199, by simp only [List.forall_mem_cons]; norm_num⟩⟩)
    (by decide +kernel)

private theorem prime_74058212732561358302231226437062788676166966415465897661863160754340907 :
    Nat.Prime 74058212732561358302231226437062788676166966415465897661863160754340907 := by
  have hmiddle : Nat.Prime 31757755568855353 :=
    (Certificate.mk _ 10 [2, 2, 2, 3, 31, 107, 223, 4153, 430751]).prime
      (by simp only [List.forall_mem_cons]; norm_num) (by decide +kernel)
  exact (Certificate.mk _ 2 [75445702479781427272750846543864801, 31757755568855353, 2, 3, 353,
      57467, 132049, 1923133]).prime
    (List.forall_mem_cons.mpr ⟨prime_75445702479781427272750846543864801,
      List.forall_mem_cons.mpr ⟨hmiddle, by simp only [List.forall_mem_cons]; norm_num⟩⟩)
    (by decide +kernel)

instance : Fact p25519.Prime where
  out := (Certificate.mk p25519 2
      [74058212732561358302231226437062788676166966415465897661863160754340907, 2, 2, 3,
        65147]).prime
    (List.forall_mem_cons.mpr
      ⟨prime_74058212732561358302231226437062788676166966415465897661863160754340907,
        by simp only [List.forall_mem_cons]; norm_num⟩)
    (by decide +kernel)

/-! ### Edwards25519 -/

/-- A power of a residue, from its value on numbers. -/
theorem natCast_pow_eq {m a n r : ℕ} (h : BinaryMethod.powMod m a n = r % m) :
    (a : ZMod m) ^ n = r := by
  rw [← Nat.cast_pow, ZMod.natCast_eq_natCast_iff', ← powMod_eq, h]

/-- The square root of `-1`. -/
theorem two_pow_sq : ((2 : ZMod p25519) ^ ((p25519 - 1) / 4)) ^ 2 = -1 := by
  have hpow := natCast_pow_eq (m := p25519) (a := 2) (n := (p25519 - 1) / 4 * 2) (r := p25519 - 1)
    (by decide +kernel)
  rw [← pow_mul, ← Nat.cast_ofNat, hpow, Nat.cast_sub (by decide), ZMod.natCast_self]
  simp

/-- The constant of the curve, `-121665 / 121666`. -/
def d25519 : ℕ := 37095705934669439343138083508754565189542113879843219016388785533085940283555

theorem d25519_mul : (d25519 : ZMod p25519) * 121666 = -121665 := by
  have hsum : ((d25519 * 121666 + 121665 : ℕ) : ZMod p25519) = 0 :=
    (ZMod.natCast_eq_zero_iff _ _).mpr (by decide +kernel)
  push_cast at hsum
  exact eq_neg_of_add_eq_zero_left hsum

theorem not_isSquare_d25519 : ¬ IsSquare (d25519 : ZMod p25519) := by
  have hne : (d25519 : ZMod p25519) ≠ 0 := by
    rw [Ne, ZMod.natCast_eq_zero_iff]
    decide +kernel
  rw [ZMod.euler_criterion p25519 hne, natCast_pow_eq_one_iff (by decide)]
  decide +kernel

/-- The curve of Ed25519. -/
def edwards25519 : EdwardsCurve (ZMod p25519) where
  d := d25519
  i := 2 ^ ((p25519 - 1) / 4)
  i_sq := two_pow_sq
  not_isSquare := not_isSquare_d25519
  two_ne_zero := by
    rw [← Nat.cast_ofNat, Ne, ZMod.natCast_eq_zero_iff]
    decide

theorem d_eq : edwards25519.d = -121665 * (121666 : ZMod p25519)⁻¹ := by
  have hne : (121666 : ZMod p25519) ≠ 0 := by
    rw [← Nat.cast_ofNat, Ne, ZMod.natCast_eq_zero_iff]
    decide
  exact (eq_mul_inv_iff_mul_eq₀ hne).mpr d25519_mul

/-! ### Affine coordinates -/

/-- The coordinates of a point, as least residues. -/
def affine (P : edwards25519.Point) : ℤ × ℤ := (P.x.val, P.y.val)

/-- Integers that are coordinates of a point. -/
def Denotes (a : ℤ × ℤ) (P : edwards25519.Point) : Prop :=
  (a.1 : ZMod p25519) = P.x ∧ (a.2 : ZMod p25519) = P.y

theorem denotes_affine (P : edwards25519.Point) : Denotes (affine P) P := by
  simp [Denotes, affine]

theorem affine_eq_zero_iff {P : edwards25519.Point} :
    (affine P).1 = 0 ∧ (affine P).2 = 1 ↔ P = 0 := by
  have hone : ((1 : ZMod p25519).val : ℤ) = 1 := by
    rw [ZMod.val_one, Nat.cast_one]
  have hzero : ((0 : ZMod p25519).val : ℤ) = 0 := by
    rw [ZMod.val_zero, Nat.cast_zero]
  rw [EdwardsCurve.Point.ext_iff, EdwardsCurve.Point.zero_x, EdwardsCurve.Point.zero_y, affine,
    ← hone, ← hzero, Nat.cast_inj, Nat.cast_inj, (ZMod.val_injective _).eq_iff,
    (ZMod.val_injective _).eq_iff]

/-! ### Encoded points

A point is encoded by its second coordinate and the parity of the first.
-/

/-- The encoding is that of a point which is not of small order. -/
def Acceptable (sign y : ℤ) : Prop :=
  ∃ P : edwards25519.Point, (P.y.val : ℤ) = y ∧ (P.x.val : ℤ) % 2 = sign ∧ 8 • P ≠ 0

section Encoded

variable {sign x y : ℤ} {P Q : edwards25519.Point}

theorem not_acceptable_of_le (h : (p25519 : ℤ) ≤ y) : ¬ Acceptable sign y := by
  rintro ⟨P, rfl, -⟩
  have hlt := P.y.val_lt
  omega

/-- The points with second coordinate `y` are given by the square roots of a fraction. -/
theorem onCurve_iff_mul {x y : ZMod p25519} :
    edwards25519.OnCurve x y ↔ x * x * (edwards25519.d * (y * y) + 1) = y * y - 1 := by
  unfold EdwardsCurve.OnCurve
  constructor
  · intro h
    linear_combination -h
  · intro h
    linear_combination -h

theorem den_ne_zero (y : ZMod p25519) : edwards25519.d * (y * y) + 1 ≠ 0 := by
  intro h
  have hd : edwards25519.d * y ^ 2 = edwards25519.i ^ 2 := by
    rw [edwards25519.i_sq]
    linear_combination h
  have hy := EdwardsCurve.eq_zero_of_mul_sq hd
  rw [hy, mul_zero, mul_zero, zero_add] at h
  exact one_ne_zero h

theorem onCurve_iff {x y : ZMod p25519} :
    edwards25519.OnCurve x y ↔ x * x = (y * y - 1) / (edwards25519.d * (y * y) + 1) := by
  rw [onCurve_iff_mul, eq_div_iff (den_ne_zero y)]

theorem p25519_mod : p25519 % 8 = 5 := by decide

/-- The square root of a number, if it has one: the candidate, or its product with a root of
`-1`. -/
theorem root_iff {a r i x : ZMod p25519} (hr : r = a ^ ((p25519 + 3) / 8)) (hi : i ^ 2 = -1)
    (hx : r * r = a ∧ x = r ∨ r * r ≠ a ∧ x = r * i) : x * x = a ↔ IsSquare a := by
  refine ⟨fun h => ⟨x, h.symm⟩, fun h => ?_⟩
  have hcases := Residue.sq_candidate p25519_mod h
  rw [← hr] at hcases
  rcases hx with ⟨hcandidate, hroot⟩ | ⟨hcandidate, hroot⟩
  · rw [hroot, hcandidate]
  · rw [hroot]
    have hneg : r ^ 2 = -a := hcases.resolve_left fun hsq => hcandidate (by rw [← sq, hsq])
    linear_combination i ^ 2 * hneg - a * hi

theorem not_acceptable_of_not_isSquare
    (h : ¬ IsSquare (((y : ZMod p25519) * y - 1) / (edwards25519.d * (y * y) + 1))) :
    ¬ Acceptable sign y := by
  rintro ⟨P, rfl, -⟩
  rw [Int.cast_natCast, ZMod.natCast_zmod_val] at h
  exact h ⟨P.x, (onCurve_iff.mp P.onCurve).symm⟩

/-- A point whose first coordinate is zero has order 1 or 2. -/
theorem eight_nsmul_of_x_eq_zero (h : P.x = 0) : 8 • P = 0 := by
  have hcurve := P.onCurve
  have hdouble : P + P = 0 := by
    ext
    · simp [EdwardsCurve.sumX, h]
    · simp only [EdwardsCurve.OnCurve, h] at hcurve
      simp only [EdwardsCurve.Point.add_y, EdwardsCurve.Point.zero_y, EdwardsCurve.sumY, h]
      linear_combination hcurve
  rw [show (8 : ℕ) = 2 * 4 from rfl, mul_nsmul, two_nsmul, hdouble, nsmul_zero]

/-- Two points with one second coordinate have the same first one, or opposite ones. -/
theorem x_eq_or_eq_neg (h : Q.y = P.y) : Q.x = P.x ∨ Q.x = -P.x := by
  have hQ := onCurve_iff.mp Q.onCurve
  rw [h, ← onCurve_iff.mp P.onCurve] at hQ
  exact mul_self_eq_mul_self_iff.mp hQ

/-- A point with the encoding decides whether the encoding is acceptable. -/
theorem acceptable_iff (hy : (P.y.val : ℤ) = y) (hx : P.x = 0 ∨ (P.x.val : ℤ) % 2 = sign) :
    Acceptable sign y ↔ 8 • P ≠ 0 := by
  constructor
  · rintro ⟨Q, hQy, hQx, hQ⟩ hP
    have hyeq : Q.y = P.y := ZMod.val_injective _ (Int.ofNat_inj.mp (hQy.trans hy.symm))
    have hxeq : Q.x = P.x := by
      refine (x_eq_or_eq_neg hyeq).elim id fun hneg => ?_
      rcases hx with hzero | hparity
      · rw [hneg, hzero, neg_zero]
      · by_contra hne
        have hPx : P.x ≠ 0 := fun h => hne (by rw [hneg, h, neg_zero])
        have hsum := Residue.val_neg_add_val hPx
        have hodd : p25519 % 2 = 1 := by decide
        rw [hneg] at hQx
        omega
    exact hQ (by rwa [EdwardsCurve.Point.ext hxeq hyeq])
  · intro hP
    exact ⟨P, hy, hx.resolve_left fun h => hP (eight_nsmul_of_x_eq_zero h), hP⟩

/-- The first coordinate of the wanted parity, from one that is on the curve. -/
theorem exists_point (hsign : sign = 0 ∨ sign = 1) (hy : 0 ≤ y) (hylt : y < p25519) (hx : 0 ≤ x)
    (hxlt : x < p25519) (hcurve : edwards25519.OnCurve (x : ZMod p25519) y) :
    ∃ P : edwards25519.Point,
      P.x = ((if x % 2 ≠ sign then p25519 - x else x : ℤ) : ZMod p25519) ∧ P.y = y ∧
        (Acceptable sign y ↔ 8 • P ≠ 0) := by
  have hodd : (p25519 : ℤ) % 2 = 1 := by decide
  have hyval : ((y : ZMod p25519).val : ℤ) = y := Residue.val_of_range hy hylt
  by_cases hparity : x % 2 = sign
  · rw [if_neg (not_not.mpr hparity)]
    refine ⟨⟨_, _, hcurve⟩, rfl, rfl, acceptable_iff hyval (.inr ?_)⟩
    rw [Residue.val_of_range hx hxlt, hparity]
  · rw [if_pos hparity]
    have hneg : ((p25519 - x : ℤ) : ZMod p25519) = -x := by
      rw [Int.cast_sub, Int.cast_natCast, ZMod.natCast_self, zero_sub]
    have hcurve' : edwards25519.OnCurve ((p25519 - x : ℤ) : ZMod p25519) y := by
      rw [hneg]
      unfold EdwardsCurve.OnCurve at hcurve ⊢
      linear_combination hcurve
    refine ⟨⟨_, _, hcurve'⟩, rfl, rfl, acceptable_iff hyval ?_⟩
    by_cases hzero : x = 0
    · left
      exact hneg.trans (by rw [hzero, Int.cast_zero, neg_zero])
    · right
      rw [Residue.val_of_range (by omega) (by omega)]
      omega

/-- What the candidate for a square root says of the encoding: either there is no point with the
second coordinate, or one whose first coordinate has the wanted parity. -/
theorem root_cases {a r root : ℤ} (hsign : sign = 0 ∨ sign = 1) (hy : 0 ≤ y) (hylt : y < p25519)
    (ha : (a : ZMod p25519) = ((y : ZMod p25519) * y - 1) / (edwards25519.d * (y * y) + 1))
    (hr : (r : ZMod p25519) = (a : ZMod p25519) ^ ((p25519 + 3) / 8))
    (hroot : (r * r - a) % p25519 = 0 ∧ root = r ∨
      (r * r - a) % p25519 ≠ 0 ∧ (root : ZMod p25519) = r * edwards25519.i)
    (hrange : 0 ≤ root ∧ root < p25519) :
    (root * root - a) % p25519 ≠ 0 ∧ ¬ Acceptable sign y ∨
      (root * root - a) % p25519 = 0 ∧ ∃ P : edwards25519.Point,
        P.x = ((if root % 2 ≠ sign then p25519 - root else root : ℤ) : ZMod p25519) ∧ P.y = y ∧
          (Acceptable sign y ↔ 8 • P ≠ 0) := by
  have hcast (b : ℤ) : (b * b - a) % p25519 = 0 ↔ (b : ZMod p25519) * b = a := by
    rw [Residue.emod_eq_zero_iff, Int.cast_sub, Int.cast_mul, sub_eq_zero]
  have hsquare := root_iff (x := (root : ZMod p25519)) hr edwards25519.i_sq
    (hroot.imp (fun h => ⟨(hcast r).mp h.1, congrArg Int.cast h.2⟩)
      fun h => ⟨fun heq => h.1 ((hcast r).mpr heq), h.2⟩)
  by_cases hvalid : (root * root - a) % p25519 = 0
  · have hcurve : edwards25519.OnCurve (root : ZMod p25519) y := by
      rw [onCurve_iff, ← ha]
      exact (hcast root).mp hvalid
    exact .inr ⟨hvalid, exists_point hsign hy hylt hrange.1 hrange.2 hcurve⟩
  · refine .inl ⟨hvalid, not_acceptable_of_not_isSquare ?_⟩
    rw [← ha]
    exact fun h => hvalid ((hcast root).mpr (hsquare.mpr h))

end Encoded

/-! ### P-256 -/

/-- The prime of P-256. -/
def p256Prime : ℕ := 2 ^ 256 - 2 ^ 224 + 2 ^ 192 + 2 ^ 96 - 1

private theorem prime_774023187263532362759620327192479577272145303 :
    Nat.Prime 774023187263532362759620327192479577272145303 := by
  have hfirst : Nat.Prime 34282281433 := by
    have h : Nat.Prime 204061199 := by norm_num
    exact (Certificate.mk _ 17 [204061199, 2, 2, 2, 3, 7]).prime
      (List.forall_mem_cons.mpr ⟨h, by simp only [List.forall_mem_cons]; norm_num⟩)
      (by decide +kernel)
  have hsecond : Nat.Prime 11290956913871 := by
    have h : Nat.Prime 66417393611 :=
      (Certificate.mk _ 6 [2, 5, 53, 173, 197, 3677]).prime
        (by simp only [List.forall_mem_cons]; norm_num) (by decide +kernel)
    exact (Certificate.mk _ 13 [66417393611, 2, 5, 17]).prime
      (List.forall_mem_cons.mpr ⟨h, by simp only [List.forall_mem_cons]; norm_num⟩)
      (by decide +kernel)
  have hthird : Nat.Prime 46076956964474543 :=
    (Certificate.mk _ 5 [2, 23, 18169, 78283, 704251]).prime
      (by simp only [List.forall_mem_cons]; norm_num) (by decide +kernel)
  exact (Certificate.mk _ 3
      [34282281433, 11290956913871, 46076956964474543, 2, 3, 3, 2411]).prime
    (List.forall_mem_cons.mpr ⟨hfirst, List.forall_mem_cons.mpr ⟨hsecond,
      List.forall_mem_cons.mpr ⟨hthird, by simp only [List.forall_mem_cons]; norm_num⟩⟩⟩)
    (by decide +kernel)

private theorem prime_835945042244614951780389953367877943453916927241 :
    Nat.Prime 835945042244614951780389953367877943453916927241 :=
  (Certificate.mk _ 11
      [774023187263532362759620327192479577272145303, 2, 2, 2, 3, 3, 3, 5]).prime
    (List.forall_mem_cons.mpr ⟨prime_774023187263532362759620327192479577272145303,
      by simp only [List.forall_mem_cons]; norm_num⟩)
    (by decide +kernel)

instance : Fact p256Prime.Prime where
  out := (Certificate.mk p256Prime 6
      [835945042244614951780389953367877943453916927241, 2, 3, 5, 5, 17, 257, 641, 1531, 65537,
        490463, 6700417]).prime
    (List.forall_mem_cons.mpr ⟨prime_835945042244614951780389953367877943453916927241,
      by simp only [List.forall_mem_cons]; norm_num⟩)
    (by decide +kernel)

/-- The constant term of P-256. -/
def p256Constant : ℕ := 0x5ac635d8aa3a93e7b3ebbd55769886bc651d06b0cc53b0f63bce3c3e27d2604b

/-- The curve P-256, `y² = x³ - 3 x + b`. -/
def p256 : WeierstrassCurve.Affine (ZMod p256Prime) :=
  { a₁ := 0, a₂ := 0, a₃ := 0, a₄ := -3, a₆ := p256Constant }

theorem p256_equation_iff {x y : ZMod p256Prime} :
    p256.Equation x y ↔ y ^ 2 = x ^ 3 - 3 * x + p256Constant := by
  rw [WeierstrassCurve.Affine.equation_iff]
  simp [p256, sub_eq_add_neg]

theorem p256_nonsingular_iff {x y : ZMod p256Prime} :
    p256.Nonsingular x y ↔ p256.Equation x y := by
  refine (WeierstrassCurve.Affine.equation_iff_nonsingular_of_Δ_ne_zero ?_).symm
  have hdisc : p256.Δ = ((1728 : ℕ) : ZMod p256Prime) - ((432 * p256Constant ^ 2 : ℕ)) := by
    simp only [p256, WeierstrassCurve.Δ, WeierstrassCurve.b₂, WeierstrassCurve.b₄,
      WeierstrassCurve.b₆, WeierstrassCurve.b₈]
    push_cast
    ring
  rw [hdisc, sub_ne_zero, Ne, ZMod.natCast_eq_natCast_iff']
  decide +kernel

end StandardCurves

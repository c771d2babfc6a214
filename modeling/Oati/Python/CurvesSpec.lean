import Oati.Library.Residues
import Oati.Library.StandardCurves
import Oati.Python.Curves

/-!
# The curve arithmetic in Python

What the functions on integers compute, in the groups of the two curves. A point in extended
coordinates represents a point of the twisted Edwards curve (`EdPoint.Represents`); `_add` and
`_scalar` represent the sum and the multiple, `_equal` decides equality. A pair of least residues,
or `None`, are the coordinates of a point of P-256, and `_padd` and `_pmul` give the coordinates of
the sum and of the multiple.
-/

namespace Oati.Python.Crypto

open StandardCurves (p25519 edwards25519 d25519 Acceptable)
open BinaryMethod (foldr_bits double_and_add)

/-! ### Powers -/

theorem pow_eq (base : ℤ) (exponent : ℕ) (modulus : ℤ) :
    pow base exponent modulus = base ^ exponent % modulus := by
  refine foldr_bits (R := fun n r => r = base ^ n % modulus) (by rw [pow_zero])
    (fun bit n r hr => ?_) exponent
  have hsq : r * r % modulus = base ^ (2 * n) % modulus := by
    rw [hr, ← Int.mul_emod, ← pow_add, two_mul]
  cases bit with
  | false => simpa using hsq
  | true =>
    dsimp only
    rw [if_pos rfl, hsq, Nat.bit_true_apply, pow_succ, Int.mul_emod, Int.emod_emod, ← Int.mul_emod]

theorem cast_pow (base : ℤ) (exponent n : ℕ) :
    ((pow base exponent n : ℤ) : ZMod n) = (base : ZMod n) ^ exponent := by
  rw [pow_eq, ZMod.intCast_mod, Int.cast_pow]

theorem cast_mod (a : ℤ) : ((a % (fieldPrime : ℤ) : ℤ) : ZMod p25519) = a :=
  ZMod.intCast_mod a p25519

theorem cast_curveD : ((curveD : ℤ) : ZMod p25519) = edwards25519.d := by
  have hvalue : curveD = (d25519 : ℤ) := by decide +kernel
  rw [hvalue, Int.cast_natCast]
  rfl

/-! ### Extended coordinates -/

/-- Valid extended coordinates of a point. -/
structure EdPoint.Represents (p : EdPoint) (P : edwards25519.Point) : Prop where
  z_ne : (p.z : ZMod p25519) ≠ 0
  xy_eq : (p.x : ZMod p25519) * p.y = p.z * p.t
  x_eq : (p.x : ZMod p25519) = P.x * p.z
  y_eq : (p.y : ZMod p25519) = P.y * p.z

namespace EdPoint

variable {p q : EdPoint} {P Q : edwards25519.Point}

theorem Represents.t_eq (h : p.Represents P) : (p.t : ZMod p25519) = P.x * P.y * p.z := by
  refine mul_left_cancel₀ h.z_ne ?_
  rw [← h.xy_eq, h.x_eq, h.y_eq]
  ring

theorem represents_zero : zero.Represents 0 := by
  constructor <;> simp [zero]

theorem Represents.add (hp : p.Represents P) (hq : q.Represents Q) :
    (p.add q).Represents (P + Q) := by
  have hplus := EdwardsCurve.one_add_ne_zero P.onCurve Q.onCurve
  have hminus := EdwardsCurve.one_sub_ne_zero P.onCurve Q.onCurve
  have hx : (P + Q).x * (1 + edwards25519.d * (P.x * Q.x * (P.y * Q.y)))
      = P.x * Q.y + Q.x * P.y := div_mul_cancel₀ _ hplus
  have hy : (P + Q).y * (1 - edwards25519.d * (P.x * Q.x * (P.y * Q.y)))
      = P.y * Q.y + P.x * Q.x := div_mul_cancel₀ _ hminus
  -- the four factors, scaled by the product of the denominators
  generalize hw : 2 * ((p.z : ZMod p25519) * q.z) = w
  have hwne : w ≠ 0 := by
    rw [← hw]
    exact mul_ne_zero edwards25519.two_ne_zero (mul_ne_zero hp.z_ne hq.z_ne)
  have he : ((p.y : ZMod p25519) + p.x) * (q.y + q.x) - (p.y - p.x) * (q.y - q.x)
      = w * (P.x * Q.y + Q.x * P.y) := by
    rw [← hw, hp.x_eq, hp.y_eq, hq.x_eq, hq.y_eq]
    ring
  have hh : ((p.y : ZMod p25519) + p.x) * (q.y + q.x) + (p.y - p.x) * (q.y - q.x)
      = w * (P.y * Q.y + P.x * Q.x) := by
    rw [← hw, hp.x_eq, hp.y_eq, hq.x_eq, hq.y_eq]
    ring
  have hf : 2 * (p.z : ZMod p25519) * q.z - 2 * edwards25519.d * p.t * q.t
      = w * (1 - edwards25519.d * (P.x * Q.x * (P.y * Q.y))) := by
    rw [← hw, hp.t_eq, hq.t_eq]
    ring
  have hg : 2 * (p.z : ZMod p25519) * q.z + 2 * edwards25519.d * p.t * q.t
      = w * (1 + edwards25519.d * (P.x * Q.x * (P.y * Q.y))) := by
    rw [← hw, hp.t_eq, hq.t_eq]
    ring
  constructor
  · simp only [EdPoint.add, cast_mod, Int.cast_mul, Int.cast_sub, Int.cast_add, Int.cast_ofNat,
      cast_curveD, hf, hg]
    exact mul_ne_zero (mul_ne_zero hwne hminus) (mul_ne_zero hwne hplus)
  · simp only [EdPoint.add, cast_mod, Int.cast_mul, Int.cast_sub, Int.cast_add]
    ring
  · simp only [EdPoint.add, cast_mod, Int.cast_mul, Int.cast_sub, Int.cast_add, Int.cast_ofNat,
      cast_curveD, he, hf, hg]
    linear_combination -w ^ 2 * (1 - edwards25519.d * (P.x * Q.x * (P.y * Q.y))) * hx
  · simp only [EdPoint.add, cast_mod, Int.cast_mul, Int.cast_sub, Int.cast_add, Int.cast_ofNat,
      cast_curveD, hh, hf, hg]
    linear_combination -w ^ 2 * (1 + edwards25519.d * (P.x * Q.x * (P.y * Q.y))) * hy

theorem Represents.scalar (hp : p.Represents P) (n : ℕ) : (p.scalar n).Represents (n • P) :=
  @double_and_add _ _ _ Represents _ Represents.add _ _ _ represents_zero hp n

theorem Represents.equal_iff (hp : p.Represents P) (hq : q.Represents Q) :
    p.equal q = true ↔ P = Q := by
  have hz : (p.z : ZMod p25519) * q.z ≠ 0 := mul_ne_zero hp.z_ne hq.z_ne
  have hcross : ∀ {a b : ZMod p25519} {u v : ℤ}, (u : ZMod p25519) = a * p.z →
      (v : ZMod p25519) = b * q.z →
      (u * q.z % (fieldPrime : ℤ) = v * p.z % (fieldPrime : ℤ) ↔ a = b) := by
    intro a b u v hu hv
    refine (Residue.emod_eq_emod_iff (n := p25519)).trans ?_
    rw [Int.cast_mul, Int.cast_mul, hu, hv]
    refine ⟨fun h => mul_right_cancel₀ hz ?_, fun h => ?_⟩
    · linear_combination h
    · rw [h]
      ring
  rw [equal, Bool.and_eq_true, beq_iff_eq, beq_iff_eq, hcross hp.x_eq hq.x_eq,
    hcross hp.y_eq hq.y_eq, EdwardsCurve.Point.ext_iff]

theorem Represents.smallOrder_iff (hp : p.Represents P) : p.smallOrder = true ↔ 8 • P = 0 :=
  (hp.scalar 8).equal_iff represents_zero

/-- Extended coordinates of a point of the curve: `Z` is not zero, and `X Y = Z T`. -/
structure Valid (p : EdPoint) : Prop where
  z_ne : (p.z : ZMod p25519) ≠ 0
  xy_eq : (p.x : ZMod p25519) * p.y = p.z * p.t
  onCurve : edwards25519.OnCurve (p.x / p.z) (p.y / p.z)

/-- The point that valid extended coordinates are those of. -/
def Valid.point (h : p.Valid) : edwards25519.Point := ⟨_, _, h.onCurve⟩

theorem Valid.represents (h : p.Valid) : p.Represents h.point :=
  ⟨h.z_ne, h.xy_eq, (div_mul_cancel₀ _ h.z_ne).symm, (div_mul_cancel₀ _ h.z_ne).symm⟩

theorem Represents.exists_valid (h : p.Represents P) : ∃ hp : p.Valid, hp.point = P := by
  have hx : (p.x / p.z : ZMod p25519) = P.x := by
    rw [h.x_eq, mul_div_cancel_right₀ _ h.z_ne]
  have hy : (p.y / p.z : ZMod p25519) = P.y := by
    rw [h.y_eq, mul_div_cancel_right₀ _ h.z_ne]
  refine ⟨⟨h.z_ne, h.xy_eq, ?_⟩, EdwardsCurve.Point.ext hx hy⟩
  rw [hx, hy]
  exact P.onCurve

end EdPoint

/-! ### Decoding a point -/

theorem cast_rootOfMinusOne : ((rootOfMinusOne : ℤ) : ZMod p25519) = edwards25519.i := by
  rw [rootOfMinusOne]
  exact (cast_pow 2 _ p25519).trans (congrArg (· ^ _) (Int.cast_ofNat 2))

theorem fromLittle_lt (data : List UInt8) : fromLittle data < 256 ^ data.length := by
  induction data with
  | nil => decide
  | cons b rest ih =>
    have hb := b.toNat_lt
    rw [fromLittle, List.foldr_cons, List.length_cons, pow_succ, ← fromLittle]
    omega

/-- What `_xrecover` returns: a candidate for a square root, of even parity. -/
theorem xrecover_spec {y : ℤ} :
    ∃ a r root : ℤ,
      (a : ZMod p25519) = ((y : ZMod p25519) * y - 1) / (edwards25519.d * (y * y) + 1) ∧
      (r : ZMod p25519) = (a : ZMod p25519) ^ ((p25519 + 3) / 8) ∧
      ((r * r - a) % p25519 = 0 ∧ root = r ∨
        (r * r - a) % p25519 ≠ 0 ∧ (root : ZMod p25519) = r * edwards25519.i) ∧
      (0 ≤ root ∧ root < p25519) ∧
      xrecover y = if root % 2 = 0 then root else p25519 - root := by
  unfold xrecover
  lift_lets
  extract_lets square r root
  refine ⟨square, r, root, ?_, ?_, ?_, ?_, rfl⟩
  · have hinverse : ((pow (curveD * y * y + 1) (fieldPrime - 2) fieldPrime : ℤ) : ZMod p25519)
        = (edwards25519.d * (y * y) + 1)⁻¹ := by
      refine ((cast_pow _ _ p25519).trans (Residue.pow_sub_two (by decide) _)).trans ?_
      push_cast
      rw [cast_curveD, mul_assoc]
    unfold square
    push_cast
    rw [hinverse, div_eq_mul_inv]
  · exact (cast_pow _ _ p25519).trans (congrArg (· ^ _) (cast_mod square))
  · by_cases hcandidate : (r * r - square) % p25519 = 0
    · exact .inl ⟨hcandidate, if_neg (not_not.mpr hcandidate)⟩
    · refine .inr ⟨hcandidate, ?_⟩
      have heq : root = r * rootOfMinusOne % fieldPrime := if_pos hcandidate
      rw [heq, cast_mod, Int.cast_mul, cast_rootOfMinusOne]
  · unfold root r
    rw [pow_eq]
    split_ifs
    · exact ⟨Int.emod_nonneg _ (by decide), Int.emod_lt_of_pos _ (by decide)⟩
    · exact ⟨Int.emod_nonneg _ (by decide), Int.emod_lt_of_pos _ (by decide)⟩

/-- A key is decoded to a point that is not of small order exactly if it is acceptable. -/
theorem decodePoint_iff (data : List UInt8) :
    ((decodePoint data).any fun point => !point.smallOrder) = true ↔
      data.length = 32 ∧ Acceptable (fromLittle data / 2 ^ 255 : ℕ) (fromLittle data % 2 ^ 255 : ℕ) := by
  unfold decodePoint
  by_cases hlength : data.length = 32
  swap
  · rw [if_pos hlength]
    exact iff_of_false Bool.false_ne_true fun h => hlength h.1
  rw [if_neg (not_not.mpr hlength), and_iff_right hlength]
  have hvalue := fromLittle_lt data
  rw [hlength] at hvalue
  have hsign : ((fromLittle data / 2 ^ 255 : ℕ) : ℤ) = 0 ∨
      ((fromLittle data / 2 ^ 255 : ℕ) : ℤ) = 1 := by omega
  have hy := Int.natCast_nonneg (fromLittle data % 2 ^ 255)
  generalize ((fromLittle data / 2 ^ 255 : ℕ) : ℤ) = sign at hsign
  generalize ((fromLittle data % 2 ^ 255 : ℕ) : ℤ) = y at hy
  dsimp only
  by_cases hlarge : y ≥ fieldPrime
  · rw [if_pos hlarge]
    exact iff_of_false Bool.false_ne_true (StandardCurves.not_acceptable_of_le hlarge)
  rw [if_neg hlarge]
  obtain ⟨a, r, root, ha, hr, hroot, hrange, hx⟩ := xrecover_spec (y := y)
  -- the even root and the wanted parity give what the root itself and the parity give
  have hparity : (if xrecover y % 2 ≠ sign then (fieldPrime : ℤ) - xrecover y else xrecover y)
      = if root % 2 ≠ sign then (p25519 : ℤ) - root else root := by
    have hodd : (p25519 : ℤ) % 2 = 1 := by decide
    have hprime : (fieldPrime : ℤ) = p25519 := rfl
    rw [hx, hprime]
    split_ifs <;> omega
  have hcurve : (xrecover y * xrecover y * (curveD * y * y + 1) - (y * y - 1)) % fieldPrime = 0 ↔
      (root * root - a) % p25519 = 0 := by
    have hsquare : ((xrecover y : ℤ) : ZMod p25519) * xrecover y = root * root := by
      rw [hx]
      split_ifs
      · rfl
      · push_cast
        rw [ZMod.natCast_self]
        ring
    refine (Residue.emod_eq_zero_iff (n := p25519)).trans
      (Iff.trans ?_ (Residue.emod_eq_zero_iff (n := p25519)).symm)
    push_cast
    rw [hsquare, cast_curveD, mul_assoc edwards25519.d, sub_eq_zero, sub_eq_zero, ha,
      eq_div_iff (StandardCurves.den_ne_zero _)]
  rcases StandardCurves.root_cases hsign hy (not_le.mp hlarge) ha hr hroot hrange with
    ⟨hnone, hnot⟩ | ⟨hsome, P, hPx, hPy, hiff⟩
  · rw [if_pos fun h => hnone (hcurve.mp h)]
    exact iff_of_false Bool.false_ne_true hnot
  rw [if_neg (not_not.mpr (hcurve.mpr hsome)), hparity, hiff]
  generalize (if root % 2 ≠ sign then (p25519 : ℤ) - root else root) = x at hPx
  by_cases hzero : x = 0 ∧ sign ≠ 0
  · rw [if_pos hzero]
    refine iff_of_false Bool.false_ne_true (not_not.mpr ?_)
    refine StandardCurves.eight_nsmul_of_x_eq_zero ?_
    rw [hPx, hzero.1, Int.cast_zero]
  · have hrepresents : EdPoint.Represents ⟨x, y, 1, x * y % fieldPrime⟩ P := by
      constructor
      · simp
      · simp [cast_mod]
      · simp [hPx]
      · simp [hPy]
    rw [if_neg hzero, Option.any_some, Bool.not_eq_true', ← Bool.not_eq_true,
      hrepresents.smallOrder_iff]

/-! ### P-256 -/

section P256

open StandardCurves (p256 p256_equation_iff p256_nonsingular_iff)
open WeierstrassCurve.Affine (Point)

theorem p256Prime_eq : p256Prime = (StandardCurves.p256Prime : ℤ) := by decide

theorem cast_mod_p256 (a : ℤ) : ((a % p256Prime : ℤ) : ZMod StandardCurves.p256Prime) = a := by
  rw [p256Prime_eq, ZMod.intCast_mod]

theorem cast_p256A : ((p256A : ℤ) : ZMod StandardCurves.p256Prime) = -3 := by
  rw [p256A, p256Prime_eq]
  simp

theorem emod_eq_val_p256 {a : ℤ} {x : ZMod StandardCurves.p256Prime}
    (h : (a : ZMod StandardCurves.p256Prime) = x) : a % p256Prime = x.val := by
  rw [p256Prime_eq, Residue.emod_eq_val h]

/-- The coordinates of a point, as least residues; `None` is the point at infinity. -/
def coordinates : p256.Point → Option (ℤ × ℤ)
  | .zero => none
  | .some x y _ => some (x.val, y.val)

/-- The inverse as the code computes it. -/
theorem cast_inverse (a : ℤ) :
    ((pow a (p256Prime - 2).toNat p256Prime : ℤ) : ZMod StandardCurves.p256Prime)
      = (a : ZMod StandardCurves.p256Prime)⁻¹ := by
  have hexponent : (p256Prime - 2).toNat = StandardCurves.p256Prime - 2 := by decide
  rw [p256Prime_eq, cast_pow, ← p256Prime_eq, hexponent]
  exact Residue.pow_sub_two (by decide) _

variable {x₁ y₁ x₂ y₂ : ZMod StandardCurves.p256Prime}

theorem cast_val (x : ZMod StandardCurves.p256Prime) :
    (((x.val : ℕ) : ℤ) : ZMod StandardCurves.p256Prime) = x := by
  rw [Int.cast_natCast, ZMod.natCast_zmod_val]

theorem val_inj : ((x₁.val : ℕ) : ℤ) = x₂.val ↔ x₁ = x₂ := by
  rw [Nat.cast_inj, (ZMod.val_injective _).eq_iff]

theorem negY_eq (x y : ZMod StandardCurves.p256Prime) : p256.negY x y = -y := by
  simp [WeierstrassCurve.Affine.negY, p256]

/-- The condition under which `_padd` gives the point at infinity. -/
theorem opposite_iff : ((x₁.val : ℕ) : ℤ) = x₂.val ∧ ((y₁.val : ℤ) + y₂.val) % p256Prime = 0 ↔
    x₁ = x₂ ∧ y₁ = p256.negY x₂ y₂ := by
  rw [val_inj, p256Prime_eq, Residue.emod_eq_zero_iff, Int.cast_add, cast_val, cast_val, negY_eq,
    eq_neg_iff_add_eq_zero]

/-- The slope as the code computes it. -/
theorem cast_slope (h₁ : p256.Nonsingular x₁ y₁) (h₂ : p256.Nonsingular x₂ y₂)
    (hne : ¬ (x₁ = x₂ ∧ y₁ = p256.negY x₂ y₂)) :
    (((if ((x₁.val : ℤ), (y₁.val : ℤ)) = ((x₂.val : ℤ), (y₂.val : ℤ)) then
        (3 * (x₁.val : ℤ) * x₁.val + p256A) * pow (2 * y₁.val) (p256Prime - 2).toNat p256Prime
      else ((y₂.val : ℤ) - y₁.val)
        * pow (((x₂.val : ℤ) - x₁.val) % p256Prime) (p256Prime - 2).toNat p256Prime) : ℤ) :
        ZMod StandardCurves.p256Prime) = p256.slope x₁ x₂ y₁ y₂ := by
  by_cases hx : x₁ = x₂
  · have hy : y₁ ≠ p256.negY x₂ y₂ := fun h => hne ⟨hx, h⟩
    obtain rfl : y₁ = y₂ := WeierstrassCurve.Affine.Y_eq_of_Y_ne h₁.1 h₂.1 hx hy
    subst hx
    rw [if_pos rfl, WeierstrassCurve.Affine.slope_of_Y_ne rfl hy]
    have hnum : 3 * x₁ ^ 2 + 2 * p256.a₂ * x₁ + p256.a₄ - p256.a₁ * y₁ = 3 * x₁ * x₁ + -3 := by
      simp only [p256]
      ring
    have hden : y₁ - p256.negY x₁ y₁ = 2 * y₁ := by
      rw [negY_eq]
      ring
    rw [hnum, hden, div_eq_mul_inv]
    push_cast
    rw [cast_inverse, cast_p256A]
    push_cast
    simp only [ZMod.natCast_zmod_val]
  · rw [if_neg (fun h => hx (val_inj.mp (congrArg Prod.fst h))),
      WeierstrassCurve.Affine.slope_of_X_ne hx]
    push_cast
    rw [cast_inverse, cast_mod_p256]
    push_cast
    simp only [ZMod.natCast_zmod_val]
    rw [← neg_sub y₁, ← neg_sub x₁, inv_neg, neg_mul_neg, div_eq_mul_inv]

/-- A point is added coordinate by coordinate. -/
theorem padd_coordinates (P Q : p256.Point) :
    padd (coordinates P) (coordinates Q) = coordinates (P + Q) := by
  match P, Q with
  | .zero, Q =>
    rw [← WeierstrassCurve.Affine.Point.zero_def, zero_add]
    cases Q <;> rfl
  | .some x₁ y₁ h₁, .zero =>
    rw [← WeierstrassCurve.Affine.Point.zero_def, add_zero]
    rfl
  | .some x₁ y₁ h₁, .some x₂ y₂ h₂ =>
    unfold coordinates padd
    dsimp only
    by_cases hopposite : x₁ = x₂ ∧ y₁ = p256.negY x₂ y₂
    · rw [if_pos (opposite_iff.mpr hopposite),
        WeierstrassCurve.Affine.Point.add_of_Y_eq hopposite.1 hopposite.2]
    · have hslope := cast_slope h₁ h₂ hopposite
      rw [if_neg (fun h => hopposite (opposite_iff.mp h)),
        WeierstrassCurve.Affine.Point.add_some hopposite]
      have hx : ((_ * _ - (x₁.val : ℤ) - x₂.val) % p256Prime : ℤ) = _ :=
        emod_eq_val_p256 (x := p256.addX x₁ x₂ (p256.slope x₁ x₂ y₁ y₂)) (by
          push_cast
          rw [cast_mod_p256, hslope]
          simp only [ZMod.natCast_zmod_val, WeierstrassCurve.Affine.addX, p256]
          ring)
      refine congrArg some (Prod.ext hx ?_)
      refine emod_eq_val_p256 ?_
      rw [hx]
      push_cast
      rw [cast_mod_p256, hslope]
      simp only [ZMod.natCast_zmod_val, WeierstrassCurve.Affine.addY,
        WeierstrassCurve.Affine.negAddY, negY_eq]
      ring

theorem pmul_coordinates (P : p256.Point) (n : ℕ) :
    pmul (coordinates P) n = coordinates (n • P) :=
  @double_and_add _ _ _ (fun point P => point = coordinates P) _
    (fun hp hq => by rw [hp, hq, padd_coordinates]) _ _ _ rfl rfl n

theorem equation_iff (x y : ℤ) :
    (y * y - x * x * x - p256A * x - p256B) % p256Prime = 0 ↔ p256.Equation x y := by
  have hconstant : p256B = (StandardCurves.p256Constant : ℤ) := by decide
  rw [p256Prime_eq, Residue.emod_eq_zero_iff, p256_equation_iff, hconstant, ← sub_eq_zero]
  push_cast
  rw [cast_p256A]
  constructor
  · intro h
    linear_combination h
  · intro h
    linear_combination h

/-- The coordinates of the points are the pairs that the code takes for points. -/
theorem onP256_iff (x y : ℤ) :
    onP256 x y = true ↔ ∃ P : p256.Point, coordinates P = some (x, y) := by
  simp only [onP256, Bool.and_eq_true, decide_eq_true_eq, beq_iff_eq, equation_iff]
  constructor
  · rintro ⟨⟨⟨⟨hx, hxlt⟩, hy⟩, hylt⟩, hcurve⟩
    rw [p256Prime_eq] at hxlt hylt
    refine ⟨.some _ _ (p256_nonsingular_iff.mpr hcurve), ?_⟩
    rw [coordinates, Residue.val_of_range hx hxlt, Residue.val_of_range hy hylt]
  · rintro ⟨P, hP⟩
    cases P with
    | zero => cases hP
    | some x' y' h =>
      obtain ⟨rfl, rfl⟩ := Prod.ext_iff.mp (Option.some.inj hP)
      dsimp only
      rw [p256Prime_eq, cast_val, cast_val]
      exact ⟨⟨⟨⟨Int.natCast_nonneg _, Int.ofNat_lt.mpr x'.val_lt⟩, Int.natCast_nonneg _⟩,
        Int.ofNat_lt.mpr y'.val_lt⟩, h.1⟩

end P256

end Oati.Python.Crypto

import Mathlib.Algebra.Field.Basic
import Mathlib.Algebra.Group.Even
import Mathlib.Tactic.FieldSimp
import Mathlib.Tactic.LinearCombination
import Mathlib.Tactic.Ring

/-!
# Twisted Edwards curves

The curve `y² - x² = 1 + d x² y²` over a field in which `-1` is a square and `d` is not. There the
denominators of the addition law never vanish, so that it is one formula for all pairs of points,
and the points form a commutative group.

Associativity is one identity (`assoc_aux`): the difference of the two sums is a combination of
eight monomials, whose coefficients are all of the same form, up to the symmetry of the curve that
exchanges `x²` and `-y²`.
-/

/-- A twisted Edwards curve with a complete addition law. -/
structure EdwardsCurve (F : Type*) [Field F] where
  d : F
  i : F
  i_sq : i ^ 2 = -1
  not_isSquare : ¬ IsSquare d
  two_ne_zero : (2 : F) ≠ 0

namespace EdwardsCurve

variable {F : Type*} [Field F] (E : EdwardsCurve F)

/-- The equation of the curve. -/
def OnCurve (x y : F) : Prop := y ^ 2 - x ^ 2 = 1 + E.d * (x ^ 2 * y ^ 2)

variable {E} {x₁ y₁ x₂ y₂ x₃ y₃ : F}

/-! ### Completeness -/

theorem eq_zero_of_mul_sq {a b : F} (h : E.d * a ^ 2 = b ^ 2) : a = 0 := by
  by_contra ha
  refine E.not_isSquare ⟨b / a, ?_⟩
  field_simp
  exact h

theorem root_eq (hp : E.OnCurve x₁ y₁) (hq : E.OnCurve x₂ y₂) {e j : F} (hj : j ^ 2 = -1)
    (he : E.d * (x₁ * x₂ * (y₁ * y₂)) = e) (hsq : e ^ 2 = 1) :
    E.d * (x₁ * y₁ * (j * x₂ + y₂)) ^ 2 = (j * x₁ + e * y₁) ^ 2 := by
  unfold OnCurve at hp hq
  linear_combination E.d * x₁ ^ 2 * y₁ ^ 2 * hq + (E.d * x₁ ^ 2 * y₁ ^ 2 * x₂ ^ 2 - x₁ ^ 2) * hj
    + (2 * j * x₁ * y₁ + e + E.d * (x₁ * x₂ * (y₁ * y₂))) * he - hp + (1 - y₁ ^ 2) * hsq

theorem sq_ne_one (hp : E.OnCurve x₁ y₁) (hq : E.OnCurve x₂ y₂) :
    (E.d * (x₁ * x₂ * (y₁ * y₂))) ^ 2 ≠ 1 := by
  intro hsq
  have hne : E.d * (x₁ * x₂ * (y₁ * y₂)) ≠ 0 := by
    intro h
    rw [h] at hsq
    simp at hsq
  have hm : x₁ * y₁ ≠ 0 := fun h => hne (by linear_combination E.d * x₂ * y₂ * h)
  have hi := eq_zero_of_mul_sq (root_eq hp hq E.i_sq rfl hsq)
  have hj := eq_zero_of_mul_sq (root_eq hp hq (j := -E.i) (by rw [neg_sq, E.i_sq]) rfl hsq)
  have hpos : E.i * x₂ + y₂ = 0 := (mul_eq_zero.mp hi).resolve_left hm
  have hneg : -E.i * x₂ + y₂ = 0 := (mul_eq_zero.mp hj).resolve_left hm
  have hy : y₂ = 0 :=
    (mul_eq_zero.mp (show (2 : F) * y₂ = 0 by linear_combination hpos + hneg)).resolve_left
      E.two_ne_zero
  exact hne (by rw [hy]; ring)

theorem one_add_ne_zero (hp : E.OnCurve x₁ y₁) (hq : E.OnCurve x₂ y₂) :
    1 + E.d * (x₁ * x₂ * (y₁ * y₂)) ≠ 0 := fun h =>
  sq_ne_one hp hq (by linear_combination (E.d * (x₁ * x₂ * (y₁ * y₂)) - 1) * h)

theorem one_sub_ne_zero (hp : E.OnCurve x₁ y₁) (hq : E.OnCurve x₂ y₂) :
    1 - E.d * (x₁ * x₂ * (y₁ * y₂)) ≠ 0 := fun h =>
  sq_ne_one hp hq (by linear_combination -(E.d * (x₁ * x₂ * (y₁ * y₂)) + 1) * h)

/-! ### The sum -/

variable (E) in
/-- The first coordinate of the sum. -/
def sumX (x₁ y₁ x₂ y₂ : F) : F := (x₁ * y₂ + x₂ * y₁) / (1 + E.d * (x₁ * x₂ * (y₁ * y₂)))

variable (E) in
/-- The second coordinate of the sum. -/
def sumY (x₁ y₁ x₂ y₂ : F) : F := (y₁ * y₂ + x₁ * x₂) / (1 - E.d * (x₁ * x₂ * (y₁ * y₂)))

theorem onCurve_sum (hp : E.OnCurve x₁ y₁) (hq : E.OnCurve x₂ y₂) :
    E.OnCurve (E.sumX x₁ y₁ x₂ y₂) (E.sumY x₁ y₁ x₂ y₂) := by
  have hadd := one_add_ne_zero hp hq
  have hsub := one_sub_ne_zero hp hq
  unfold OnCurve at hp hq
  unfold OnCurve sumX sumY
  generalize hu : 1 + E.d * (x₁ * x₂ * (y₁ * y₂)) = u at hadd ⊢
  generalize hv : 1 - E.d * (x₁ * x₂ * (y₁ * y₂)) = v at hsub ⊢
  field_simp
  rw [← hu, ← hv]
  linear_combination
    ((y₂ ^ 2 - x₂ ^ 2) * (1 + E.d * x₁ ^ 2 * y₁ ^ 2 * (E.d * x₂ ^ 2 * y₂ ^ 2))
      - E.d * x₂ ^ 2 * y₂ ^ 2 * (y₁ ^ 2 - x₁ ^ 2 + 1 + E.d * x₁ ^ 2 * y₁ ^ 2)) * hp
    + ((1 + E.d * x₁ ^ 2 * y₁ ^ 2) * (1 + E.d * x₁ ^ 2 * y₁ ^ 2 * (E.d * x₂ ^ 2 * y₂ ^ 2))
      - E.d * x₁ ^ 2 * y₁ ^ 2 * (y₂ ^ 2 - x₂ ^ 2 + 1 + E.d * x₂ ^ 2 * y₂ ^ 2)) * hq

/-! ### Associativity -/

/-- The common form of the coefficients, in the squares of the coordinates. -/
theorem assoc_aux {d X₁ Y₁ X₂ Y₂ X₃ Y₃ : F} (h₁ : Y₁ - X₁ = 1 + d * (X₁ * Y₁))
    (h₂ : Y₂ - X₂ = 1 + d * (X₂ * Y₂)) (h₃ : Y₃ - X₃ = 1 + d * (X₃ * Y₃)) :
    d * Y₂ * (Y₁ * (1 + X₃) - Y₃ * (1 + X₁)
      + d * X₂ * (X₁ * Y₁ * (1 + X₃) - X₃ * Y₃ * (1 + X₁))
      + d * (Y₂ - d * X₂ * Y₂) * (Y₁ * (X₃ * Y₃) - Y₃ * (X₁ * Y₁))) = 0 := by
  linear_combination d * Y₂ * ((1 + X₂) * Y₃ - X₂ * (1 + X₃)) * h₁
    + d * Y₂ * (Y₁ * (d * X₃ * Y₃) - Y₃ * (d * X₁ * Y₁)) * h₂
    + d * Y₂ * (X₂ * (1 + X₁) - (1 + X₂) * Y₁) * h₃

/-- The equation of the curve in squares, after the exchange of `x²` and `-y²`. -/
theorem OnCurve.swap (h : E.OnCurve x₁ y₁) :
    -x₁ ^ 2 - -y₁ ^ 2 = 1 + E.d * (-y₁ ^ 2 * -x₁ ^ 2) := by
  unfold OnCurve at h
  linear_combination h

theorem sumX_num_assoc (h₁ : E.OnCurve x₁ y₁) (h₂ : E.OnCurve x₂ y₂) (h₃ : E.OnCurve x₃ y₃) :
    ((x₁ * y₂ + x₂ * y₁) * (1 - E.d * (x₁ * x₂ * (y₁ * y₂))) * y₃
        + (y₁ * y₂ + x₁ * x₂) * (1 + E.d * (x₁ * x₂ * (y₁ * y₂))) * x₃)
      * ((1 - (E.d * (x₂ * x₃ * (y₂ * y₃))) ^ 2)
        + E.d * (x₁ * y₁ * ((x₂ * y₃ + x₃ * y₂) * (y₂ * y₃ + x₂ * x₃))))
    = (x₁ * ((y₂ * y₃ + x₂ * x₃) * (1 + E.d * (x₂ * x₃ * (y₂ * y₃))))
        + y₁ * ((x₂ * y₃ + x₃ * y₂) * (1 - E.d * (x₂ * x₃ * (y₂ * y₃)))))
      * ((1 - (E.d * (x₁ * x₂ * (y₁ * y₂))) ^ 2)
        + E.d * ((x₁ * y₂ + x₂ * y₁) * (y₁ * y₂ + x₁ * x₂) * (x₃ * y₃))) := by
  linear_combination x₁ * x₂ * x₃ * assoc_aux h₁ h₂ h₃
    + x₁ * y₂ * y₃ * assoc_aux h₁ h₂.swap h₃.swap
    + y₁ * x₂ * y₃ * assoc_aux h₁.swap h₂ h₃.swap
    + y₁ * y₂ * x₃ * assoc_aux h₁.swap h₂.swap h₃

theorem sumY_num_assoc (h₁ : E.OnCurve x₁ y₁) (h₂ : E.OnCurve x₂ y₂) (h₃ : E.OnCurve x₃ y₃) :
    ((y₁ * y₂ + x₁ * x₂) * (1 + E.d * (x₁ * x₂ * (y₁ * y₂))) * y₃
        + (x₁ * y₂ + x₂ * y₁) * (1 - E.d * (x₁ * x₂ * (y₁ * y₂))) * x₃)
      * ((1 - (E.d * (x₂ * x₃ * (y₂ * y₃))) ^ 2)
        - E.d * (x₁ * y₁ * ((x₂ * y₃ + x₃ * y₂) * (y₂ * y₃ + x₂ * x₃))))
    = (y₁ * ((y₂ * y₃ + x₂ * x₃) * (1 + E.d * (x₂ * x₃ * (y₂ * y₃))))
        + x₁ * ((x₂ * y₃ + x₃ * y₂) * (1 - E.d * (x₂ * x₃ * (y₂ * y₃)))))
      * ((1 - (E.d * (x₁ * x₂ * (y₁ * y₂))) ^ 2)
        - E.d * ((x₁ * y₂ + x₂ * y₁) * (y₁ * y₂ + x₁ * x₂) * (x₃ * y₃))) := by
  linear_combination y₁ * y₂ * y₃ * assoc_aux h₁.swap h₂.swap h₃.swap
    + x₁ * x₂ * y₃ * assoc_aux h₁ h₂ h₃.swap
    + y₁ * x₂ * x₃ * assoc_aux h₁.swap h₂ h₃
    + x₁ * y₂ * x₃ * assoc_aux h₁ h₂.swap h₃

theorem sumX_comm (x₁ y₁ x₂ y₂ : F) : E.sumX x₁ y₁ x₂ y₂ = E.sumX x₂ y₂ x₁ y₁ := by
  unfold sumX
  rw [add_comm (x₁ * y₂), mul_comm x₁ x₂, mul_comm y₁ y₂]

theorem sumY_comm (x₁ y₁ x₂ y₂ : F) : E.sumY x₁ y₁ x₂ y₂ = E.sumY x₂ y₂ x₁ y₁ := by
  unfold sumY
  rw [mul_comm x₁ x₂, mul_comm y₁ y₂]

/-- The denominators of a sum whose first point is itself a fraction. -/
theorem den_div {a b u v : F} (hu : u ≠ 0) (hv : v ≠ 0) (x y d : F) :
    1 + d * (a / u * x * (b / v * y)) = (u * v + d * (a * b * (x * y))) / (u * v) := by
  field_simp

theorem sumX_div {a b u v : F} (hu : u ≠ 0) (hv : v ≠ 0) (x y : F) :
    E.sumX (a / u) (b / v) x y = (a * v * y + b * u * x) / (u * v + E.d * (a * b * (x * y))) := by
  have hnum : a / u * y + x * (b / v) = (a * v * y + b * u * x) / (u * v) := by
    field_simp
  rw [sumX, den_div hu hv, hnum, div_div_div_cancel_right₀ (mul_ne_zero hu hv)]

theorem sumY_div {a b u v : F} (hu : u ≠ 0) (hv : v ≠ 0) (x y : F) :
    E.sumY (a / u) (b / v) x y = (b * u * y + a * v * x) / (u * v - E.d * (a * b * (x * y))) := by
  have hnum : b / v * y + a / u * x = (b * u * y + a * v * x) / (u * v) := by
    field_simp
  have hden := den_div (a := a) (b := b) hu hv x y (-E.d)
  rw [neg_mul, neg_mul, ← sub_eq_add_neg, ← sub_eq_add_neg] at hden
  rw [sumY, hden, hnum, div_div_div_cancel_right₀ (mul_ne_zero hu hv)]

theorem sumX_assoc (h₁ : E.OnCurve x₁ y₁) (h₂ : E.OnCurve x₂ y₂) (h₃ : E.OnCurve x₃ y₃) :
    E.sumX (E.sumX x₁ y₁ x₂ y₂) (E.sumY x₁ y₁ x₂ y₂) x₃ y₃
      = E.sumX x₁ y₁ (E.sumX x₂ y₂ x₃ y₃) (E.sumY x₂ y₂ x₃ y₃) := by
  have hu := one_add_ne_zero h₁ h₂
  have hv := one_sub_ne_zero h₁ h₂
  have hs := one_add_ne_zero h₂ h₃
  have ht := one_sub_ne_zero h₂ h₃
  have hleft := one_add_ne_zero (onCurve_sum h₁ h₂) h₃
  have hright := one_add_ne_zero (onCurve_sum h₂ h₃) h₁
  rw [sumX, sumY, den_div hu hv] at hleft
  rw [sumX, sumY, den_div hs ht] at hright
  rw [sumX_comm x₁ y₁ (E.sumX x₂ y₂ x₃ y₃), sumX.eq_def E x₁, sumY.eq_def E x₁, sumX.eq_def E x₂,
    sumY.eq_def E x₂, sumX_div hu hv, sumX_div hs ht, div_eq_div_iff]
  · linear_combination sumX_num_assoc h₁ h₂ h₃
  · exact fun h => hleft (by rw [h, zero_div])
  · exact fun h => hright (by rw [h, zero_div])

theorem sumY_assoc (h₁ : E.OnCurve x₁ y₁) (h₂ : E.OnCurve x₂ y₂) (h₃ : E.OnCurve x₃ y₃) :
    E.sumY (E.sumX x₁ y₁ x₂ y₂) (E.sumY x₁ y₁ x₂ y₂) x₃ y₃
      = E.sumY x₁ y₁ (E.sumX x₂ y₂ x₃ y₃) (E.sumY x₂ y₂ x₃ y₃) := by
  have hu := one_add_ne_zero h₁ h₂
  have hv := one_sub_ne_zero h₁ h₂
  have hs := one_add_ne_zero h₂ h₃
  have ht := one_sub_ne_zero h₂ h₃
  have hleft := one_sub_ne_zero (onCurve_sum h₁ h₂) h₃
  have hright := one_sub_ne_zero (onCurve_sum h₂ h₃) h₁
  rw [sub_eq_add_neg, ← neg_mul, sumX, sumY, den_div hu hv] at hleft
  rw [sub_eq_add_neg, ← neg_mul, sumX, sumY, den_div hs ht] at hright
  rw [sumY_comm x₁ y₁ (E.sumX x₂ y₂ x₃ y₃), sumX.eq_def E x₁, sumY.eq_def E x₁, sumX.eq_def E x₂,
    sumY.eq_def E x₂, sumY_div hu hv, sumY_div hs ht, div_eq_div_iff]
  · linear_combination sumY_num_assoc h₁ h₂ h₃
  · exact fun h => hleft (by rw [neg_mul, ← sub_eq_add_neg, h, zero_div])
  · exact fun h => hright (by rw [neg_mul, ← sub_eq_add_neg, h, zero_div])

/-! ### The group -/

variable (E) in
/-- A point of the curve. -/
@[ext] structure Point where
  x : F
  y : F
  onCurve : E.OnCurve x y

namespace Point

instance : Zero E.Point := ⟨⟨0, 1, by simp [OnCurve]⟩⟩

instance : Add E.Point := ⟨fun P Q => ⟨_, _, onCurve_sum P.onCurve Q.onCurve⟩⟩

instance : Neg E.Point := ⟨fun P => ⟨-P.x, P.y, by simpa [OnCurve] using P.onCurve⟩⟩

@[simp] theorem zero_x : (0 : E.Point).x = 0 := rfl
@[simp] theorem zero_y : (0 : E.Point).y = 1 := rfl
@[simp] theorem neg_x (P : E.Point) : (-P).x = -P.x := rfl
@[simp] theorem neg_y (P : E.Point) : (-P).y = P.y := rfl
@[simp] theorem add_x (P Q : E.Point) : (P + Q).x = E.sumX P.x P.y Q.x Q.y := rfl
@[simp] theorem add_y (P Q : E.Point) : (P + Q).y = E.sumY P.x P.y Q.x Q.y := rfl

protected theorem zero_add (P : E.Point) : 0 + P = P := by
  ext
  · simp [sumX]
  · simp [sumY]

protected theorem neg_add_cancel (P : E.Point) : -P + P = 0 := by
  have hcurve := P.onCurve
  have hne := one_sub_ne_zero (-P).onCurve P.onCurve
  unfold OnCurve at hcurve
  ext
  · simp only [add_x, neg_x, neg_y, zero_x, sumX]
    rw [div_eq_zero_iff]
    left
    ring
  · simp only [add_y, neg_x, neg_y, zero_y, sumY] at hne ⊢
    rw [div_eq_one_iff_eq hne]
    linear_combination hcurve

instance : AddCommGroup E.Point where
  add_assoc P Q R := by
    ext
    · exact sumX_assoc P.onCurve Q.onCurve R.onCurve
    · exact sumY_assoc P.onCurve Q.onCurve R.onCurve
  zero_add := Point.zero_add
  add_zero P := by
    ext
    · simp [sumX]
    · simp [sumY]
  add_comm P Q := by
    ext
    · exact sumX_comm _ _ _ _
    · exact sumY_comm _ _ _ _
  neg_add_cancel := Point.neg_add_cancel
  nsmul := nsmulRec
  zsmul := zsmulRec

end Point

end EdwardsCurve

import Oati.Library.StandardCurves
import Oati.TypeScript.CryptoSpec

/-!
# Ed25519 public keys in TypeScript

The arithmetic of `isValidEd25519PublicKey` in the group of the curve: `modPow` and `inverse` are
the power and the inverse, `addEdwards` is the sum, and a decoded key is accepted if and only if it
is that of a point which is not of small order.
-/

namespace Oati.TypeScript

open StandardCurves (p25519 edwards25519 Acceptable affine)

theorem mod_eq {value modulus : ℤ} (h : 0 < modulus) : mod value modulus = value % modulus := by
  unfold mod
  dsimp only
  rw [Int.tmod_eq_emod]
  have hrange := Int.emod_nonneg value h.ne'
  have hlt := Int.emod_lt_of_pos value h
  have habs : (modulus.natAbs : ℤ) = modulus := by omega
  split_ifs with hcase hneg hneg
  · omega
  · omega
  · rw [habs]
    omega
  · have hzero : value % modulus ≠ 0 := fun hdvd =>
      hcase (.inr (Int.dvd_of_emod_eq_zero hdvd))
    omega

theorem modPowLoop_eq {modulus : ℤ} (hmodulus : 0 < modulus) (power : ℕ) (result factor : ℤ)
    (hresult : 0 ≤ result) (hlt : result < modulus) (hfactor : 0 ≤ factor) :
    modPowLoop modulus power result factor = result * factor ^ power % modulus := by
  induction power using Nat.strong_induction_on generalizing result factor with
  | h power ih =>
    by_cases hpower : power = 0
    · rw [hpower, modPowLoop, if_pos rfl, pow_zero, mul_one, Int.emod_eq_of_lt hresult hlt]
    have hsquare : (factor * factor).tmod modulus = factor * factor % modulus :=
      Int.tmod_eq_emod_of_nonneg (mul_nonneg hfactor hfactor)
    have hproduct : (result * factor).tmod modulus = result * factor % modulus :=
      Int.tmod_eq_emod_of_nonneg (mul_nonneg hresult hfactor)
    have hnext : 0 ≤ (if power % 2 = 1 then (result * factor).tmod modulus else result) ∧
        (if power % 2 = 1 then (result * factor).tmod modulus else result) < modulus := by
      split_ifs
      · rw [hproduct]
        exact ⟨Int.emod_nonneg _ hmodulus.ne', Int.emod_lt_of_pos _ hmodulus⟩
      · exact ⟨hresult, hlt⟩
    have hsquared : 0 ≤ (factor * factor).tmod modulus := by
      rw [hsquare]
      exact Int.emod_nonneg _ hmodulus.ne'
    have hpow : (factor * factor % modulus) ^ (power / 2) ≡ factor ^ (2 * (power / 2))
        [ZMOD modulus] := by
      rw [pow_mul, sq]
      exact (Int.mod_modEq _ _).pow _
    rw [modPowLoop, if_neg hpower, ih (power / 2) (by omega) _ _ hnext.1 hnext.2 hsquared, hsquare]
    split_ifs with hodd
    · have hsplit : factor ^ power = factor * factor ^ (2 * (power / 2)) := by
        rw [← pow_succ', show 2 * (power / 2) + 1 = power by omega]
      rw [hproduct, hsplit, ← mul_assoc]
      exact (Int.mod_modEq _ _).mul hpow
    · have hsplit : factor ^ power = factor ^ (2 * (power / 2)) := by
        rw [show 2 * (power / 2) = power by omega]
      rw [hsplit]
      exact (Int.ModEq.refl _).mul hpow

theorem modPow_eq {modulus : ℤ} (hmodulus : 1 < modulus) (base : ℤ) (exponent : ℕ) :
    modPow base exponent modulus = base ^ exponent % modulus := by
  have hpos : 0 < modulus := by omega
  rw [modPow, mod_eq hpos, modPowLoop_eq hpos exponent 1 _ (by omega) hmodulus
    (Int.emod_nonneg _ hpos.ne'), one_mul]
  exact (Int.mod_modEq _ _).pow _

/-! ### In the field -/

theorem ED25519_P_eq : ED25519_P = (p25519 : ℤ) := by decide

theorem cast_mod (value : ℤ) : ((mod value ED25519_P : ℤ) : ZMod p25519) = value := by
  rw [mod_eq (by decide), ED25519_P_eq, ZMod.intCast_mod]

theorem cast_modPow (base : ℤ) (exponent : ℕ) :
    ((modPow base exponent ED25519_P : ℤ) : ZMod p25519) = (base : ZMod p25519) ^ exponent := by
  rw [modPow_eq (by decide), ED25519_P_eq, ZMod.intCast_mod, Int.cast_pow]

theorem cast_inverse (value : ℤ) :
    ((inverse value ED25519_P : ℤ) : ZMod p25519) = (value : ZMod p25519)⁻¹ := by
  have hexponent : (ED25519_P - 2).toNat = p25519 - 2 := by decide
  rw [inverse, cast_modPow, cast_mod, hexponent]
  exact Residue.pow_sub_two (by decide) _

theorem cast_ED25519_D : ((ED25519_D : ℤ) : ZMod p25519) = edwards25519.d := by
  rw [ED25519_D, cast_mod, StandardCurves.d_eq]
  push_cast
  rw [cast_inverse]
  push_cast
  rfl

theorem cast_ED25519_I : ((ED25519_I : ℤ) : ZMod p25519) = edwards25519.i := by
  have hexponent : ((ED25519_P - 1) / 4).toNat = (p25519 - 1) / 4 := by decide
  rw [ED25519_I, cast_modPow, hexponent, Int.cast_ofNat]
  rfl

theorem mod_eq_val {value : ℤ} {x : ZMod p25519} (h : (value : ZMod p25519) = x) :
    mod value ED25519_P = x.val := by
  rw [mod_eq (by decide), ED25519_P_eq, Residue.emod_eq_val h]

/-- `addEdwards` is the sum of the curve. -/
theorem addEdwards_eq {p q : ℤ × ℤ} {P Q : edwards25519.Point} (hp : StandardCurves.Denotes p P)
    (hq : StandardCurves.Denotes q Q) : addEdwards p q = affine (P + Q) := by
  have hfactor : ((mod (ED25519_D * p.1 * q.1 * p.2 * q.2) ED25519_P : ℤ) : ZMod p25519)
      = edwards25519.d * (P.x * Q.x * (P.y * Q.y)) := by
    rw [cast_mod]
    push_cast
    rw [cast_ED25519_D, hp.1, hp.2, hq.1, hq.2]
    ring
  refine Prod.ext (mod_eq_val ?_) (mod_eq_val ?_)
  · push_cast
    rw [cast_inverse]
    push_cast
    rw [hfactor, hp.1, hp.2, hq.1, hq.2, ← div_eq_mul_inv]
    exact congrArg (· / _) (by ring)
  · push_cast
    rw [cast_inverse]
    push_cast
    rw [hfactor, hp.1, hp.2, hq.1, hq.2, ← div_eq_mul_inv]
    rfl

/-- Three doublings. -/
theorem iterate_addEdwards {p : ℤ × ℤ} {P : edwards25519.Point} (hp : StandardCurves.Denotes p P) :
    (fun p => addEdwards p p)^[3] p = affine (8 • P) := by
  have hdouble (P : edwards25519.Point) : addEdwards (affine P) (affine P) = affine (P + P) :=
    addEdwards_eq (StandardCurves.denotes_affine P) (StandardCurves.denotes_affine P)
  rw [Function.iterate_succ_apply, Function.iterate_succ_apply, Function.iterate_succ_apply,
    Function.iterate_zero_apply, addEdwards_eq hp hp, hdouble, hdouble]
  congr 1
  abel

theorem mod_eq_emod (value : ℤ) : mod value ED25519_P = value % p25519 := by
  rw [mod_eq (by decide), ED25519_P_eq]

/-- The test of a decoded key. -/
theorem isValidEd25519Point_iff {sign y : ℤ} (hsign : sign = 0 ∨ sign = 1) (hy : 0 ≤ y) :
    isValidEd25519Point sign y = true ↔ Acceptable sign y := by
  unfold isValidEd25519Point
  by_cases hlarge : y ≥ ED25519_P
  · rw [if_pos hlarge, Bool.false_eq_true, false_iff]
    exact StandardCurves.not_acceptable_of_le (by rwa [← ED25519_P_eq])
  rw [if_neg hlarge]
  lift_lets
  extract_lets y2 x2 r root x multiplied
  have hx2 : (x2 : ZMod p25519)
      = ((y : ZMod p25519) * y - 1) / (edwards25519.d * (y * y) + 1) := by
    rw [cast_mod]
    push_cast
    rw [cast_inverse]
    push_cast
    rw [cast_mod, cast_ED25519_D, div_eq_mul_inv]
    push_cast
    rfl
  have hr : (r : ZMod p25519) = (x2 : ZMod p25519) ^ ((p25519 + 3) / 8) := by
    rw [cast_modPow, show ((ED25519_P + 3) / 8).toNat = (p25519 + 3) / 8 by decide]
  have hroot : (r * r - x2) % p25519 = 0 ∧ root = r ∨
      (r * r - x2) % p25519 ≠ 0 ∧ (root : ZMod p25519) = r * edwards25519.i := by
    rw [← mod_eq_emod]
    by_cases hcandidate : mod (r * r - x2) ED25519_P = 0
    · exact .inl ⟨hcandidate, if_neg (not_not.mpr hcandidate)⟩
    · refine .inr ⟨hcandidate, ?_⟩
      have heq : root = mod (r * ED25519_I) ED25519_P := if_pos hcandidate
      rw [heq, cast_mod, Int.cast_mul, cast_ED25519_I]
  have hrange : 0 ≤ root ∧ root < p25519 := by
    have hmodPow : r = x2 ^ ((ED25519_P + 3) / 8).toNat % p25519 := by
      rw [← ED25519_P_eq]
      exact modPow_eq (by decide) _ _
    unfold root
    split_ifs
    · rw [mod_eq_emod]
      exact ⟨Int.emod_nonneg _ (by decide), Int.emod_lt_of_pos _ (by decide)⟩
    · rw [hmodPow]
      exact ⟨Int.emod_nonneg _ (by decide), Int.emod_lt_of_pos _ (by decide)⟩
  have hylt : y < p25519 := by
    rw [← ED25519_P_eq]
    exact not_le.mp hlarge
  rw [mod_eq_emod]
  rcases StandardCurves.root_cases hsign hy hylt hx2 hr hroot hrange with
    ⟨hnone, hnot⟩ | ⟨hsome, P, hPx, hPy, hiff⟩
  · rw [if_pos hnone, Bool.false_eq_true, false_iff]
    exact hnot
  rw [if_neg (not_not.mpr hsome), hiff]
  have hx : (x : ZMod p25519) = P.x := by
    rw [hPx, ← ED25519_P_eq]
  by_cases hzero : x = 0 ∧ sign = 1
  · rw [if_pos hzero, Bool.false_eq_true, false_iff, not_not]
    refine StandardCurves.eight_nsmul_of_x_eq_zero ?_
    rw [← hx, hzero.1, Int.cast_zero]
  · have hmultiplied : multiplied = affine (8 • P) := iterate_addEdwards (p := (x, y)) ⟨hx, hPy.symm⟩
    rw [if_neg hzero, hmultiplied, Bool.or_eq_true, decide_eq_true_eq, decide_eq_true_eq,
      ← not_and_or, StandardCurves.affine_eq_zero_iff]

/-! ### Encoded keys -/

theorem littleEndian_lt (bytes : List UInt8) : littleEndian bytes < 256 ^ bytes.length := by
  induction bytes with
  | nil => decide
  | cons b rest ih =>
    have hb := b.toNat_lt
    rw [littleEndian, List.length_cons, pow_succ]
    omega

/-- The top bit of 32 bytes. -/
theorem sign_cases {bytes : List UInt8} (h : bytes.length = 32) :
    (littleEndian bytes : ℤ) / 2 ^ 255 = 0 ∨ (littleEndian bytes : ℤ) / 2 ^ 255 = 1 := by
  have hlt := littleEndian_lt bytes
  rw [h] at hlt
  omega

/-- What a key of 32 bytes has to encode. -/
def AcceptableKey (bytes : List UInt8) : Prop :=
  bytes.length = 32 ∧
    Acceptable ((littleEndian bytes : ℤ) / 2 ^ 255) ((littleEndian bytes : ℤ) % 2 ^ 255)

/-- `isValidEd25519PublicKey` on the text of a byte string. -/
theorem isValidEd25519PublicKey_iff (bytes : List UInt8) :
    isValidEd25519PublicKey (some (.str (String.ofList (Base64.encode bytes)))) = true
      ↔ AcceptableKey bytes := by
  rw [isValidEd25519PublicKey, String.toList_ofList]
  by_cases hnil : bytes = []
  · subst hnil
    exact iff_of_false (by decide) fun h => absurd h.1 (by decide)
  · rw [fromBase64url_encode hnil]
    dsimp only
    rw [Bool.and_eq_true, decide_eq_true_eq]
    refine and_congr_right fun hlength => ?_
    exact isValidEd25519Point_iff (sign_cases hlength) (Int.emod_nonneg _ (by decide))

end Oati.TypeScript

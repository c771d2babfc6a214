import Oati.Cli.Signature
import Oati.TypeScript.PublicKeys

/-!
# Ed25519 public keys in Go

`validEd25519PublicKey` of the command line, of which the SDK has a copy, in the group of the
curve. No inverse is asked of a multiple of the prime, because the addition law is complete.
-/

namespace Oati.Cli

open StandardCurves (p25519 edwards25519 Acceptable Denotes affine)
open TypeScript (ED25519_P ED25519_P_eq AcceptableKey)

theorem fieldPrime_eq : fieldPrime = ED25519_P := rfl

theorem emod_eq_zero_iff {value : ℤ} :
    value % fieldPrime = 0 ↔ (value : ZMod p25519) = 0 := by
  rw [fieldPrime_eq, ED25519_P_eq, Residue.emod_eq_zero_iff]

theorem cast_emod (value : ℤ) : ((value % fieldPrime : ℤ) : ZMod p25519) = value := by
  rw [fieldPrime_eq, ED25519_P_eq, ZMod.intCast_mod]

theorem emod_eq_val {value : ℤ} {x : ZMod p25519} (h : (value : ZMod p25519) = x) :
    value % fieldPrime = x.val := by
  rw [fieldPrime_eq, ED25519_P_eq, Residue.emod_eq_val h]

/-- The inverse of an integer that is no multiple of the prime. -/
theorem modInverse_eq {value : ℤ} (h : (value : ZMod p25519) ≠ 0) :
    ∃ inverse : ℤ, modInverse value = some inverse ∧
      (inverse : ZMod p25519) = (value : ZMod p25519)⁻¹ := by
  refine ⟨_, if_neg fun hzero => h (emod_eq_zero_iff.mp hzero), ?_⟩
  have hexponent : (fieldPrime - 2).toNat = p25519 - 2 := by decide
  rw [fieldPrime_eq, TypeScript.cast_modPow, ← fieldPrime_eq, hexponent]
  exact Residue.pow_sub_two (by decide) _

/-- `addEdwards` is the sum of the curve. -/
theorem addEdwards_eq {d : ℤ} (hd : (d : ZMod p25519) = edwards25519.d) {a b : ℤ × ℤ}
    {P Q : edwards25519.Point} (ha : Denotes a P) (hb : Denotes b Q) :
    addEdwards d a b = some (affine (P + Q)) := by
  have hfactor : ((d * (a.1 * b.1 * (a.2 * b.2)) % fieldPrime : ℤ) : ZMod p25519)
      = edwards25519.d * (P.x * Q.x * (P.y * Q.y)) := by
    rw [cast_emod]
    push_cast
    rw [hd, ha.1, ha.2, hb.1, hb.2]
  have hplus := EdwardsCurve.one_add_ne_zero P.onCurve Q.onCurve
  have hminus := EdwardsCurve.one_sub_ne_zero P.onCurve Q.onCurve
  unfold addEdwards
  dsimp only
  generalize d * (a.1 * b.1 * (a.2 * b.2)) % fieldPrime = factor at hfactor ⊢
  have hdenX : (((1 + factor) % fieldPrime : ℤ) : ZMod p25519)
      = 1 + edwards25519.d * (P.x * Q.x * (P.y * Q.y)) := by
    rw [cast_emod, Int.cast_add, Int.cast_one, hfactor]
  have hdenY : (((1 - factor) % fieldPrime : ℤ) : ZMod p25519)
      = 1 - edwards25519.d * (P.x * Q.x * (P.y * Q.y)) := by
    rw [cast_emod, Int.cast_sub, Int.cast_one, hfactor]
  obtain ⟨denX, hX, hXinv⟩ := modInverse_eq (hdenX ▸ hplus)
  obtain ⟨denY, hY, hYinv⟩ := modInverse_eq (hdenY ▸ hminus)
  rw [hX, hY]
  refine congrArg some (Prod.ext ?_ ?_)
  · refine emod_eq_val ?_
    push_cast
    rw [hXinv, hdenX, ha.1, ha.2, hb.1, hb.2, ← div_eq_mul_inv]
    exact congrArg (· / _) (by ring)
  · refine emod_eq_val ?_
    push_cast
    rw [hYinv, hdenY, ha.1, ha.2, hb.1, hb.2, ← div_eq_mul_inv]
    rfl

/-- The square root with the wanted parity: none if there is no square root, and one that decides
whether the encoding is acceptable otherwise. -/
theorem pointX_spec {x2 sign y : ℤ} (hsign : sign = 0 ∨ sign = 1) (hy : 0 ≤ y)
    (hylt : y < p25519)
    (hx2 : (x2 : ZMod p25519) = ((y : ZMod p25519) * y - 1) / (edwards25519.d * (y * y) + 1)) :
    pointX x2 sign = none ∧ ¬ Acceptable sign y ∨
      ∃ x P, pointX x2 sign = some x ∧ Denotes (x, y) P ∧ (Acceptable sign y ↔ 8 • P ≠ 0) := by
  unfold pointX
  lift_lets
  extract_lets r root x
  have hr : (r : ZMod p25519) = (x2 : ZMod p25519) ^ ((p25519 + 3) / 8) := by
    rw [← show ((fieldPrime + 3) / 8).toNat = (p25519 + 3) / 8 by decide]
    exact TypeScript.cast_modPow _ _
  have hroot : (r * r - x2) % p25519 = 0 ∧ root = r ∨
      (r * r - x2) % p25519 ≠ 0 ∧ (root : ZMod p25519) = r * edwards25519.i := by
    by_cases hcandidate : (r * r - x2) % fieldPrime = 0
    · exact .inl ⟨hcandidate, if_neg (not_not.mpr hcandidate)⟩
    · refine .inr ⟨hcandidate, ?_⟩
      have heq : root = r * TypeScript.ED25519_I % fieldPrime := if_pos hcandidate
      rw [heq, cast_emod, Int.cast_mul, TypeScript.cast_ED25519_I]
  have hrange : 0 ≤ root ∧ root < p25519 := by
    have hmodPow : r = x2 ^ ((fieldPrime + 3) / 8).toNat % p25519 := by
      rw [← ED25519_P_eq]
      exact TypeScript.modPow_eq (by decide) _ _
    unfold root
    split_ifs
    · exact ⟨Int.emod_nonneg _ (by decide), Int.emod_lt_of_pos _ (by decide)⟩
    · rw [hmodPow]
      exact ⟨Int.emod_nonneg _ (by decide), Int.emod_lt_of_pos _ (by decide)⟩
  rcases StandardCurves.root_cases hsign hy hylt hx2 hr hroot hrange with
    ⟨hnone, hnot⟩ | ⟨hsome, P, hPx, hPy, hiff⟩
  · exact .inl ⟨if_pos hnone, hnot⟩
  have hnonzero : (root * root - x2) % fieldPrime = 0 := hsome
  rw [if_neg (not_not.mpr hnonzero)]
  have hx : (x : ZMod p25519) = P.x := by
    rw [hPx]
    rfl
  by_cases hzero : x = 0 ∧ sign = 1
  · refine .inl ⟨if_pos hzero, ?_⟩
    rw [hiff, not_not]
    refine StandardCurves.eight_nsmul_of_x_eq_zero ?_
    rw [← hx, hzero.1, Int.cast_zero]
  · exact .inr ⟨x, P, if_neg hzero, ⟨hx, hPy.symm⟩, hiff⟩

theorem modInverse_121666 : ∃ inverse : ℤ, modInverse 121666 = some inverse ∧
    ((-121665 * inverse % fieldPrime : ℤ) : ZMod p25519) = edwards25519.d := by
  have hne : ((121666 : ℤ) : ZMod p25519) ≠ 0 := by
    rw [Ne, ← emod_eq_zero_iff]
    decide
  obtain ⟨inverse, heq, hcast⟩ := modInverse_eq hne
  refine ⟨inverse, heq, ?_⟩
  rw [cast_emod, StandardCurves.d_eq, Int.cast_mul, hcast]
  push_cast
  rfl

/-- `validEd25519PublicKey` accepts the keys of points that are not of small order. -/
theorem validEd25519PublicKey_iff (encoded : List UInt8) :
    validEd25519PublicKey encoded = true ↔ AcceptableKey encoded := by
  unfold validEd25519PublicKey AcceptableKey
  by_cases hlength : encoded.length = 32
  swap
  · rw [if_pos hlength, Bool.false_eq_true, false_iff]
    exact fun h => hlength h.1
  rw [if_neg (not_not.mpr hlength), and_iff_right hlength]
  have hsign := TypeScript.sign_cases hlength
  have hy : (0 : ℤ) ≤ TypeScript.littleEndian encoded % 2 ^ 255 := Int.emod_nonneg _ (by decide)
  generalize (TypeScript.littleEndian encoded : ℤ) / 2 ^ 255 = sign at hsign
  generalize (TypeScript.littleEndian encoded : ℤ) % 2 ^ 255 = y at hy
  dsimp only
  by_cases hlarge : y ≥ fieldPrime
  · rw [if_pos hlarge, Bool.false_eq_true, false_iff]
    exact StandardCurves.not_acceptable_of_le hlarge
  rw [if_neg hlarge]
  obtain ⟨i, hi, hd⟩ := modInverse_121666
  rw [hi, Option.bind_eq_bind, Option.bind_some]
  generalize -121665 * i % fieldPrime = d at hd
  have hden : (((d * (y * y % fieldPrime) + 1) % fieldPrime : ℤ) : ZMod p25519)
      = edwards25519.d * (y * y) + 1 := by
    rw [cast_emod]
    push_cast
    rw [cast_emod, hd, Int.cast_mul]
  obtain ⟨inverse, hinverse, hcast⟩ :=
    modInverse_eq (hden ▸ StandardCurves.den_ne_zero (y : ZMod p25519))
  rw [hinverse, Option.bind_some]
  have hx2 : (((y * y % fieldPrime - 1) % fieldPrime * inverse % fieldPrime : ℤ) : ZMod p25519)
      = ((y : ZMod p25519) * y - 1) / (edwards25519.d * (y * y) + 1) := by
    rw [cast_emod, Int.cast_mul, cast_emod, Int.cast_sub, cast_emod, hcast, hden, Int.cast_mul,
      Int.cast_one, div_eq_mul_inv]
  rcases pointX_spec hsign hy (not_le.mp hlarge) hx2 with ⟨hnone, hnot⟩ | ⟨x, P, hsome, hP, hiff⟩
  · rw [hnone]
    exact iff_of_false Bool.false_ne_true hnot
  have hdouble (P : edwards25519.Point) :
      addEdwards d (affine P) (affine P) = some (affine (P + P)) :=
    addEdwards_eq hd (StandardCurves.denotes_affine P) (StandardCurves.denotes_affine P)
  have height : P + P + (P + P) + (P + P + (P + P)) = 8 • P := by abel
  simp only [hsome, addEdwards_eq hd hP hP, hdouble, height, Option.bind_eq_bind, Option.bind_some,
    Option.any_some]
  rw [hiff, Bool.or_eq_true, decide_eq_true_eq, decide_eq_true_eq, ← not_and_or,
    StandardCurves.affine_eq_zero_iff]

end Oati.Cli

import Oati.Cli.PublicKeys
import Oati.Go.Crypto
import Oati.Python.CurvesSpec

/-!
# The curves of the signatures

The implementations recover the point of an Ed25519 key by the same square root and then add in
different coordinates. All of them compute in the group of the curve (`curve_arithmetic`), and so
they accept the same keys (`publicKeys_agree`): those of 32 bytes which encode a point that is not
of small order.
-/

namespace Oati

open StandardCurves (p25519 edwards25519 p256 affine)
open Python.Crypto (EdPoint coordinates padd pmul onP256 fromLittle decodePoint)
open TypeScript (AcceptableKey littleEndian)

/-! ### Sums and multiples -/

/-- The operations on integers are those of the groups of the two curves: in extended coordinates,
in the affine ones of the complete formula, and on P-256, whose points are the pairs that the
verifier takes for points and `None`. -/
theorem curve_arithmetic {p q : EdPoint} (hp : p.Valid) (hq : q.Valid) (n : ℕ)
    (P Q : edwards25519.Point) (R S : p256.Point) :
    (∃ hsum : (p.add q).Valid, hsum.point = hp.point + hq.point)
      ∧ (∃ hmultiple : (p.scalar n).Valid, hmultiple.point = n • hp.point)
      ∧ (p.equal q = true ↔ hp.point = hq.point)
      ∧ TypeScript.addEdwards (affine P) (affine Q) = affine (P + Q)
      ∧ padd (coordinates R) (coordinates S) = coordinates (R + S)
      ∧ pmul (coordinates R) n = coordinates (n • R)
      ∧ ∀ x y : ℤ, onP256 x y = true ↔ ∃ T : p256.Point, coordinates T = some (x, y) :=
  ⟨(hp.represents.add hq.represents).exists_valid, (hp.represents.scalar n).exists_valid,
    hp.represents.equal_iff hq.represents,
    TypeScript.addEdwards_eq (StandardCurves.denotes_affine P) (StandardCurves.denotes_affine Q),
    Python.Crypto.padd_coordinates R S, Python.Crypto.pmul_coordinates R n,
    Python.Crypto.onP256_iff⟩

/-- The base point of Ed25519, in extended coordinates. -/
def basePoint : EdPoint where
  x := 15112221349535400772501151409588531511454012693041857206046113283949847762202
  y := 46316835694926478169428394003475163141307993866256225615783033603165251855960
  z := 1
  t := 46827403850823179245072216630277197565144205554125654976674165829533817101731

theorem basePoint_valid : basePoint.Valid where
  z_ne := by simp [basePoint]
  xy_eq := by
    rw [← Int.cast_mul, ← Int.cast_mul, ← Residue.emod_eq_emod_iff]
    decide
  onCurve := by
    have hcurve : (basePoint.x * basePoint.x
        * (Python.Crypto.curveD * (basePoint.y * basePoint.y) + 1)
        - (basePoint.y * basePoint.y - 1)) % p25519 = 0 := by decide +kernel
    rw [Residue.emod_eq_zero_iff] at hcurve
    push_cast at hcurve
    rw [Python.Crypto.cast_curveD, sub_eq_zero] at hcurve
    rw [show ((basePoint.z : ℤ) : ZMod p25519) = 1 from Int.cast_one, div_one, div_one]
    exact StandardCurves.onCurve_iff_mul.mpr hcurve

theorem curve_arithmetic_base : ∃ h : basePoint.Valid, ∃ hdouble : (basePoint.scalar 2).Valid,
    hdouble.point = 2 • h.point :=
  ⟨basePoint_valid, (curve_arithmetic basePoint_valid basePoint_valid 2 0 0 0 0).2.1⟩

/-! ### Public keys -/

theorem fromLittle_eq (data : List UInt8) : fromLittle data = littleEndian data := by
  induction data with
  | nil => rfl
  | cons b rest ih =>
    rw [fromLittle, List.foldr_cons, ← fromLittle, ih, littleEndian, add_comm]

/-- All implementations accept the Ed25519 keys of 32 bytes whose point, of the encoded second
coordinate and parity, is on the curve and not of small order. -/
theorem publicKeys_agree (bytes : List UInt8) :
    (TypeScript.isValidEd25519PublicKey (some (.str (String.ofList (Base64.encode bytes)))) = true
        ↔ AcceptableKey bytes)
      ∧ (Go.validEd25519PublicKey bytes = true ↔ AcceptableKey bytes)
      ∧ (Cli.validEd25519PublicKey bytes = true ↔ AcceptableKey bytes)
      ∧ (((decodePoint bytes).any fun point => !point.smallOrder) = true
        ↔ AcceptableKey bytes) := by
  refine ⟨TypeScript.isValidEd25519PublicKey_iff bytes, Cli.validEd25519PublicKey_iff bytes,
    Cli.validEd25519PublicKey_iff bytes, ?_⟩
  rw [Python.Crypto.decodePoint_iff, fromLittle_eq, AcceptableKey]
  push_cast
  rfl

end Oati

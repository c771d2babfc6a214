import Mathlib.Data.Int.GCD
import Mathlib.Data.Nat.Bits
import Oati.Library.Utf8

/-!
# Signatures in Python

The arithmetic of Ed25519 and of ECDSA over P-256, as the SDK does it on integers. The hash
functions are parameters.
-/

namespace Oati.Python.Crypto

/-! ### Integers and bytes -/

/-- `pow(base, exponent, modulus)`, from the highest bit of the exponent down. -/
def pow (base : ℤ) (exponent : ℕ) (modulus : ℤ) : ℤ :=
  exponent.bits.foldr (fun bit acc =>
    let square := acc * acc % modulus
    if bit then square * base % modulus else square) (1 % modulus)

/-- `pow(s, -1, modulus)`, for an invertible `s`. -/
def inverse (s modulus : ℤ) : ℤ := Int.gcdA s modulus % modulus

/-- `int.from_bytes(data, "little")`. -/
def fromLittle (data : List UInt8) : ℕ := data.foldr (fun b n => 256 * n + b.toNat) 0

/-- `int.from_bytes(data, "big")`. -/
def fromBig (data : List UInt8) : ℕ := data.foldl (fun n b => 256 * n + b.toNat) 0

/-! ### Ed25519 -/

/-- `Q`. -/
def fieldPrime : ℕ := 2 ^ 255 - 19

/-- `L`. -/
def groupOrder : ℕ := 2 ^ 252 + 27742317777372353535851937790883648493

/-- `D`. -/
def curveD : ℤ := -121665 * pow 121666 (fieldPrime - 2) fieldPrime % fieldPrime

/-- `I`. -/
def rootOfMinusOne : ℤ := pow 2 ((fieldPrime - 1) / 4) fieldPrime

/-- `_xrecover`. -/
def xrecover (y : ℤ) : ℤ :=
  let square := (y * y - 1) * pow (curveD * y * y + 1) (fieldPrime - 2) fieldPrime
  let x := pow (square % fieldPrime) ((fieldPrime + 3) / 8) fieldPrime
  let x := if (x * x - square) % fieldPrime ≠ 0 then x * rootOfMinusOne % fieldPrime else x
  if x % 2 = 0 then x else fieldPrime - x

/-- A point in extended coordinates. -/
structure EdPoint where
  x : ℤ
  y : ℤ
  z : ℤ
  t : ℤ

/-- `_decode_point`; `none` is a `ValueError`. -/
def decodePoint (data : List UInt8) : Option EdPoint :=
  if data.length ≠ 32 then none
  else
    let sign : ℤ := (fromLittle data / 2 ^ 255 : ℕ)
    let y : ℤ := (fromLittle data % 2 ^ 255 : ℕ)
    if y ≥ fieldPrime then none
    else
      let x := xrecover y
      if (x * x * (curveD * y * y + 1) - (y * y - 1)) % fieldPrime ≠ 0 then none
      else
        let x := if x % 2 ≠ sign then fieldPrime - x else x
        if x = 0 ∧ sign ≠ 0 then none
        else some ⟨x, y, 1, x * y % fieldPrime⟩

/-- `_add`. -/
def EdPoint.add (p q : EdPoint) : EdPoint :=
  let a := (p.y - p.x) * (q.y - q.x) % fieldPrime
  let b := (p.y + p.x) * (q.y + q.x) % fieldPrime
  let c := 2 * curveD * p.t * q.t % fieldPrime
  let d := 2 * p.z * q.z % fieldPrime
  let e := b - a
  let f := d - c
  let g := d + c
  let h := b + a
  ⟨e * f % fieldPrime, g * h % fieldPrime, f * g % fieldPrime, e * h % fieldPrime⟩

/-- The neutral point. -/
def EdPoint.zero : EdPoint := ⟨0, 1, 1, 0⟩

/-- `_scalar`, from the lowest bit up. -/
def EdPoint.scalar (p : EdPoint) (n : ℕ) : EdPoint :=
  (n.bits.foldl (fun (state : EdPoint × EdPoint) bit =>
    (if bit then state.1.add state.2 else state.1, state.2.add state.2)) (.zero, p)).1

/-- `_equal`. -/
def EdPoint.equal (p q : EdPoint) : Bool :=
  p.x * q.z % fieldPrime == q.x * p.z % fieldPrime
    && p.y * q.z % fieldPrime == q.y * p.z % fieldPrime

/-- `_small_order`. -/
def EdPoint.smallOrder (p : EdPoint) : Bool := (p.scalar 8).equal .zero

/-- The encoding of `B`: `58` and 31 times `66`. -/
def basePointBytes : List UInt8 := 0x58 :: List.replicate 31 0x66

/-- `_ed25519_verify`. -/
def ed25519Verify (sha512 : List UInt8 → List UInt8) (publicKey message signature : List UInt8) :
    Bool :=
  if publicKey.length ≠ 32 ∨ signature.length ≠ 64 then false
  else
    match decodePoint publicKey, decodePoint (signature.take 32), decodePoint basePointBytes with
    | some a, some r, some base =>
      let s := fromLittle (signature.drop 32)
      if s ≥ groupOrder ∨ a.smallOrder ∨ r.smallOrder then false
      else
        let h := fromLittle (sha512 (signature.take 32 ++ publicKey ++ message)) % groupOrder
        (base.scalar s).equal (r.add (a.scalar h))
    | _, _, _ => false

/-! ### P-256 -/

/-- `P256_P`. -/
def p256Prime : ℤ := 0xffffffff00000001000000000000000000000000ffffffffffffffffffffffff

/-- `P256_A`. -/
def p256A : ℤ := p256Prime - 3

/-- The constant term of the curve. -/
def p256B : ℤ := 0x5ac635d8aa3a93e7b3ebbd55769886bc651d06b0cc53b0f63bce3c3e27d2604b

/-- `P256_N`. -/
def p256Order : ℤ := 0xffffffff00000000ffffffffffffffffbce6faada7179e84f3b9cac2fc632551

/-- `P256_G`. -/
def p256Base : ℤ × ℤ :=
  (0x6b17d1f2e12c4247f8bce6e563a440f277037d812deb33a0f4a13945d898c296,
    0x4fe342e2fe1a7f9b8ee7eb4a7c0f9e162bce33576b315ececbb6406837bf51f5)

/-- `_padd`; `none` is the point at infinity. -/
def padd (p q : Option (ℤ × ℤ)) : Option (ℤ × ℤ) :=
  match p, q with
  | none, q => q
  | p, none => p
  | some p, some q =>
    if p.1 = q.1 ∧ (p.2 + q.2) % p256Prime = 0 then none
    else
      let slope :=
        (if p = q then (3 * p.1 * p.1 + p256A) * pow (2 * p.2) (p256Prime - 2).toNat p256Prime
        else (q.2 - p.2) * pow ((q.1 - p.1) % p256Prime) (p256Prime - 2).toNat p256Prime)
          % p256Prime
      let x := (slope * slope - p.1 - q.1) % p256Prime
      some (x, (slope * (p.1 - x) - p.2) % p256Prime)

/-- `_pmul`. -/
def pmul (point : Option (ℤ × ℤ)) (value : ℕ) : Option (ℤ × ℤ) :=
  (value.bits.foldl (fun (state : Option (ℤ × ℤ) × Option (ℤ × ℤ)) bit =>
    (if bit then padd state.1 state.2 else state.1, padd state.2 state.2)) (none, point)).1

/-- The point lies on the curve, with coordinates below the prime. -/
def onP256 (x y : ℤ) : Bool :=
  0 ≤ x && x < p256Prime && 0 ≤ y && y < p256Prime
    && (y * y - x * x * x - p256A * x - p256B) % p256Prime == 0

/-- `_es256_verify` on a signature `r`, `s` in range and the bytes of the coordinates. -/
def es256Check (sha256 : List UInt8 → List UInt8) (x y message : List UInt8) (r s : ℤ) : Bool :=
  if x.length ≠ 32 ∨ y.length ≠ 32 then false
  else if !onP256 (fromBig x) (fromBig y) then false
  else
    let z : ℤ := fromBig (sha256 message)
    let w := inverse s p256Order
    let point := padd (pmul (some p256Base) (z * w % p256Order).toNat)
      (pmul (some (fromBig x, fromBig y)) (r * w % p256Order).toNat)
    point.any fun point => point.1 % p256Order == r

end Oati.Python.Crypto

import Oati.Go.Decimal

/-!
# The decimal helpers of the SDK and of the CLI

The two evaluators written in Go have helpers of their own. They read a text with the same steps
and differ in how they pad the digits of a result: the SDK puts zeros in front one by one, the CLI
all at once.

* `Sdk.decimalAdd`, `Sdk.decimalMultiply`; `Cli.decimalAdd`, `Cli.decimalMultiply`: the helpers.
* `Sdk.decimalAdd_eq`, `Cli.decimalAdd_eq`, …: both are the arithmetic of the model of the
  evaluators.
-/

namespace Oati.Go

open TypeScript (bigintChars)

/-- Zeros in front of the digits, until there are more than `scale` of them. -/
def prependZeros (scale : ℕ) (digits : List Char) : List Char :=
  if digits.length ≤ scale then prependZeros scale ('0' :: digits) else digits
termination_by scale + 1 - digits.length

/-- The loop pads to one digit more than the scale. -/
theorem prependZeros_eq (scale : ℕ) (digits : List Char) :
    prependZeros scale digits = digits.leftpad (scale + 1) '0' := by
  fun_induction prependZeros scale digits with
  | case1 digits hshort ih =>
    have hmissing : scale + 1 - digits.length = (scale + 1 - ('0' :: digits).length) + 1 := by
      rw [List.length_cons]
      omega
    rw [ih, List.leftpad, List.leftpad, hmissing, List.replicate_succ', List.append_assoc]
    rfl
  | case2 digits hlong =>
    have hnone : scale + 1 - digits.length = 0 := by omega
    rw [List.leftpad, hnone]
    rfl

/-- The digits with a point before the last `scale` of them. -/
def pointed (digits : List Char) (scale : ℕ) : String :=
  String.ofList (digits.take (digits.length - scale) ++ '.' :: digits.drop (digits.length - scale))

/-! ### The SDK -/

namespace Sdk

/-- `formatDecimal`. -/
def formatDecimal (n : ℤ) (scale : ℕ) : String :=
  let digits := bigintChars n
  if scale = 0 then String.ofList digits else pointed (prependZeros scale digits) scale

/-- `decimalAdd`. -/
def decimalAdd (a b : String) : Except Fault String := do
  let x ← parseDecimal a
  let y ← parseDecimal b
  let (m, n, scale) := Numeral.FixedPoint.align x y
  return formatDecimal (m + n) scale

/-- `decimalMultiply`. -/
def decimalMultiply (v : String) (n : ℤ) : Except Fault String := do
  let d ← parseDecimal v
  return formatDecimal (d.coefficient * n) d.scale

theorem formatDecimal_eq (n : ℤ) (scale : ℕ) :
    formatDecimal n scale = TypeScript.formatDecimal n scale := by
  rw [formatDecimal, TypeScript.formatDecimal, pointed, prependZeros_eq]

theorem decimalAdd_eq (a b : String) : decimalAdd a b = Go.decimalAdd a b := by
  simp only [decimalAdd, Go.decimalAdd, formatDecimal_eq]

theorem decimalMultiply_eq (v : String) (n : ℤ) : decimalMultiply v n = Go.decimalMultiply v n := by
  simp only [decimalMultiply, Go.decimalMultiply, formatDecimal_eq]

end Sdk

/-! ### The CLI -/

namespace Cli

/-- `formatDecimalNumber`. -/
def formatDecimalNumber (value : ℤ) (scale : ℕ) : String :=
  if scale = 0 then String.ofList (bigintChars value)
  else
    let digits := bigintChars value
    let padded :=
      if digits.length ≤ scale then List.replicate (scale - digits.length + 1) '0' ++ digits
      else digits
    pointed padded scale

/-- `decimalAdd`. -/
def decimalAdd (left right : String) : Except Fault String := do
  let x ← parseDecimal left
  let y ← parseDecimal right
  let (a, b, scale) := Numeral.FixedPoint.align x y
  return formatDecimalNumber (a + b) scale

/-- `decimalMultiply`. -/
def decimalMultiply (value : String) (multiplier : ℤ) : Except Fault String := do
  let parsed ← parseDecimal value
  return formatDecimalNumber (parsed.coefficient * multiplier) parsed.scale

theorem formatDecimalNumber_eq (n : ℤ) (scale : ℕ) :
    formatDecimalNumber n scale = TypeScript.formatDecimal n scale := by
  have hpadded : ∀ digits : List Char,
      (if digits.length ≤ scale then List.replicate (scale - digits.length + 1) '0' ++ digits
        else digits) = digits.leftpad (scale + 1) '0' := by
    intro digits
    split_ifs with hshort
    · have hmissing : scale - digits.length + 1 = scale + 1 - digits.length := by omega
      rw [hmissing, List.leftpad]
    · have hnone : scale + 1 - digits.length = 0 := by omega
      rw [List.leftpad, hnone]
      rfl
  simp only [formatDecimalNumber, TypeScript.formatDecimal, hpadded, pointed]

theorem decimalAdd_eq (a b : String) : decimalAdd a b = Go.decimalAdd a b := by
  simp only [decimalAdd, Go.decimalAdd, formatDecimalNumber_eq]

theorem decimalMultiply_eq (v : String) (n : ℤ) : decimalMultiply v n = Go.decimalMultiply v n := by
  simp only [decimalMultiply, Go.decimalMultiply, formatDecimalNumber_eq]

end Cli

end Oati.Go

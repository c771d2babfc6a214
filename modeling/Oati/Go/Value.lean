import Mathlib.Data.List.Sort
import Oati.Library.Literal
import Oati.Library.Rfc3339
import Oati.TypeScript.Evaluator

/-!
# The Go side

Documents are what the decoders of the SDK and of the CLI return with `UseNumber`: a JSON number
is its literal. A missing key of a map, and a key of a nil map, reads as the nil value, which is
`none` here. The order of the members of an object is the order in which a run iterates over the
map; nothing is assumed about it.

* the type assertions that the code hides behind helpers (`str`, `object`, `stringsFrom`, …),
  with their zero values;
* `sprint`: `fmt.Sprint`;
* decimals, with the panic of a text that does not parse.

`Runtime` holds what `time.Parse` and `big.Rat` make of texts outside the usual notations.
-/

namespace Oati.Go

open JsonText (Literal)
open Numeral
open TypeScript (isDecimal formatDecimal startsWith)

/-- A value decoded from JSON text. -/
abbrev Value := Json Literal

/-- A `map[string]any`. -/
abbrev Object := List (String × Value)

/-- How a call ends without returning. -/
inductive Fault where
  | panic
  deriving DecidableEq, Repr

/-- A computation that binds another succeeds through an intermediate value. -/
@[simp] theorem bind_eq_ok {α β : Type} {x : Except Fault α} {f : α → Except Fault β} {b : β} :
    (x >>= f) = .ok b ↔ ∃ a, x = .ok a ∧ f a = .ok b := by
  cases x <;> simp [bind, Except.bind]

@[simp] theorem pure_eq_ok {α : Type} {a b : α} :
    (pure a : Except Fault α) = .ok b ↔ a = b := by
  simp [pure, Except.pure]

/-- The parts of the standard library that are left open. -/
structure Runtime where
  /-- `time.Parse(time.RFC3339, s)` on a string that is no RFC 3339 date-time of the calendar, in
  nanoseconds; `none` is an error. -/
  time : String → Option ℤ
  /-- The text of that error. -/
  timeMessage : String → String
  /-- `new(big.Rat).SetString(s)` on a string that is no decimal. -/
  rat : String → Option ℚ

/-- A runtime for inputs that need none of it. -/
def plainRuntime : Runtime where
  time := fun _ => none
  timeMessage := fun _ => ""
  rat := fun _ => none

/-! ### Type assertions -/

/-- `str`, `stringValue`: a string, or the empty one. -/
def str (v : Option Value) : String :=
  match v with
  | some (.str s) => s
  | _ => ""

/-- `object`, `objectFromAny`: a map, or nil. -/
def object (v : Option Value) : Option Object := v.bind Json.members?

/-- `m[key]`, also of a nil map. -/
def index (m : Option Object) (key : String) : Option Value := m.bind (·.lookup key)

@[simp] theorem index_some (m : Object) (key : String) : index (some m) key = m.lookup key := rfl

/-- `boolean`, `boolValue`. -/
def boolean (v : Option Value) : Bool :=
  match v with
  | some (.bool b) => b
  | _ => false

/-- `stringsFrom`, `stringList`: the strings of a list. -/
def stringsFrom (v : Option Value) : List String :=
  match v with
  | some (.arr items) => items.filterMap Json.string?
  | _ => []

/-- `subset`, `stringSubset`. -/
def subset (a b : List String) : Bool := a.all b.contains

/-- The scalar values of the characters; this is the order of the UTF-8 bytes. -/
def codePoints (s : String) : List ℕ := s.toList.map Char.toNat

/-- `sort.Strings`. -/
def sortStrings (xs : List String) : List String :=
  xs.insertionSort fun a b => codePoints a ≤ codePoints b

mutual

/-- `fmt.Sprint(v)`. -/
def sprint : Value → String
  | .null => "<nil>"
  | .bool b => if b then "true" else "false"
  | .num n => n.text
  | .str s => s
  | .arr items => "[" ++ " ".intercalate (sprintItems items) ++ "]"
  | .obj members =>
    let entries := (sprintMembers members).insertionSort fun a b => codePoints a.1 ≤ codePoints b.1
    "map[" ++ " ".intercalate (entries.map fun entry => entry.1 ++ ":" ++ entry.2) ++ "]"
termination_by structural v => v

/-- `fmt.Sprint` of the items of a slice. -/
def sprintItems : List Value → List String
  | [] => []
  | v :: rest => sprint v :: sprintItems rest
termination_by structural items => items

/-- `fmt.Sprint` of the values of a map. -/
def sprintMembers : List (String × Value) → List (String × String)
  | [] => []
  | (key, v) :: rest => (key, sprint v) :: sprintMembers rest
termination_by structural members => members

end

/-- `fmt.Sprint(m[key])`. -/
def sprintOption (v : Option Value) : String := v.elim "<nil>" sprint

/-- `numberString`. -/
def numberString (v : Option Value) : String :=
  match v with
  | some (.str s) => s
  | some (.num n) => n.text
  | _ => ""

/-! ### Integers -/

/-- An optional sign and digits: `big.Int.SetString(s, 10)`, and the syntax of `ParseInt`. -/
def setString (cs : List Char) : Option ℤ :=
  match cs with
  | '+' :: digits => if IsFraction digits then some (Nat.ofDigitChars 10 digits 0) else none
  | '-' :: digits => if IsFraction digits then some (-Nat.ofDigitChars 10 digits 0) else none
  | digits => if IsFraction digits then some (Nat.ofDigitChars 10 digits 0) else none

def maxInt : ℤ := 2 ^ 63 - 1

/-- A sum of two `int`s. -/
def wrap (n : ℤ) : ℤ := n.bmod (2 ^ 64)

/-- `integer`: `Number.Int64` without its error, zero on another syntax and the nearest `int` out
of range. -/
def integer (v : Option Value) : ℤ :=
  match v with
  | some (.num n) => ((setString n.text.toList).map fun k => max (-maxInt - 1) (min k maxInt)).getD 0
  | _ => 0

/-- `intValue`: `strconv.Atoi`, or the fallback on an error. -/
def intValue (v : Option Value) (fallback : ℤ) : ℤ :=
  match v with
  | some (.num n) =>
    ((setString n.text.toList).filter fun k => -maxInt - 1 ≤ k ∧ k ≤ maxInt).getD fallback
  | _ => fallback

/-! ### Time -/

/-- `time.Parse(time.RFC3339, s)` in nanoseconds since 1970; digits after the ninth are cut. -/
def parseTime (runtime : Runtime) (s : String) : Option ℤ :=
  match Rfc3339.parse s with
  | some fields =>
    some (1000000000 * fields.seconds
      + Nat.ofDigitChars 10 ((fields.fraction ++ List.replicate 9 '0').take 9) 0)
  | none => runtime.time s

/-- `time.Time{}`, the first of January of the year 1. -/
def zeroTime : ℤ := -62135596800000000000

/-! ### Decimals -/

/-- `parseDecimal`, `parseDecimalNumber`. With more than one point everything after the first is
dropped. Where `SetString` fails the CLI panics, and the SDK returns a nil integer that each of
its callers dereferences next. -/
def parseDecimal (v : String) : Except Fault FixedPoint :=
  let parts := v.toList.splitOn '.'
  let fraction := match parts with
    | [_, fraction] => fraction
    | _ => []
  match setString (parts.headD [] ++ fraction) with
  | some n => .ok ⟨n, fraction.length⟩
  | none => .error .panic

/-- `decimalCompare`. -/
def decimalCompare (a b : String) : Except Fault ℤ := do
  let x ← parseDecimal a
  let y ← parseDecimal b
  let (m, n, _) := FixedPoint.align x y
  return if m = n then 0 else if m > n then 1 else -1

/-- `decimalCompare(a, b) > 0`. -/
def exceeds (a b : String) : Except Fault Bool := do return decide ((← decimalCompare a b) > 0)

/-- `decimalAdd`. -/
def decimalAdd (a b : String) : Except Fault String := do
  let x ← parseDecimal a
  let y ← parseDecimal b
  let (m, n, scale) := FixedPoint.align x y
  return formatDecimal (m + n) scale

/-- `decimalMultiply`. -/
def decimalMultiply (v : String) (n : ℤ) : Except Fault String := do
  let d ← parseDecimal v
  return formatDecimal (d.coefficient * n) d.scale

/-- `decimalValid`: digits and points, no point at either end. -/
def decimalValid (v : String) : Bool :=
  v != "" && v.toList.head? != some '.' && v.toList.getLast? != some '.'
    && v.toList.all fun c => c == '.' || c.isDigit

/-- `new(big.Rat).SetString(v)`: a decimal with at most a million digits after the point, or
zero. -/
def ratSetString (runtime : Runtime) (v : String) : Option ℚ :=
  let decimal := match v.toList.splitOn '.' with
    | [whole] => (setString whole).map fun n => (⟨n, 0⟩ : FixedPoint)
    | [whole, fraction] =>
      if IsFraction fraction then
        (setString (whole ++ fraction)).map fun n => (⟨n, fraction.length⟩ : FixedPoint)
      else none
    | _ => none
  match decimal with
  | some d => if d.coefficient = 0 ∨ d.scale ≤ 1000000 then some d.value else none
  | none => runtime.rat v

/-- `isDecimalString`. -/
def isDecimalString (runtime : Runtime) (v : String) : Bool :=
  (ratSetString runtime v).isSome && !startsWith v "-"

example : decimalAdd "1.5" "2.25" = .ok "3.75" := by decide

example : decimalCompare "" "1" = .error .panic := by decide

end Oati.Go

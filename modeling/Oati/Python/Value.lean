import Oati.Library.Json
import Oati.TypeScript.Decimal

/-!
# The Python side

Documents are what `json.loads` returns: a JSON number is an `int` or a `float`, and a boolean is
an `int` too. The operators the SDK applies to untyped values (`==`, `>`, `in`, iteration,
`Decimal`) are defined here on documents, with the exception an operator raises on types it does
not take.

`Interpreter` holds what `decimal.Decimal` makes of strings outside the evaluator's grammar and of
lists. Nothing below depends on a choice there.

Infinities and NaN are no JSON numbers, and objects have distinct names.
-/

namespace Oati.Python

open TypeScript (isDecimal Denotes decimalValue decimalValue_eq_some_iff)

/-- A number of a document: an `int`, or a finite `float`. -/
inductive Number where
  | int (n : ℤ)
  | float (q : ℚ)
  deriving DecidableEq, Repr

/-- The value of a number; comparisons of the two kinds are exact. -/
def Number.value : Number → ℚ
  | int n => n
  | float q => q

/-- A value parsed from JSON text. -/
abbrev Value := Json Number

/-- A `dict` with string keys. -/
abbrev Dict := List (String × Value)

/-- An exception that leaves the code. -/
inductive Exception where
  | typeError
  deriving DecidableEq, Repr

/-- A computation that binds another succeeds through an intermediate value. -/
@[simp] theorem bind_eq_ok {α β : Type} {x : Except Exception α} {f : α → Except Exception β}
    {b : β} : (x >>= f) = .ok b ↔ ∃ a, x = .ok a ∧ f a = .ok b := by
  cases x <;> simp [bind, Except.bind]

/-- What `json.loads` accepts beyond the grammar. -/
def readConstant (cs : List Char) : Option (Json String × List Char) :=
  match cs with
  | 'N' :: 'a' :: 'N' :: rest => some (.num "NaN", rest)
  | 'I' :: 'n' :: 'f' :: 'i' :: 'n' :: 'i' :: 't' :: 'y' :: rest => some (.num "Infinity", rest)
  | '-' :: 'I' :: 'n' :: 'f' :: 'i' :: 'n' :: 'i' :: 't' :: 'y' :: rest =>
    some (.num "-Infinity", rest)
  | _ => none

/-! ### Operators -/

/-- The value of a number or a boolean. -/
def numeric : Value → Option ℚ
  | .bool b => some (if b then 1 else 0)
  | .num n => some n.value
  | _ => none

/-- `==` on values that are not both lists or both objects: `True` equals `1`. -/
def atomEqual (v w : Value) : Bool :=
  match v, w with
  | .null, .null => true
  | .str a, .str b => a == b
  | v, w => (numeric v).any fun p => (numeric w).any fun q => p == q

/-- `==`. -/
def equal : Value → Value → Bool := Json.equalBy atomEqual

/-- Equality of JSON values other than arrays and objects. -/
def atomSame (v w : Value) : Bool :=
  match v, w with
  | .null, .null => true
  | .bool a, .bool b => a == b
  | .num a, .num b => a.value == b.value
  | .str a, .str b => a == b
  | _, _ => false

/-- Equality of JSON values: numbers by value, objects in any order, and no boolean is a
number. -/
def same : Value → Value → Bool := Json.equalBy atomSame

/-- The same JSON values are equal in Python. -/
theorem equal_of_same {v w : Value} (h : same v w = true) : equal v w = true := by
  refine Json.equalBy_mono (fun v w hvw => ?_) h
  cases v <;> cases w <;> simp_all [atomSame, atomEqual, numeric]

@[simp] theorem equal_str {v : Value} {s : String} : equal v (.str s) = true ↔ v = .str s := by
  cases v <;> simp [equal, Json.equalBy, atomEqual, numeric]

/-- What iterating over a value gives: items, characters, or keys. -/
def elements : Value → Option (List Value)
  | .arr items => some items
  | .str s => some (s.toList.map fun c => .str (String.singleton c))
  | .obj members => some (members.map fun m => .str m.1)
  | _ => none

/-- `x > bound` for a number or a boolean on the right. -/
def greater (x : Value) (bound : ℚ) : Except Exception Bool :=
  match numeric x with
  | some q => .ok (decide (q > bound))
  | none => .error .typeError

/-- `if key not in c: return False` and then `c[key]`: a list or a string that contains the key
has no item of that name. -/
def item (c : Value) (key : String) : Except Exception (Option Value) :=
  match c with
  | .obj members => .ok (members.lookup key)
  | .arr items => if items.any (equal · (.str key)) then .error .typeError else .ok none
  | .str s => if key.toList <:+: s.toList then .error .typeError else .ok none
  | _ => .error .typeError

/-! ### Decimals -/

/-- A `decimal.Decimal`. -/
inductive Decimal where
  | finite (q : ℚ)
  | infinite (negative : Bool)
  | nan
  deriving DecidableEq, Repr

/-- `a > b`; `none` is the `InvalidOperation` of a NaN. -/
def Decimal.greater (a b : Decimal) : Option Bool :=
  match a, b with
  | .nan, _ => none
  | _, .nan => none
  | .finite p, .finite q => some (decide (p > q))
  | .finite _, .infinite negative => some negative
  | .infinite negative, .finite _ => some (!negative)
  | .infinite negative, .infinite negative' => some (!negative && negative')

theorem Decimal.greater_self (a : Decimal) : a.greater a ≠ some true := by
  cases a <;> simp [greater]

/-- The parts of the `decimal` module that are left open; `none` is an exception. -/
structure Interpreter where
  /-- `Decimal(s)` of a string outside the grammar `(0|[1-9][0-9]*)(.[0-9]+)?`. -/
  decimalOfText : String → Option Decimal
  /-- `Decimal(items)` of a list, read as sign, digits and exponent. -/
  decimalOfItems : List Value → Option Decimal

/-- An interpreter for inputs that need none of it. -/
def plainInterpreter : Interpreter where
  decimalOfText := fun _ => none
  decimalOfItems := fun _ => none

/-- `Decimal(x)`; `none` is an exception. -/
def decimal (python : Interpreter) (x : Value) : Option Decimal :=
  match x with
  | .bool b => some (.finite (if b then 1 else 0))
  | .num n => some (.finite n.value)
  | .str s =>
    match decimalValue s with
    | some q => some (.finite q)
    | none => python.decimalOfText s
  | .arr items => python.decimalOfItems items
  | _ => none

/-- `Decimal(x) > Decimal(v)`; `none` is an exception. -/
def decimalGreater (python : Interpreter) (x v : Value) : Option Bool :=
  (decimal python x).bind fun a => (decimal python v).bind a.greater

theorem decimal_of_denotes {python : Interpreter} {s : String} {q : ℚ} (h : Denotes s q) :
    decimal python (.str s) = some (.finite q) := by
  have hvalue := decimalValue_eq_some_iff.mpr h
  simp [decimal, hvalue]

/-- Two strings of the grammar compare like the rationals they denote. -/
theorem decimalGreater_of_denotes {python : Interpreter} {s t : String} {p q : ℚ}
    (hs : Denotes s p) (ht : Denotes t q) :
    decimalGreater python (.str s) (.str t) = some (decide (p > q)) := by
  simp [decimalGreater, decimal_of_denotes hs, decimal_of_denotes ht, Decimal.greater]

/-- Nothing is greater than itself. -/
theorem decimalGreater_self (python : Interpreter) (v : Value) :
    decimalGreater python v v ≠ some true := by
  unfold decimalGreater
  cases decimal python v with
  | none => simp
  | some a => exact a.greater_self

end Oati.Python

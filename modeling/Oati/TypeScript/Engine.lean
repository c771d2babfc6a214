import Mathlib.Algebra.Order.Field.Rat
import Mathlib.Data.List.Sort
import Oati.Library.Double
import Oati.Library.Json
import Oati.Library.Numeral
import Oati.Library.Rfc3339

/-!
# The ECMAScript side

Documents are JSON values with rational numbers (every finite double is one); `undefined` is the
absence of a value, so an expression that may be `undefined` is an `Option Value`. The operators
the SDK applies to untyped values (`===`, truthiness, `String`, `Number`, `includes`) are
defined here on those two types.

`Engine` holds what the ECMAScript specification leaves to the engine or what takes the rounding
of doubles: `Date.parse` outside the date-time format, the shortest digits of a number that is
not a safe natural, the value of digits that are not those of an exact natural, the text of some
errors. Nothing below depends on a choice there.

Strings are sequences of Unicode scalar values; sorting compares their UTF-16 code units.
-/

namespace Oati.TypeScript

open Numeral

/-- A value parsed from JSON text. -/
abbrev Value := Json ℚ

/-- `Record<string, unknown>`: the own members of an object. -/
abbrev Record := List (String × Value)

/-- The codes of `OatiError`. -/
inductive OatiErrorCode where
  | validationFailed
  | invalidCanonicalValue
  | cryptoUnavailable
  | lookupBadRequest
  | lookupNotFound
  | lookupRateLimited
  | lookupUnavailable
  | lookupInvalidResponse
  | lookupTimeout
  | lookupCancelled
  | middlewareBadRequest
  | middlewareUnauthenticated
  | middlewareForbidden
  | middlewareReplay
  | middlewareUsageConflict
  | middlewareUnavailable
  | adapterInvalidInput
  deriving DecidableEq, Repr

/-- A thrown value. -/
inductive JsError where
  | typeError (message : String)
  | rangeError (message : String)
  | error (message : String)
  | oatiError (code : OatiErrorCode) (message : String)
  /-- A value that is not an `Error`. -/
  | other
  deriving DecidableEq, Repr, Inhabited

/-- `error instanceof Error ? error.message : fallback`. -/
def JsError.messageOr (e : JsError) (fallback : String) : String :=
  match e with
  | .typeError message | .rangeError message | .error message | .oatiError _ message => message
  | .other => fallback

/-- A computation that binds another succeeds through an intermediate value. -/
@[simp] theorem bind_eq_ok {α β : Type} {x : Except JsError α} {f : α → Except JsError β}
    {b : β} : (x >>= f) = .ok b ↔ ∃ a, x = .ok a ∧ f a = .ok b := by
  cases x <;> simp [bind, Except.bind]

@[simp] theorem pure_eq_ok {α : Type} {a b : α} :
    (pure a : Except JsError α) = .ok b ↔ a = b := by
  simp [pure, Except.pure]

@[simp] theorem map_eq_ok {α β : Type} {x : Except JsError α} {f : α → β} {b : β} :
    (f <$> x) = .ok b ↔ ∃ a, x = .ok a ∧ f a = b := by
  cases x <;> simp [Functor.map, Except.map]

/-- The engine-dependent parts of the standard library. -/
structure Engine where
  /-- `Date.parse` on a string outside the date-time format, in milliseconds; `none` is `NaN`. -/
  dateParse : String → Option ℤ
  /-- `Number::toString` on a number that is not a safe natural. -/
  numberToString : ℚ → String
  /-- `Number(value)` on a string that is not the digits of a natural up to `2 ^ 53`; `none` is
  `NaN`. -/
  stringToNumber : String → Option ℚ
  /-- The value of a JSON number that is not the digits of a natural up to `2 ^ 53`. -/
  literalToNumber : String → ℚ
  /-- The message of the `SyntaxError` of `JSON.parse`. -/
  syntaxMessage : String → String

/-- An engine for inputs whose meaning the language fixes. -/
def plainEngine : Engine where
  dateParse := fun _ => none
  numberToString := fun _ => ""
  stringToNumber := fun _ => none
  literalToNumber := fun _ => 0
  syntaxMessage := fun _ => ""

/-! ### Numbers, strings and dates -/

/-- A safe natural number: its decimal digits are its text. -/
def isSafeNatural (q : ℚ) : Bool := q.den == 1 && 0 ≤ q.num && q.num ≤ Double.maxSafeInteger

/-- `String(n)` for a number. -/
def numberText (engine : Engine) (q : ℚ) : String :=
  if isSafeNatural q then Nat.repr q.num.toNat else engine.numberToString q

/-- `String(n)` of a safe natural is its digits. -/
theorem numberText_natCast (engine : Engine) {n : ℕ} (h : n ≤ Double.maxSafeInteger) :
    numberText engine n = Nat.repr n := by
  have hsafe : isSafeNatural n = true := by simp [isSafeNatural, h]
  rw [numberText, if_pos hsafe]; simp

mutual

/-- `String(value)`. -/
def text (engine : Engine) : Value → String
  | .null => "null"
  | .bool b => if b then "true" else "false"
  | .num q => numberText engine q
  | .str s => s
  | .arr items => ",".intercalate (itemTexts engine items)
  | .obj _ => "[object Object]"
termination_by structural v => v

/-- The texts `Array.prototype.join` joins: `null` items are empty. -/
def itemTexts (engine : Engine) : List Value → List String
  | [] => []
  | v :: rest => (match v with | .null => "" | w => text engine w) :: itemTexts engine rest
termination_by structural items => items

end

/-- `String(value)` of a possibly missing value. -/
def optionText (engine : Engine) (v : Option Value) : String := v.elim "undefined" (text engine)

/-- `Date.parse`, in milliseconds. The date-time format with at most milliseconds is fixed by
the language; the rest is the engine's. -/
def dateParse (engine : Engine) (value : String) : Option ℤ :=
  match Rfc3339.parse value with
  | some fields =>
    if fields.fraction = [] then some (1000 * fields.seconds)
    else if fields.fraction.length = 3 then
      some (1000 * fields.seconds + Nat.ofDigitChars 10 fields.fraction 0)
    else engine.dateParse value
  | none => engine.dateParse value

/-- The digits of a number, with leading zeros up to a width. -/
def padded (width n : ℕ) : List Char := (Nat.toDigits 10 n).leftpad width '0'

/-- The year of `toISOString`: four digits, or six with a sign. -/
def yearText (year : ℤ) : List Char :=
  if 0 ≤ year ∧ year ≤ 9999 then padded 4 year.toNat
  else (if year < 0 then '-' else '+') :: padded 6 year.natAbs

/-- `toISOString` on a valid date. -/
def isoText (time : ℤ) : String :=
  let (year, month, day) := Rfc3339.dateOfDays (time / 86400000)
  let ms := (time % 86400000).toNat
  String.ofList (yearText year ++ '-' :: padded 2 month ++ '-' :: padded 2 day
    ++ 'T' :: padded 2 (ms / 3600000) ++ ':' :: padded 2 (ms / 60000 % 60)
    ++ ':' :: padded 2 (ms / 1000 % 60) ++ '.' :: padded 3 (ms % 1000) ++ ['Z'])

/-- `date.toISOString()`; `none` is the time of an invalid date. -/
def toISOString (time : Option ℤ) : Except JsError String :=
  match time with
  | some time => .ok (isoText time)
  | none => .error (.rangeError "Invalid time value")

/-- The value of a number in JSON text. -/
def literalNumber (engine : Engine) (literal : String) : ℚ :=
  if IsFraction literal.toList ∧ Nat.ofDigitChars 10 literal.toList 0 ≤ Double.exactBound then
    Nat.ofDigitChars 10 literal.toList 0
  else engine.literalToNumber literal

/-- `Number(value)`. -/
def toNumber (engine : Engine) (v : Option Value) : Option ℚ :=
  match v with
  | none => none
  | some .null => some 0
  | some (.bool b) => some (if b then 1 else 0)
  | some (.num q) => some q
  | some w =>
    let s := text engine w
    if IsFraction s.toList ∧ Nat.ofDigitChars 10 s.toList 0 ≤ Double.exactBound then
      some (Nat.ofDigitChars 10 s.toList 0)
    else engine.stringToNumber s

example : toISOString (some 1785153600123) = .ok "2026-07-27T12:00:00.123Z" := by decide

/-- `a < b` on two numbers, either of which may be `NaN`. -/
def numberLt (a b : Option ℚ) : Bool :=
  match a, b with
  | some x, some y => decide (x < y)
  | _, _ => false

/-- The UTF-16 code units of a string. -/
def utf16 (s : String) : List ℕ :=
  s.toList.flatMap fun c =>
    if c.toNat < 0x10000 then [c.toNat]
    else [0xd800 + (c.toNat - 0x10000) / 0x400, 0xdc00 + (c.toNat - 0x10000) % 0x400]

/-- `code.startsWith(start)`. -/
def startsWith (code start : String) : Bool := start.toList.isPrefixOf code.toList

/-- `array.sort()` on strings. -/
def sortStrings (xs : List String) : List String :=
  xs.insertionSort fun a b => utf16 a ≤ utf16 b

theorem mem_sortStrings {xs : List String} {s : String} : s ∈ sortStrings xs ↔ s ∈ xs :=
  List.mem_insertionSort _

@[simp] theorem sortStrings_eq_nil {xs : List String} : sortStrings xs = [] ↔ xs = [] := by
  simp [List.eq_nil_iff_forall_not_mem, mem_sortStrings]

/-- Sorting a second time changes nothing. -/
theorem sortStrings_sortStrings (xs : List String) :
    sortStrings (sortStrings xs) = sortStrings xs := by
  have : IsTrans String fun a b => utf16 a ≤ utf16 b := ⟨fun _ _ _ => le_trans⟩
  have : Std.Total fun a b : String => utf16 a ≤ utf16 b := ⟨fun _ _ => le_total _ _⟩
  exact (List.pairwise_insertionSort _ xs).insertionSort_eq

/-! ### Untyped values -/

/-- Truthiness. -/
def truthy (v : Option Value) : Bool :=
  match v with
  | none => false
  | some .null => false
  | some (.bool b) => b
  | some (.num q) => q != 0
  | some (.str s) => s != ""
  | some (.arr _) => true
  | some (.obj _) => true

/-- `a === b` for values of two documents: objects and arrays are compared by identity, and
those of different documents are never the same. -/
def strictEq (a b : Option Value) : Bool :=
  match a, b with
  | none, none => true
  | some .null, some .null => true
  | some (.bool x), some (.bool y) => x == y
  | some (.num x), some (.num y) => x == y
  | some (.str x), some (.str y) => x == y
  | _, _ => false

/-- `items.includes(item)`. -/
def includes (items : List Value) (item : Value) : Bool :=
  items.any fun other => strictEq (some other) (some item)

/-- `v?.[key]` for a key that no built-in prototype has. -/
def get (v : Option Value) (key : String) : Option Value := v.bind fun w => w.member key

@[simp] theorem get_none (key : String) : get none key = none := rfl

@[simp] theorem get_obj (members : Record) (key : String) :
    get (some (.obj members)) key = members.lookup key := rfl

/-- `a ?? b`. -/
def nullish (a b : Option Value) : Option Value :=
  match a with
  | none => b
  | some .null => b
  | some v => some v

/-- `objectAt`: the member `key` when it is an object that is not an array. -/
def objectAt (value : Option Record) (key : String) : Option Record :=
  value.bind fun members => (members.lookup key).bind Json.members?

/-- `stringArray`: the strings of an array; anything else has none. -/
def stringArray (value : Option Value) : List String :=
  match value with
  | some (.arr items) => items.filterMap Json.string?
  | _ => []

/-- Strict equality is equality of two missing or two primitive values. -/
theorem strictEq_iff {a b : Option Value} : strictEq a b = true ↔
    a = b ∧ ∀ v, a = some v → (∀ items, v ≠ .arr items) ∧ ∀ members, v ≠ .obj members := by
  constructor
  · intro h
    rcases a with _ | v <;> rcases b with _ | w
    · simp
    · simp [strictEq] at h
    · simp [strictEq] at h
    · cases v <;> cases w <;> simp_all [strictEq]
  · rintro ⟨rfl, h⟩
    rcases a with _ | v
    · rfl
    · cases v with
      | arr items => exact absurd rfl ((h _ rfl).1 items)
      | obj members => exact absurd rfl ((h _ rfl).2 members)
      | _ => simp [strictEq]

theorem eq_of_strictEq {a b : Option Value} (h : strictEq a b = true) : a = b :=
  (strictEq_iff.mp h).1

theorem strictEq_str_right {s : String} {v : Option Value} :
    strictEq v (some (.str s)) = true ↔ v = some (.str s) := by
  rw [strictEq_iff]
  constructor
  · exact And.left
  · rintro rfl
    refine ⟨rfl, fun w hw => ?_⟩
    obtain rfl := Option.some.inj hw
    exact ⟨fun _ h => (by cases h), fun _ h => (by cases h)⟩

theorem strictEq_trans {a b c : Option Value} (hab : strictEq a b = true)
    (hbc : strictEq b c = true) : strictEq a c = true := by
  obtain rfl := eq_of_strictEq hab
  exact hbc

/-- Membership up to strict equality is inherited along inclusion of lists. -/
theorem includes_trans {xs ys : List Value} {v : Value}
    (hxs : ∀ x ∈ xs, includes ys x = true) (h : includes xs v = true) : includes ys v = true := by
  obtain ⟨x, hx, hxv⟩ := List.any_eq_true.mp h
  obtain ⟨y, hy, hyx⟩ := List.any_eq_true.mp (hxs x hx)
  exact List.any_eq_true.mpr ⟨y, hy, strictEq_trans hyx hxv⟩

end Oati.TypeScript

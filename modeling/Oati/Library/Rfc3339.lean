import Mathlib.Data.Int.Notation
import Mathlib.Data.List.Basic

/-!
# RFC 3339 date-times

The fixed shape `YYYY-MM-DDTHH:MM:SS[.fraction](Z|±HH:MM)`, the range of its fields and the
number of seconds since 1970-01-01T00:00:00Z it denotes. What a language does with a string of
another shape, or with a field out of range, is that language's business.
-/

namespace Rfc3339

/-- The fields of a date-time as written. `fraction` is the list of digits after the point and
`offset` the minutes east of UTC. -/
structure Fields where
  year : ℕ
  month : ℕ
  day : ℕ
  hour : ℕ
  minute : ℕ
  second : ℕ
  fraction : List Char
  offset : ℤ
  deriving DecidableEq, Repr

/-- The value of a run of digits. -/
def digits (cs : List Char) : Option ℕ :=
  if !cs.isEmpty && cs.all Char.isDigit then some (Nat.ofDigitChars 10 cs 0) else none

/-- `Z` or a signed offset `±HH:MM`. -/
def zone (cs : List Char) : Option ℤ :=
  match cs with
  | ['Z'] => some 0
  | [sign, h1, h2, ':', m1, m2] => do
    let hours ← digits [h1, h2]
    let minutes ← digits [m1, m2]
    if hours < 24 ∧ minutes < 60 then
      match sign with
      | '+' => some (60 * hours + minutes)
      | '-' => some (-(60 * hours + minutes))
      | _ => none
    else none
  | _ => none

/-- An optional fraction of a second, followed by the zone. -/
def fractionAndZone (cs : List Char) : Option (List Char × ℤ) :=
  match cs with
  | '.' :: rest =>
    let fraction := rest.takeWhile Char.isDigit
    if fraction.isEmpty then none
    else (zone (rest.dropWhile Char.isDigit)).map fun offset => (fraction, offset)
  | _ => (zone cs).map fun offset => ([], offset)

def isLeapYear (year : ℕ) : Bool := year % 4 == 0 && (year % 100 != 0 || year % 400 == 0)

def daysInMonth (year month : ℕ) : ℕ :=
  match month with
  | 2 => if isLeapYear year then 29 else 28
  | 4 | 6 | 9 | 11 => 30
  | _ => 31

/-- All fields are inside the calendar. -/
def Fields.inRange (f : Fields) : Bool :=
  1 ≤ f.month && f.month ≤ 12 && 1 ≤ f.day && f.day ≤ daysInMonth f.year f.month
    && f.hour < 24 && f.minute < 60 && f.second < 60

/-- Read the fixed shape; `none` when the string does not have it or a field is out of range. -/
def parse (text : String) : Option Fields :=
  match text.toList with
  | y1 :: y2 :: y3 :: y4 :: '-' :: o1 :: o2 :: '-' :: d1 :: d2 :: 'T' :: h1 :: h2 :: ':' :: m1
      :: m2 :: ':' :: s1 :: s2 :: rest => do
    let (fraction, offset) ← fractionAndZone rest
    let fields : Fields :=
      { year := ← digits [y1, y2, y3, y4], month := ← digits [o1, o2], day := ← digits [d1, d2],
        hour := ← digits [h1, h2], minute := ← digits [m1, m2], second := ← digits [s1, s2],
        fraction := fraction, offset := offset }
    if fields.inRange then some fields else none
  | _ => none

/-- Days from 1970-01-01 to a date of the proleptic Gregorian calendar: whole years of 365 days,
the leap days before the date, the days of the months before it. -/
def Fields.days (f : Fields) : ℤ :=
  let before := (f.year : ℤ) - 1
  let leapDays := before / 4 - before / 100 + before / 400
  let monthDays := ((List.range f.month).drop 1).foldl (fun n m => n + daysInMonth f.year m) 0
  365 * before + leapDays + monthDays + f.day - 719163

/-- Year, month and day of a number of days from 1970-01-01, counted in eras of 400 years that
start on a first of March. -/
def dateOfDays (days : ℤ) : ℤ × ℕ × ℕ :=
  let shifted := days + 719468
  let dayOfEra := (shifted % 146097).toNat
  let yearOfEra :=
    (dayOfEra - dayOfEra / 1460 + dayOfEra / 36524 - dayOfEra / 146096) / 365
  let dayOfYear := dayOfEra - (365 * yearOfEra + yearOfEra / 4 - yearOfEra / 100)
  let shiftedMonth := (5 * dayOfYear + 2) / 153
  let month := if shiftedMonth < 10 then shiftedMonth + 3 else shiftedMonth - 9
  let year := 400 * (shifted / 146097) + yearOfEra
  (if month ≤ 2 then year + 1 else year, month, dayOfYear - (153 * shiftedMonth + 2) / 5 + 1)

/-- Seconds since 1970-01-01T00:00:00Z, without the fraction. -/
def Fields.seconds (f : Fields) : ℤ :=
  86400 * f.days + 3600 * f.hour + 60 * f.minute + f.second - 60 * f.offset

example : (parse "2026-07-27T12:00:00Z").map Fields.seconds = some 1785153600 := by decide

example : dateOfDays (1785153600 / 86400) = (2026, 7, 27) := by decide

end Rfc3339

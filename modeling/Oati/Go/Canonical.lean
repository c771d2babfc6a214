import Oati.Go.Evaluator
import Oati.TypeScript.Numbers

/-!
# Canonical JSON in Go

`CanonicalJSON` of the SDK re-implements the canonical form. A number is a `float64` before it is
written: the value of its literal, rounded. The two zeros are one value here, and nothing below
tells them apart.

* `canonicalJSON`, with `writeCanonicalNumber`, `writeCanonicalString` and `compareUTF16`;
* `writeCanonicalNumber_eq`: what is written is what `Number::toString` prints, though the
  notation is chosen by the size of the number and not by the place of the point;
* `canonicalJSON_eq`: the text is that of the sorted document.

`digits` are the shortest digits that `strconv.FormatFloat` finds.
-/

namespace Oati.Go

open JsonText (Literal TextWriter write render quote escapeChar)
open Double (Digits IsShortest)
open Numeral
open TypeScript (utf16 bigintChars signed signed_eq layout shortestLiteral
  ofDigitChars_padded sign_append_bigintChars)

/-! ### Numbers -/

/-- A number of a document: as it was decoded, or one of the numeric types of Go. -/
inductive Number where
  | number (literal : Literal)
  | float64 (q : ℚ)
  | int (n : ℤ)
  deriving DecidableEq, Repr

/-- The double that is written for a number. -/
def Number.double : Number → ℚ
  | number literal => Double.round literal.value
  | float64 q => q
  | int n => Double.round n

/-- `strconv.ParseFloat(text, 64)`. -/
def parseFloat (literal : Literal) : Except String ℚ :=
  if Double.overflow ≤ |Double.round literal.value| then
    .error ("strconv.ParseFloat: parsing \"" ++ literal.text ++ "\": value out of range")
  else .ok (Double.round literal.value)

/-- `1.7976931348623157e308`. -/
def maxFloat64 : ℚ := (2 ^ 53 - 1) * 2 ^ 971

/-- `strconv.FormatFloat(value, 'f', -1, 64)`. -/
def formatFixed (digits : ℚ → Digits) (value : ℚ) : List Char :=
  signed value (digits |value|).positional

/-- `strconv.FormatFloat(value, 'e', -1, 64)`: an exponent has at least two digits. -/
def formatExponent (digits : ℚ → Digits) (value : ℚ) : List Char :=
  let exponent := (digits |value|).point - 1
  signed value ((digits |value|).mantissa ++ 'e' :: Digits.exponentSign exponent ::
    TypeScript.padded 2 exponent.natAbs)

/-- `strings.Split(s, "e")` on a text with one `e`. -/
def splitExponent (s : List Char) : List Char × List Char :=
  (s.takeWhile (· != 'e'), (s.dropWhile (· != 'e')).drop 1)

/-- `strconv.Atoi` without its error. -/
def atoi (s : List Char) : ℤ := (setString s).getD 0

/-- `writeCanonicalNumber`. -/
def writeCanonicalNumber (digits : ℚ → Digits) (value : ℚ) : Except String (List Char) :=
  if value > maxFloat64 ∨ value < -maxFloat64 then
    .error "non-finite numbers are not valid JSON"
  else if value = 0 then .ok ['0']
  else
    let abs := if value < 0 then -value else value
    if Double.round (10 ^ (-6 : ℤ)) ≤ abs ∧ abs < 10 ^ (21 : ℤ) then
      .ok (formatFixed digits value)
    else
      let parts := splitExponent (formatExponent digits value)
      let exponent := atoi parts.2
      .ok (parts.1 ++ ['e'] ++ (if exponent ≥ 0 then ['+'] else []) ++ bigintChars exponent)

/-- The cases of `writeCanonical` that are numbers. -/
def writeNumber (digits : ℚ → Digits) : Number → Except String (List Char)
  | .number literal =>
    (parseFloat literal).mapError ("invalid JSON number: " ++ ·) >>= writeCanonicalNumber digits
  | .float64 q => writeCanonicalNumber digits q
  | .int n => writeCanonicalNumber digits (Double.round n)

/-! ### Strings and names -/

/-- What `writeCanonicalString` writes for a character. -/
def writeCanonicalChar (character : Char) : List Char :=
  match character with
  | '"' | '\\' => ['\\', character]
  | '\x08' => ['\\', 'b']
  | '\t' => ['\\', 't']
  | '\n' => ['\\', 'n']
  | '\x0c' => ['\\', 'f']
  | '\r' => ['\\', 'r']
  | _ =>
    if character.toNat < 0x20 then
      '\\' :: 'u' :: (Nat.toDigits 16 character.toNat).leftpad 4 '0'
    else [character]

/-- `writeCanonicalString`. -/
def writeCanonicalString (value : String) : List Char :=
  '"' :: value.toList.flatMap writeCanonicalChar ++ ['"']

/-- The loop of `compareUTF16`, and the comparison of the lengths after it. -/
def compareUnits : List ℕ → List ℕ → ℤ
  | a :: as, b :: bs => if a < b then -1 else if a > b then 1 else compareUnits as bs
  | [], [] => 0
  | [], _ :: _ => -1
  | _ :: _, [] => 1

/-- `compareUTF16`. -/
def compareUTF16 (left right : String) : ℤ := compareUnits (utf16 left) (utf16 right)

/-- `writeCanonical`. -/
def canonicalWriter (digits : ℚ → Digits) : TextWriter Number String where
  number := writeNumber digits
  string := writeCanonicalString
  less := fun a b => decide (compareUTF16 a b < 0)

/-- `CanonicalJSON`. A `[]string` is a list of strings, and a `map[string]string` an object of
them. -/
def canonicalJSON (digits : ℚ → Digits) (value : Json Number) : Except String String :=
  String.ofList <$> write (canonicalWriter digits) value

/-! ### The notation of a number -/

variable {digits : ℚ → Digits}

theorem ne_e_of_isDigit {c : Char} (h : c.isDigit) : (c != 'e') = true := by
  refine bne_iff_ne.mpr ?_
  rintro rfl
  simp at h

/-- There is no `e` in front of the exponent. -/
theorem mantissa_ne_e (d : Digits) : ∀ c ∈ d.mantissa, (c != 'e') = true := by
  intro c hc
  rw [Digits.mantissa, List.mem_append] at hc
  rcases hc with hfirst | hrest
  · exact ne_e_of_isDigit (d.isDigit_of_mem_chars c (List.mem_of_mem_take hfirst))
  · split_ifs at hrest
    · cases hrest
    · rcases List.mem_cons.mp hrest with rfl | hdigit
      · rfl
      · exact ne_e_of_isDigit (d.isDigit_of_mem_chars c (List.mem_of_mem_drop hdigit))

theorem splitExponent_append {s t : List Char} (h : ∀ c ∈ s, (c != 'e') = true) :
    splitExponent (s ++ 'e' :: t) = (s, t) := by
  rw [splitExponent, List.takeWhile_append_of_pos h, List.dropWhile_append_of_pos h]
  simp

theorem isFraction_padded (width n : ℕ) : IsFraction (TypeScript.padded width n) = true := by
  have hne : TypeScript.padded width n ≠ [] := by
    rw [TypeScript.padded, List.leftpad]
    exact List.append_ne_nil_of_right_ne_nil _ Nat.toDigits_ne_nil
  have hdigits : ∀ c ∈ TypeScript.padded width n, c.isDigit = true := by
    intro c hc
    rw [TypeScript.padded, List.leftpad, List.mem_append] at hc
    rcases hc with hzero | hdigit
    · rw [List.eq_of_mem_replicate hzero]
      rfl
    · exact isDigit_of_mem_toDigits c hdigit
  rw [IsFraction, Bool.and_eq_true, List.all_eq_true]
  exact ⟨by simpa using hne, hdigits⟩

/-- The exponent is read back. -/
theorem atoi_padded (width : ℕ) (e : ℤ) :
    atoi (Digits.exponentSign e :: TypeScript.padded width e.natAbs) = e := by
  rw [atoi, Digits.exponentSign]
  split_ifs with hneg
  · rw [setString_minus (isFraction_padded _ _), ofDigitChars_padded, Option.getD_some]
    omega
  · rw [setString, if_pos (isFraction_padded _ _), ofDigitChars_padded, Option.getD_some]
    omega

/-- The size of a number is its absolute value. -/
theorem abs_eq (value : ℚ) : (if value < 0 then -value else value) = |value| := by
  split_ifs with h
  · exact (abs_of_neg h).symm
  · exact (abs_of_nonneg (not_lt.mp h)).symm

/-- The doubles up to the largest one are all there are. -/
theorem le_maxFloat64 {q : ℚ} (h : Double.IsFinite q) : q ≤ maxFloat64 := h.le_largest

theorem writeCanonicalNumber_eq {q : ℚ} (hfinite : Double.IsFinite q)
    (hshortest : q ≠ 0 → IsShortest |q| (digits |q|)) :
    writeCanonicalNumber digits q = .ok (shortestLiteral digits q) := by
  have hrange : ¬ (q > maxFloat64 ∨ q < -maxFloat64) := by
    have hupper := le_maxFloat64 hfinite
    have hlower := le_maxFloat64 hfinite.neg
    rintro (h | h)
    · linarith
    · linarith
  rw [writeCanonicalNumber, if_neg hrange, shortestLiteral, TypeScript.numberString]
  by_cases hzero : q = 0
  · rw [if_pos hzero, if_pos hzero]
    rfl
  rw [if_neg hzero, if_neg hzero, String.toList_ofList, layout]
  have hd := hshortest hzero
  dsimp only
  rw [abs_eq]
  simp only [hd.micro_le_iff, hd.lt_sextillion_iff]
  by_cases hnotation : -6 < (digits |q|).point ∧ (digits |q|).point ≤ 21
  · rw [if_pos hnotation, if_pos hnotation]
    rfl
  · rw [if_neg hnotation, if_neg hnotation]
    -- the exponent is read, and written again without padding
    have hsigned : ∀ cs : List Char, signed q ((digits |q|).mantissa ++ cs)
        = signed q (digits |q|).mantissa ++ cs := by
      intro cs
      rw [signed_eq, signed_eq q (digits |q|).mantissa, List.append_assoc]
    have hmantissa : ∀ c ∈ signed q (digits |q|).mantissa, (c != 'e') = true := by
      unfold signed
      split_ifs
      · exact List.forall_mem_cons.mpr ⟨rfl, mantissa_ne_e _⟩
      · exact mantissa_ne_e _
    have hsplit : splitExponent (formatExponent digits q)
        = (signed q (digits |q|).mantissa, Digits.exponentSign ((digits |q|).point - 1) ::
            TypeScript.padded 2 ((digits |q|).point - 1).natAbs) := by
      rw [formatExponent, hsigned, splitExponent_append hmantissa]
    rw [hsplit, atoi_padded, List.append_assoc, sign_append_bigintChars, Digits.scientific, hsigned,
      List.append_assoc, List.singleton_append]

/-! ### The text of a document -/

theorem writeCanonicalChar_eq (c : Char) : writeCanonicalChar c = escapeChar c := by
  have hcontrol : ∀ n < 0x20, (Nat.toDigits 16 n).leftpad 4 '0'
      = ['0', '0', JsonText.hexDigit (n / 16), JsonText.hexDigit (n % 16)] := by decide
  unfold writeCanonicalChar
  split
  · rfl
  · rfl
  · rfl
  · rfl
  · rfl
  · rfl
  · rfl
  next h1 h2 h3 h4 h5 h6 h7 =>
    rw [escapeChar, if_neg h1, if_neg h2, if_neg h3, if_neg h4, if_neg h5, if_neg h6, if_neg h7]
    split_ifs with hsmall
    · rw [hcontrol _ hsmall]
    · rfl

theorem writeCanonicalString_eq : writeCanonicalString = quote := by
  have hchar : writeCanonicalChar = escapeChar := funext writeCanonicalChar_eq
  funext value
  rw [writeCanonicalString, quote, hchar]

/-- The comparison is that of the code units. -/
theorem compareUnits_neg_iff {as bs : List ℕ} : compareUnits as bs < 0 ↔ as < bs := by
  induction as generalizing bs with
  | nil => cases bs <;> simp [compareUnits]
  | cons a as ih =>
    cases bs with
    | nil => simp [compareUnits]
    | cons b bs =>
      rw [compareUnits, List.cons_lt_cons_iff]
      split_ifs with hlt hgt
      · simp [hlt]
      · exact iff_of_false (by norm_num) (by omega)
      · have heq : a = b := by omega
        rw [ih]
        simp [heq]

theorem parseFloat_of_lt {literal : Literal} (h : |(Number.number literal).double| < Double.overflow) :
    parseFloat literal = .ok (Number.number literal).double := if_neg (not_le.mpr h)

/-- The text of a document is that of the document of doubles, with sorted members. -/
theorem canonicalJSON_eq {v : Json Number} (hfinite : ∀ n ∈ v.numbers, Double.IsFinite n.double)
    (hshortest : ∀ n ∈ v.numbers, n.double ≠ 0 → IsShortest |n.double| (digits |n.double|)) :
    canonicalJSON digits v
      = .ok (String.ofList (render (shortestLiteral digits) ((v.map Number.double).sorted utf16))) := by
  have hnumber : ∀ n ∈ v.numbers, writeNumber digits n = .ok (shortestLiteral digits n.double) := by
    intro n hn
    have hrange := (hfinite n hn).2
    have hwrite := writeCanonicalNumber_eq (hfinite n hn) (hshortest n hn)
    cases n with
    | number literal =>
      rw [writeNumber, parseFloat_of_lt hrange]
      exact hwrite
    | float64 q => exact hwrite
    | int n => exact hwrite
  have hless : ∀ a b, (canonicalWriter digits).less a b = true ↔ utf16 a < utf16 b := by
    intro a b
    rw [canonicalWriter, decide_eq_true_iff, compareUTF16, compareUnits_neg_iff]
  have htext : write (canonicalWriter digits) v
      = .ok (render (shortestLiteral digits) ((v.map Number.double).sorted utf16)) :=
    JsonText.write_eq_render hless (fun s _ => congrFun writeCanonicalString_eq s) hnumber
  rw [canonicalJSON, htext]
  rfl

end Oati.Go

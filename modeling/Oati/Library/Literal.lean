import Oati.Library.JsonText

/-!
# Number literals

A JSON number as it is written, with the rational it denotes. A literal without an exponent is a
fixed-point number; `Literal.plain_or_exponent` is the case split that readers of fixed-point
numbers need.
-/

namespace JsonText

open Numeral

/-- A number literal. -/
structure Literal where
  text : String
  isNumber : JsonText.isNumber text.toList = true
  deriving DecidableEq, Repr

/-- The value of an exponent without its letter. -/
def exponentValue (cs : List Char) : ℤ :=
  match cs with
  | '+' :: digits => Nat.ofDigitChars 10 digits 0
  | '-' :: digits => -Nat.ofDigitChars 10 digits 0
  | digits => Nat.ofDigitChars 10 digits 0

/-- The value of a whole part and what follows it. -/
def tailValue (whole : List Char) (cs : List Char) : ℚ :=
  match cs with
  | [] => Nat.ofDigitChars 10 whole 0
  | '.' :: rest =>
    let fraction := rest.takeWhile Char.isDigit
    (⟨Nat.ofDigitChars 10 (whole ++ fraction) 0, fraction.length⟩ : FixedPoint).value *
      match rest.dropWhile Char.isDigit with
      | [] => 1
      | _ :: exponent => 10 ^ exponentValue exponent
  | _ :: exponent => Nat.ofDigitChars 10 whole 0 * 10 ^ exponentValue exponent

theorem tailValue_nil (whole : List Char) :
    tailValue whole [] = Nat.ofDigitChars 10 whole 0 := rfl

/-- Only a fraction follows the whole part. -/
theorem tailValue_fraction {whole rest : List Char} (h : rest.dropWhile Char.isDigit = []) :
    tailValue whole ('.' :: rest)
      = (⟨Nat.ofDigitChars 10 (whole ++ rest.takeWhile Char.isDigit) 0,
          (rest.takeWhile Char.isDigit).length⟩ : FixedPoint).value := by
  simp [tailValue, h]

/-- The value of an unsigned literal. -/
def unsignedValue (cs : List Char) : ℚ :=
  tailValue (cs.takeWhile Char.isDigit) (cs.dropWhile Char.isDigit)

/-- The value of a literal with an optional minus sign. -/
def signedValue (cs : List Char) : ℚ :=
  match cs with
  | '-' :: rest => -unsignedValue rest
  | rest => unsignedValue rest

theorem signedValue_minus (cs : List Char) : signedValue ('-' :: cs) = -unsignedValue cs := rfl

theorem signedValue_of_unsigned {cs : List Char} (h : ∀ rest, cs ≠ '-' :: rest) :
    signedValue cs = unsignedValue cs := by
  unfold signedValue
  split
  next rest => exact absurd rfl (h rest)
  next => rfl

/-- The number that a literal denotes. -/
def Literal.value (n : Literal) : ℚ := signedValue n.text.toList

/-- A text with an exponent and at most one point. -/
def HasExponent (cs : List Char) : Prop := ('e' ∈ cs ∨ 'E' ∈ cs) ∧ cs.count '.' ≤ 1

theorem count_dot_of_isDigit {cs : List Char} (h : ∀ c ∈ cs, c.isDigit = true) :
    cs.count '.' = 0 := List.count_eq_zero.mpr (dot_notMem_of_isDigit h)

/-- There is no point in an exponent. -/
theorem count_dot_of_isExponent {cs : List Char} (h : isExponent cs = true) :
    cs.count '.' = 0 := by
  have hdigits : ∀ {ds : List Char}, IsFraction ds = true → ds.count '.' = 0 := by
    intro ds hds
    simp only [IsFraction, Bool.and_eq_true, List.all_eq_true] at hds
    exact count_dot_of_isDigit hds.2
  unfold isExponent at h
  split at h
  · simpa using hdigits h
  · simpa using hdigits h
  · exact hdigits h

/-- What starts with the letter of an exponent. -/
theorem hasExponent_cons {e : Char} {exponent : List Char}
    (h : ((e == 'e' || e == 'E') && isExponent exponent) = true) :
    ('e' ∈ e :: exponent ∨ 'E' ∈ e :: exponent) ∧ (e :: exponent).count '.' = 0 := by
  rw [Bool.and_eq_true, Bool.or_eq_true, beq_iff_eq, beq_iff_eq] at h
  obtain ⟨he, hexponent⟩ := h
  have hcount := count_dot_of_isExponent hexponent
  rcases he with rfl | rfl
  · exact ⟨.inl (by simp), by simpa using hcount⟩
  · exact ⟨.inr (by simp), by simpa using hcount⟩

/-- Digits in front of an exponent, with a point between them or not. -/
theorem hasExponent_append {digits rest : List Char} (hdigits : ∀ c ∈ digits, c.isDigit = true)
    (hletter : 'e' ∈ rest ∨ 'E' ∈ rest) (hcount : rest.count '.' ≤ 1) :
    HasExponent (digits ++ rest) := by
  refine ⟨hletter.imp (List.mem_append_right _) (List.mem_append_right _), ?_⟩
  rw [List.count_append, count_dot_of_isDigit hdigits]
  omega

/-- An unsigned literal is a natural, a natural with a fraction, or has an exponent. -/
theorem unsigned_cases {cs : List Char}
    (h : (IsWhole (cs.takeWhile Char.isDigit) && isNumberTail (cs.dropWhile Char.isDigit)) = true) :
    (IsWhole cs = true ∧ unsignedValue cs = Nat.ofDigitChars 10 cs 0) ∨
    (∃ whole fraction, IsWhole whole = true ∧ IsFraction fraction = true ∧
      cs = whole ++ '.' :: fraction ∧ unsignedValue cs
        = (⟨Nat.ofDigitChars 10 (whole ++ fraction) 0, fraction.length⟩ : FixedPoint).value) ∨
    HasExponent cs := by
  rw [Bool.and_eq_true] at h
  obtain ⟨hwhole, htail⟩ := h
  have hsplit := List.takeWhile_append_dropWhile (p := Char.isDigit) (l := cs)
  unfold isNumberTail at htail
  unfold unsignedValue
  split at htail
  next hnil =>
    -- nothing follows the digits
    have hcs : cs.takeWhile Char.isDigit = cs := by simpa [hnil] using hsplit
    rw [hcs] at hwhole
    exact .inl ⟨hwhole, by rw [hnil, hcs, tailValue_nil]⟩
  next rest hdot =>
    rw [Bool.and_eq_true] at htail
    obtain ⟨hfraction, hafter⟩ := htail
    have hrest := List.takeWhile_append_dropWhile (p := Char.isDigit) (l := rest)
    split at hafter
    next hnil =>
      have hdigits : rest.takeWhile Char.isDigit = rest := by simpa [hnil] using hrest
      refine .inr (.inl ⟨_, rest, hwhole, by rwa [hdigits] at hfraction, ?_, ?_⟩)
      · rw [← hdot, hsplit]
      · rw [hdot, tailValue_fraction hnil, hdigits]
    next e exponent he =>
      -- a fraction and an exponent
      obtain ⟨hletter, hcount⟩ := hasExponent_cons hafter
      obtain ⟨hletter, hone⟩ := hasExponent_append
        (List.all_eq_true.mp (List.all_takeWhile (l := rest))) hletter (by omega : _ ≤ 1)
      rw [← he, hrest] at hletter
      have hzero : rest.count '.' = 0 := by
        rw [← hrest, he, List.count_append, hcount,
          count_dot_of_isDigit (List.all_eq_true.mp List.all_takeWhile)]
      refine .inr (.inr ?_)
      rw [← hsplit, hdot]
      refine hasExponent_append (List.all_eq_true.mp List.all_takeWhile) ?_ (by simp [hzero])
      exact hletter.imp (List.mem_cons_of_mem _) (List.mem_cons_of_mem _)
  next e exponent _ he =>
    obtain ⟨hletter, hcount⟩ := hasExponent_cons htail
    refine .inr (.inr ?_)
    rw [← hsplit, he]
    exact hasExponent_append (List.all_eq_true.mp List.all_takeWhile) hletter (by omega)

/-- A literal is an integer, a fixed-point number, or has an exponent. -/
theorem Literal.plain_or_exponent (n : Literal) :
    (∃ whole, IsWhole whole = true ∧
      (n.text.toList = whole ∧ n.value = Nat.ofDigitChars 10 whole 0 ∨
        n.text.toList = '-' :: whole ∧ n.value = -(Nat.ofDigitChars 10 whole 0 : ℚ))) ∨
    (∃ whole fraction, IsWhole whole = true ∧ IsFraction fraction = true ∧
      (n.text.toList = whole ++ '.' :: fraction ∧ n.value
          = (⟨Nat.ofDigitChars 10 (whole ++ fraction) 0, fraction.length⟩ : FixedPoint).value ∨
        n.text.toList = '-' :: (whole ++ '.' :: fraction) ∧ n.value
          = -(⟨Nat.ofDigitChars 10 (whole ++ fraction) 0, fraction.length⟩ : FixedPoint).value)) ∨
    HasExponent n.text.toList := by
  have hnumber := n.isNumber
  unfold JsonText.isNumber at hnumber
  unfold Literal.value
  split at hnumber
  next rest hcs =>
    rw [hcs, signedValue_minus]
    rcases unsigned_cases hnumber with ⟨hw, hv⟩ | ⟨whole, fraction, hw, hf, hrest, hv⟩ | hexp
    · exact .inl ⟨rest, hw, .inr ⟨rfl, by rw [hv]⟩⟩
    · exact .inr (.inl ⟨whole, fraction, hw, hf, .inr ⟨by rw [hrest], by rw [hv]⟩⟩)
    · refine .inr (.inr ⟨hexp.1.imp (List.mem_cons_of_mem _) (List.mem_cons_of_mem _), ?_⟩)
      simpa using hexp.2
  next hminus =>
    rw [signedValue_of_unsigned hminus]
    rcases unsigned_cases hnumber with ⟨hw, hv⟩ | ⟨whole, fraction, hw, hf, hcs, hv⟩ | hexp
    · exact .inl ⟨_, hw, .inl ⟨rfl, hv⟩⟩
    · exact .inr (.inl ⟨whole, fraction, hw, hf, .inl ⟨hcs, hv⟩⟩)
    · exact .inr (.inr hexp)

end JsonText

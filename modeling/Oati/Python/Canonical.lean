import Oati.Python.Value
import Oati.TypeScript.Numbers

/-!
# Canonical JSON in Python

`canonical_json` takes the digits of a number from `repr`, which switches to an exponent at other
places than the canonical form, and lays them out again.

* `canonicalJson`, with `_canonical_number` and the escapes of `json.dumps`;
* `canonicalNumber_eq`: what is written is what `Number::toString` prints;
* `canonicalJson_eq`: the text is that of the sorted document.

`digits` are the shortest digits that `repr` finds.
-/

namespace Oati.Python

open JsonText (TextWriter write render quote escapeChar)
open Double (Digits IsShortest)
open TypeScript (utf16 padded bigintChars signed signed_eq layout shortestLiteral
  ofDigitChars_padded sign_append_bigintChars)

/-! ### Numbers -/

/-- An exception of `canonical_json`. -/
inductive CanonicalException where
  /-- `int too large to convert to float` -/
  | overflowError
  /-- `canonical JSON rejects non-finite numbers` -/
  | valueError
  deriving DecidableEq, Repr

/-- The double that is written for a number. -/
def Number.double : Number → ℚ
  | int n => Double.round n
  | float q => q

/-- `float(value)`. -/
def toFloat : Number → Except CanonicalException ℚ
  | .int n =>
    if Double.overflow ≤ |Double.round n| then .error .overflowError else .ok (Double.round n)
  | .float q => .ok q

/-- `repr(number)` of a number other than zero. -/
def repr (digits : ℚ → Digits) (number : ℚ) : List Char :=
  let d := digits |number|
  signed number <|
    if -4 < d.point ∧ d.point ≤ 16 then
      if '.' ∈ d.positional then d.positional else d.positional ++ ['.', '0']
    else
      d.mantissa ++ 'e' :: Digits.exponentSign (d.point - 1) :: padded 2 (d.point - 1).natAbs

/-- `s.removesuffix(".0")`. -/
def removeSuffix (s : List Char) : List Char :=
  if s.drop (s.length - 2) = ['.', '0'] then s.take (s.length - 2) else s

/-- `s.split(c)` on a text with at most one `c`, filled up to two parts. -/
def splitAt (c : Char) (s : List Char) : List Char × List Char :=
  (s.takeWhile (· != c), (s.dropWhile (· != c)).drop 1)

/-- `int(s)` on digits with a sign. -/
def int (s : List Char) : ℤ :=
  match s with
  | '-' :: digits => -Nat.ofDigitChars 10 digits 0
  | '+' :: digits => Nat.ofDigitChars 10 digits 0
  | digits => Nat.ofDigitChars 10 digits 0

/-- The part of `_canonical_number` after the digits and the place of the point are known. -/
def relayout (number : ℚ) (sign digits : List Char) (decimalPosition : ℤ) : List Char :=
  if Double.round (10 ^ (-6 : ℤ)) ≤ |number| ∧ |number| < 10 ^ (21 : ℤ) then
    if decimalPosition ≤ 0 then
      sign ++ ['0', '.'] ++ List.replicate (-decimalPosition).toNat '0' ++ digits
    else if decimalPosition ≥ digits.length then
      sign ++ digits ++ List.replicate (decimalPosition - digits.length).toNat '0'
    else sign ++ digits.take decimalPosition.toNat ++ ['.'] ++ digits.drop decimalPosition.toNat
  else
    let coefficient := digits.take 1 ++ if digits.length > 1 then '.' :: digits.drop 1 else []
    let scientificExponent := decimalPosition - 1
    sign ++ coefficient ++ ['e'] ++ (if scientificExponent ≥ 0 then ['+'] else []) ++
      bigintChars scientificExponent

/-- `_canonical_number`. -/
def canonicalNumber (digits : ℚ → Digits) (value : Number) :
    Except CanonicalException (List Char) := do
  let number ← toFloat value
  if ¬ |number| < Double.overflow then .error .valueError
  else if number = 0 then .ok ['0']
  else
    let rendered := repr digits number
    if 'e' ∉ rendered then .ok (removeSuffix rendered)
    else
      let (mantissa, rawExponent) := splitAt 'e' rendered
      let exponent := int rawExponent
      let sign := if mantissa.head? = some '-' then ['-'] else []
      let unsigned := if mantissa.head? = some '-' then mantissa.drop 1 else mantissa
      let (whole, fraction) := splitAt '.' unsigned
      .ok (relayout number sign (whole ++ fraction) (whole.length + exponent))

/-! ### Strings and names -/

/-- `ESCAPE_DCT`, without the control characters that are escaped by their number. -/
def escapeDct : List (Char × List Char) :=
  [('\\', ['\\', '\\']), ('"', ['\\', '"']), ('\x08', ['\\', 'b']), ('\x0c', ['\\', 'f']),
    ('\n', ['\\', 'n']), ('\r', ['\\', 'r']), ('\t', ['\\', 't'])]

/-- What `json.dumps` writes for a character. -/
def dumpsChar (character : Char) : List Char :=
  match escapeDct.lookup character with
  | some escape => escape
  | none =>
    if character.toNat < 0x20 then
      '\\' :: 'u' :: (Nat.toDigits 16 character.toNat).leftpad 4 '0'
    else [character]

/-- `json.dumps(item, ensure_ascii=False)` of a string. -/
def dumps (item : String) : List Char := '"' :: item.toList.flatMap dumpsChar ++ ['"']

/-- `key.encode("utf-16-be")`. -/
def encodeUtf16 (key : String) : List ℕ := (utf16 key).flatMap fun unit => [unit / 256, unit % 256]

/-- `render`. -/
def canonicalWriter (digits : ℚ → Digits) : TextWriter Number CanonicalException where
  number := canonicalNumber digits
  string := dumps
  less := fun a b => decide (encodeUtf16 a < encodeUtf16 b)

/-- `canonical_json`. -/
def canonicalJson (digits : ℚ → Digits) (value : Value) : Except CanonicalException String :=
  String.ofList <$> write (canonicalWriter digits) value

/-! ### The notation of a number -/

variable {digits : ℚ → Digits}

theorem splitAt_append {c : Char} {s t : List Char} (h : c ∉ s) :
    splitAt c (s ++ c :: t) = (s, t) := by
  have hs : ∀ x ∈ s, (x != c) = true := fun x hx => bne_iff_ne.mpr fun heq => h (heq ▸ hx)
  rw [splitAt, List.takeWhile_append_of_pos hs, List.dropWhile_append_of_pos hs]
  simp

theorem splitAt_of_notMem {c : Char} {s : List Char} (h : c ∉ s) : splitAt c s = (s, []) := by
  have hs : ∀ x ∈ s, (x != c) = true := fun x hx => bne_iff_ne.mpr fun heq => h (heq ▸ hx)
  rw [splitAt, ← List.append_nil s, List.takeWhile_append_of_pos hs,
    List.dropWhile_append_of_pos hs]
  simp

/-- Neither letters nor signs are digits. -/
theorem notMem_chars {d : Digits} {c : Char} (h : c.isDigit = false) : c ∉ d.chars := by
  intro hc
  rw [d.isDigit_of_mem_chars c hc] at h
  cases h

theorem notMem_zeros {n : ℕ} {c : Char} (h : c.isDigit = false) : c ∉ List.replicate n '0' := by
  intro hc
  rw [List.eq_of_mem_replicate hc] at h
  cases h

/-- There is no letter in the notation without an exponent. -/
theorem e_notMem_positional (d : Digits) : 'e' ∉ d.positional := by
  have hchars : 'e' ∉ d.chars := notMem_chars rfl
  rw [Digits.positional]
  split_ifs
  · rw [List.mem_append, not_or]
    exact ⟨hchars, notMem_zeros rfl⟩
  · rw [List.mem_append, List.mem_cons, not_or, not_or]
    exact ⟨fun h => hchars (List.mem_of_mem_take h), by decide,
      fun h => hchars (List.mem_of_mem_drop h)⟩
  · rw [List.mem_cons, List.mem_cons, List.mem_append, not_or, not_or, not_or]
    exact ⟨by decide, by decide, notMem_zeros rfl, hchars⟩

/-- A text with a point ends in the last digit. -/
theorem getLast_positional {d : Digits} (h : '.' ∈ d.positional) :
    d.positional.getLast? = d.chars.getLast? := by
  rw [Digits.positional] at h ⊢
  have hne : d.chars ≠ [] := List.ne_nil_of_length_pos d.length_pos
  split_ifs at h ⊢ with hinteger hpoint
  · rw [List.mem_append] at h
    exact absurd h (not_or.mpr ⟨notMem_chars rfl, notMem_zeros rfl⟩)
  · have hdrop : d.chars.drop d.point.toNat ≠ [] := by
      rw [Ne, List.drop_eq_nil_iff]
      omega
    rw [List.getLast?_append_of_ne_nil _ (List.cons_ne_nil _ _),
      List.getLast?_cons_of_ne_nil hdrop, List.getLast?_drop, if_neg (by omega)]
  · rw [List.getLast?_cons_of_ne_nil (List.cons_ne_nil _ _), List.getLast?_cons_of_ne_nil (by simp [hne]),
      List.getLast?_append_of_ne_nil _ hne]

theorem removeSuffix_append (s : List Char) : removeSuffix (s ++ ['.', '0']) = s := by
  simp [removeSuffix]

theorem removeSuffix_of_getLast {s : List Char} (h : s.getLast? ≠ some '0') :
    removeSuffix s = s := by
  rw [removeSuffix, if_neg]
  intro hdrop
  have hsplit := List.take_append_drop (s.length - 2) s
  rw [hdrop] at hsplit
  rw [← hsplit] at h
  simp at h

/-- A number that `repr` prints without an exponent. -/
theorem removeSuffix_repr {q : ℚ} (hd : IsShortest |q| (digits |q|))
    (hpoint : -4 < (digits |q|).point ∧ (digits |q|).point ≤ 16) :
    removeSuffix (repr digits q) = signed q (digits |q|).positional := by
  rw [repr, if_pos hpoint]
  split_ifs with hdot
  · refine removeSuffix_of_getLast ?_
    have hne : (digits |q|).positional ≠ [] := List.ne_nil_of_mem hdot
    rw [signed_eq, List.getLast?_append_of_ne_nil _ hne, getLast_positional hdot]
    exact hd.getLast_chars
  · rw [signed_eq, ← List.append_assoc, removeSuffix_append, ← signed_eq]

/-- The digits of a text with an exponent. -/
theorem splitAt_mantissa (d : Digits) :
    splitAt '.' d.mantissa = (d.chars.take 1, d.chars.drop 1) := by
  have hfirst : '.' ∉ d.chars.take 1 := fun h => notMem_chars rfl (List.mem_of_mem_take h)
  rw [Digits.mantissa]
  split_ifs with hone
  · rw [List.append_nil, splitAt_of_notMem hfirst, List.drop_eq_nil_of_le hone.le]
  · exact splitAt_append hfirst

/-- A text with an exponent starts with a digit. -/
theorem head_mantissa (d : Digits) : d.mantissa.head? ≠ some '-' := by
  have hlength := d.length_pos
  have hne : d.chars ≠ [] := List.ne_nil_of_length_pos hlength
  obtain ⟨c, rest, hc⟩ := List.exists_cons_of_ne_nil hne
  have hdigit := d.isDigit_of_mem_chars c (by simp [hc])
  rw [Digits.mantissa, hc]
  intro h
  obtain rfl : c = '-' := by simpa using h
  cases hdigit

/-- The exponent is read back. -/
theorem int_padded (width : ℕ) (e : ℤ) :
    int (Digits.exponentSign e :: padded width e.natAbs) = e := by
  have hread := ofDigitChars_padded width e.natAbs
  rw [Digits.exponentSign]
  split_ifs with hneg
  · rw [int, hread]
    omega
  · rw [int, hread]
    omega

/-- The digits are laid out as `Number::toString` does. -/
theorem relayout_eq {q : ℚ} {d : Digits} (hd : IsShortest |q| d) :
    relayout q (signed q []) d.chars d.point = signed q (layout d) := by
  have hlength := d.length_pos
  rw [relayout, signed_eq q (layout d), layout]
  simp only [hd.micro_le_iff, hd.lt_sextillion_iff]
  by_cases hnotation : -6 < d.point ∧ d.point ≤ 21
  · rw [if_pos hnotation, if_pos hnotation, Digits.positional]
    -- the same three cases in another order
    by_cases hsmall : d.point ≤ 0
    · rw [if_pos hsmall, if_neg (by omega), if_neg (by omega)]
      simp
    · rw [if_neg hsmall]
      by_cases hinteger : (d.chars.length : ℤ) ≤ d.point
      · rw [if_pos hinteger, if_pos hinteger]
        have hzeros : (d.point - d.chars.length).toNat = d.point.toNat - d.chars.length := by omega
        rw [hzeros, List.append_assoc]
      · rw [if_neg hinteger, if_neg hinteger, if_pos (by omega)]
        simp
  · rw [if_neg hnotation, if_neg hnotation, Digits.scientific, Digits.mantissa]
    have hdigits : (if d.chars.length > 1 then '.' :: d.chars.drop 1 else [])
        = if d.chars.length = 1 then [] else '.' :: d.chars.drop 1 := by
      split_ifs
      all_goals first | rfl | omega
    rw [hdigits, List.append_assoc, sign_append_bigintChars]
    simp

/-- What is written for a number is what `Number::toString` prints. -/
theorem canonicalNumber_eq {value : Number} (hfinite : Double.IsFinite value.double)
    (hshortest : value.double ≠ 0 → IsShortest |value.double| (digits |value.double|)) :
    canonicalNumber digits value = .ok (shortestLiteral digits value.double) := by
  have hfloat : toFloat value = .ok value.double := by
    have hrange := hfinite.2
    cases value with
    | int n => exact if_neg (not_le.mpr hrange)
    | float q => rfl
  rw [canonicalNumber, hfloat, Except.ok_bind, if_neg (not_not.mpr hfinite.2), shortestLiteral,
    TypeScript.numberString]
  generalize value.double = q at hshortest
  by_cases hzero : q = 0
  · rw [if_pos hzero, if_pos hzero]
    rfl
  rw [if_neg hzero, if_neg hzero, String.toList_ofList]
  have hd := hshortest hzero
  have hsign : 'e' ∉ signed q [] := by
    unfold signed
    split_ifs <;> decide
  by_cases hrepr : -4 < (digits |q|).point ∧ (digits |q|).point ≤ 16
  · -- no exponent: only a fraction of zero is removed
    have hno : 'e' ∉ repr digits q := by
      rw [repr, if_pos hrepr, signed_eq, List.mem_append, not_or]
      refine ⟨hsign, ?_⟩
      split_ifs
      · exact e_notMem_positional _
      · rw [List.mem_append, not_or]
        exact ⟨e_notMem_positional _, by decide⟩
    have hnotation : -6 < (digits |q|).point ∧ (digits |q|).point ≤ 21 := by omega
    dsimp only
    rw [if_pos hno, removeSuffix_repr hd hrepr, layout, if_pos hnotation]
  · have hmantissa : 'e' ∉ signed q (digits |q|).mantissa := by
      rw [signed_eq, List.mem_append, not_or]
      refine ⟨hsign, ?_⟩
      rw [Digits.mantissa, List.mem_append, not_or]
      refine ⟨fun h => notMem_chars rfl (List.mem_of_mem_take h), ?_⟩
      split_ifs
      · exact List.not_mem_nil
      · rw [List.mem_cons, not_or]
        exact ⟨by decide, fun h => notMem_chars rfl (List.mem_of_mem_drop h)⟩
    have hrepr' : repr digits q = signed q (digits |q|).mantissa ++ 'e' ::
        (Digits.exponentSign ((digits |q|).point - 1) :: padded 2 ((digits |q|).point - 1).natAbs) := by
      rw [repr, if_neg hrepr, signed_eq, signed_eq q (digits |q|).mantissa, List.append_assoc]
    have hyes : ¬ 'e' ∉ repr digits q := by
      rw [hrepr', not_not]
      simp
    dsimp only
    rw [if_neg hyes, hrepr', splitAt_append hmantissa]
    dsimp only
    rw [int_padded]
    -- the sign is in front of the digits exactly if the number is negative
    have hhead : (signed q (digits |q|).mantissa).head? = some '-' ↔ q < 0 := by
      unfold signed
      split_ifs with hneg
      · simp [hneg]
      · exact iff_of_false (head_mantissa _) hneg
    have hunsigned : (if (signed q (digits |q|).mantissa).head? = some '-' then
        (signed q (digits |q|).mantissa).drop 1 else signed q (digits |q|).mantissa)
          = (digits |q|).mantissa := by
      simp only [hhead]
      unfold signed
      split_ifs <;> rfl
    have hsigns : (if (signed q (digits |q|).mantissa).head? = some '-' then ['-'] else [])
        = signed q [] := by
      simp only [hhead]
      rfl
    have hlength := (digits |q|).length_pos
    have hone : (((digits |q|).chars.take 1).length : ℤ) + ((digits |q|).point - 1)
        = (digits |q|).point := by
      rw [List.length_take, min_eq_left (by omega)]
      push_cast
      ring
    rw [hunsigned, hsigns, splitAt_mantissa]
    dsimp only
    rw [List.take_append_drop, hone, relayout_eq hd]

/-! ### The text of a document -/

theorem dumpsChar_eq (c : Char) : dumpsChar c = escapeChar c := by
  have hcontrol : ∀ n < 0x20, (Nat.toDigits 16 n).leftpad 4 '0'
      = ['0', '0', JsonText.hexDigit (n / 16), JsonText.hexDigit (n % 16)] := by decide
  by_cases htable : c ∈ escapeDct.map Prod.fst
  · have hall : (escapeDct.map Prod.fst).all (fun c => dumpsChar c = escapeChar c) = true := by decide
    exact of_decide_eq_true (List.all_eq_true.mp hall c htable)
  · have hnone : escapeDct.lookup c = none := by
      rw [List.lookup_eq_none_iff]
      intro entry hentry
      refine bne_iff_ne.mpr ?_
      rintro rfl
      exact htable (List.mem_map_of_mem hentry)
    simp only [escapeDct, List.map_cons, List.map_nil, List.mem_cons, List.not_mem_nil, or_false,
      not_or] at htable
    obtain ⟨h1, h2, h3, h4, h5, h6, h7⟩ := htable
    rw [dumpsChar, hnone, escapeChar, if_neg h2, if_neg h1, if_neg h3, if_neg h7, if_neg h5,
      if_neg h4, if_neg h6]
    dsimp only
    split_ifs with hsmall
    · rw [hcontrol _ hsmall]
    · rfl

theorem dumps_eq : dumps = quote := by
  have hchar : dumpsChar = escapeChar := funext dumpsChar_eq
  funext item
  rw [dumps, quote, hchar]

/-- The bytes of code units are in the order of the code units. -/
theorem flatMap_bytes_lt_iff {as bs : List ℕ} :
    (as.flatMap fun unit => [unit / 256, unit % 256]) <
      (bs.flatMap fun unit => [unit / 256, unit % 256]) ↔ as < bs := by
  induction as generalizing bs with
  | nil => cases bs <;> simp
  | cons a as ih =>
    cases bs with
    | nil => simp
    | cons b bs =>
      rw [List.flatMap_cons, List.flatMap_cons, List.cons_append, List.cons_append,
        List.cons_append, List.cons_append, List.nil_append, List.nil_append, List.cons_lt_cons_iff,
        List.cons_lt_cons_iff, List.cons_lt_cons_iff, ih]
      constructor
      · rintro (hhigh | ⟨hhigh, hlow | ⟨hlow, hrest⟩⟩)
        · exact .inl (by omega)
        · exact .inl (by omega)
        · exact .inr ⟨by omega, hrest⟩
      · rintro (hlt | ⟨rfl, hrest⟩)
        · by_cases hhigh : a / 256 < b / 256
          · exact .inl hhigh
          · exact .inr ⟨by omega, .inl (by omega)⟩
        · exact .inr ⟨rfl, .inr ⟨rfl, hrest⟩⟩

/-- The text of a document is that of the document of doubles, with sorted members. -/
theorem canonicalJson_eq {v : Value} (hfinite : ∀ n ∈ v.numbers, Double.IsFinite n.double)
    (hshortest : ∀ n ∈ v.numbers, n.double ≠ 0 → IsShortest |n.double| (digits |n.double|)) :
    canonicalJson digits v
      = .ok (String.ofList (render (shortestLiteral digits) ((v.map Number.double).sorted utf16))) := by
  have hnumber : ∀ n ∈ v.numbers,
      canonicalNumber digits n = .ok (shortestLiteral digits n.double) :=
    fun n hn => canonicalNumber_eq (hfinite n hn) (hshortest n hn)
  have hless : ∀ a b, (canonicalWriter digits).less a b = true ↔ utf16 a < utf16 b := by
    intro a b
    rw [canonicalWriter, decide_eq_true_iff, encodeUtf16, encodeUtf16, flatMap_bytes_lt_iff]
  have htext : write (canonicalWriter digits) v
      = .ok (render (shortestLiteral digits) ((v.map Number.double).sorted utf16)) :=
    JsonText.write_eq_render hless (fun s _ => congrFun dumps_eq s) hnumber
  rw [canonicalJson, htext]
  rfl

end Oati.Python

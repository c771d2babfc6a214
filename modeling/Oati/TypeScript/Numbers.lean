import Oati.Library.JsonWriter
import Oati.Library.Shortest
import Oati.TypeScript.CanonicalSpec
import Oati.TypeScript.Decimal
import Mathlib.Data.List.TakeWhile

/-!
# The canonical text of a document

`Number::toString` lays out the shortest digits of a number. With it the text of a document is
known, unless the document is too deep or has a member the copy loses.

* `numberString`: the layout; `PrintsShortest`: an engine uses it.
* `numberText_eq`: the integers the model prints by itself are no exception to it.
* `canonicalJson_eq`: the canonical text.
-/

namespace Oati.TypeScript

open JsonText
open Double (Digits IsShortest)

/-- The notation of a positive number. -/
def layout (d : Digits) : List Char :=
  if -6 < d.point ∧ d.point ≤ 21 then d.positional else d.scientific

/-- The sign of a number in front of its digits. -/
def signed (q : ℚ) (cs : List Char) : List Char := if q < 0 then '-' :: cs else cs

/-- `Number::toString`: `digits` are those of the absolute value. -/
def numberString (digits : ℚ → Digits) (q : ℚ) : String :=
  if q = 0 then "0" else String.ofList (signed q (layout (digits |q|)))

/-- The engine prints what the language says it prints. -/
def PrintsShortest (engine : Engine) (digits : ℚ → Digits) : Prop :=
  ∀ q, isSafeNatural q = false → engine.numberToString q = numberString digits q

/-- The digits are shortest digits of the numbers of the document. -/
def ShortestIn (digits : ℚ → Digits) (v : Value) : Prop :=
  ∀ q ∈ v.numbers, q ≠ 0 → IsShortest |q| (digits |q|)

variable {engine : Engine} {digits : ℚ → Digits}

/-! ### Signs and exponents -/

/-- The sign is written in front. -/
theorem signed_eq (q : ℚ) (cs : List Char) : signed q cs = signed q [] ++ cs := by
  unfold signed
  split_ifs <;> rfl

/-- Padding does not change what digits are read as. -/
theorem ofDigitChars_padded (width n : ℕ) : Nat.ofDigitChars 10 (padded width n) 0 = n := by
  simp [padded, List.leftpad, Nat.ofDigitChars_append]

/-- An exponent that is printed with a plus sign, unless it is negative. -/
theorem sign_append_bigintChars (e : ℤ) :
    (if e ≥ 0 then ['+'] else []) ++ bigintChars e
      = Digits.exponentSign e :: Nat.toDigits 10 e.natAbs := by
  cases e with
  | ofNat n =>
    have hneg : ¬ (Int.ofNat n < 0) := by simp
    rw [if_pos (by simp), Digits.exponentSign, if_neg hneg]
    rfl
  | negSucc n =>
    have hneg : Int.negSucc n < 0 := Int.negSucc_lt_zero n
    rw [if_neg (by omega), Digits.exponentSign, if_pos hneg]
    rfl

/-! ### The text of a number -/

/-- The digits of a safe natural are its shortest digits. -/
theorem numberString_natCast {m : ℕ} (hm : m ≤ Double.maxSafeInteger)
    (hshortest : (m : ℚ) ≠ 0 → IsShortest m (digits m)) :
    numberString digits m = Nat.repr m := by
  rcases Nat.eq_zero_or_pos m with rfl | hpos
  · rfl
  · have hne : (m : ℚ) ≠ 0 := by exact_mod_cast hpos.ne'
    have hbound : m < 2 ^ 53 := by
      rw [Double.maxSafeInteger] at hm
      omega
    have hd := hshortest hne
    -- the point is behind the digits and, below `2 ^ 53`, not far behind
    obtain ⟨hpoint, -⟩ := hd.value_natCast hpos hbound
    have hlength := (digits m).length_pos
    have hlarge : (digits m).point ≤ 21 := by
      rw [← hd.lt_sextillion_iff]
      calc (m : ℚ) < (2 ^ 53 : ℕ) := by exact_mod_cast hbound
        _ < 10 ^ (21 : ℤ) := by norm_num
    have hsign : ¬ (m : ℚ) < 0 := not_lt.mpr (Nat.cast_nonneg m)
    rw [numberString, if_neg hne, Nat.abs_cast, signed, if_neg hsign, layout,
      if_pos ⟨by omega, hlarge⟩, hd.positional_natCast hpos hbound, Nat.repr_eq_ofList_toDigits]

/-- Every number is printed with its shortest digits. -/
theorem numberText_eq (hprints : PrintsShortest engine digits) {q : ℚ}
    (hshortest : q ≠ 0 → IsShortest |q| (digits |q|)) :
    numberText engine q = numberString digits q := by
  rw [numberText]
  split_ifs with hsafe
  · simp only [isSafeNatural, Bool.and_eq_true, beq_iff_eq, decide_eq_true_eq] at hsafe
    obtain ⟨⟨hden, hnum⟩, hmax⟩ := hsafe
    obtain ⟨m, hm⟩ := Int.eq_ofNat_of_zero_le hnum
    have hq : q = (m : ℚ) := by
      rw [← Rat.num_div_den q, hden, hm]
      simp
    rw [hm] at hmax
    subst hq
    rw [Nat.abs_cast] at hshortest
    rw [numberString_natCast (by exact_mod_cast hmax) hshortest]
    simp
  · exact hprints q (by simpa using hsafe)

/-! ### The text is a JSON number -/

/-- Digits in front of what may follow them. -/
theorem isNumber_append {whole tail : List Char} (hwhole : Numeral.IsWhole whole = true)
    (htail : isNumberTail tail = true) (hhead : ∀ c ∈ tail.head?, c.isDigit = false) :
    isNumber (whole ++ tail) = true ∧ isNumber ('-' :: (whole ++ tail)) = true := by
  have hdigits := Numeral.isDigit_of_isWhole hwhole
  have hstop : tail.takeWhile Char.isDigit = [] ∧ tail.dropWhile Char.isDigit = tail := by
    cases tail with
    | nil => exact ⟨rfl, rfl⟩
    | cons c rest =>
      have hc := hhead c (by simp)
      simp [hc]
  have hparts : (Numeral.IsWhole ((whole ++ tail).takeWhile Char.isDigit) &&
      isNumberTail ((whole ++ tail).dropWhile Char.isDigit)) = true := by
    rw [List.takeWhile_append_of_pos hdigits, List.dropWhile_append_of_pos hdigits, hstop.1,
      hstop.2, List.append_nil, hwhole, htail]
    rfl
  refine ⟨?_, hparts⟩
  have hunsigned : ∀ rest, whole ++ tail ≠ '-' :: rest := by
    intro rest heq
    cases whole with
    | nil => cases hwhole
    | cons c cs =>
      obtain ⟨rfl, -⟩ := List.cons.inj heq
      exact absurd (hdigits '-' (by simp)) (by decide)
  unfold isNumber
  split
  next rest heq => exact absurd heq (hunsigned rest)
  next => exact hparts

theorem isFraction_of_digits {cs : List Char} (hne : cs ≠ []) (h : ∀ c ∈ cs, c.isDigit) :
    Numeral.IsFraction cs = true := by
  rw [Numeral.IsFraction, Bool.and_eq_true, List.all_eq_true]
  exact ⟨by simpa using hne, h⟩

/-- A fraction, and nothing after it. -/
theorem isNumberTail_fraction {fraction : List Char} (h : Numeral.IsFraction fraction = true) :
    isNumberTail ('.' :: fraction) = true := by
  have hdigits : ∀ c ∈ fraction, c.isDigit = true := by
    rw [Numeral.IsFraction, Bool.and_eq_true, List.all_eq_true] at h
    exact h.2
  have htake : fraction.takeWhile Char.isDigit = fraction := List.takeWhile_eq_self_iff.mpr hdigits
  have hdrop : fraction.dropWhile Char.isDigit = [] := List.dropWhile_eq_nil_iff.mpr hdigits
  rw [isNumberTail, htake, hdrop]
  simp [h]

/-- An exponent with its sign. -/
theorem isExponent_cons (e : ℤ) :
    isExponent (Digits.exponentSign e :: Nat.toDigits 10 e.natAbs) = true := by
  have hdigits : Numeral.IsFraction (Nat.toDigits 10 e.natAbs) = true :=
    isFraction_of_digits Nat.toDigits_ne_nil Numeral.isDigit_of_mem_toDigits
  rw [Digits.exponentSign]
  split_ifs
  · exact hdigits
  · exact hdigits

/-- Digits of which the first is not zero. -/
theorem isWhole_take {d : Digits} (hd : 0 < d.significand) {n : ℕ} (hn : 0 < n) :
    Numeral.IsWhole (d.chars.take n) = true := by
  have hlength := d.length_pos
  refine Numeral.isWhole_of_head ?_ (fun c hc => d.isDigit_of_mem_chars c (List.mem_of_mem_take hc)) ?_
  · rw [Ne, List.take_eq_nil_iff]
    have hne : d.chars ≠ [] := List.ne_nil_of_length_pos hlength
    simp [hne, hn.ne']
  · rw [List.head?_take, if_neg hn.ne']
    exact Numeral.head?_toDigits_ne_zero hd

/-- The notation without an exponent is a JSON number. -/
theorem isNumber_positional {d : Digits} (hd : 0 < d.significand) :
    isNumber d.positional = true ∧ isNumber ('-' :: d.positional) = true := by
  have hlength := d.length_pos
  have hchars : d.chars.take d.chars.length = d.chars := List.take_length
  rw [Digits.positional]
  split_ifs with hinteger hpoint
  · have hwhole : Numeral.IsWhole
        (d.chars ++ List.replicate (d.point.toNat - d.chars.length) '0') = true := by
      refine Numeral.isWhole_of_head (by simp [List.ne_nil_of_length_pos hlength]) ?_ ?_
      · intro c hc
        rcases List.mem_append.mp hc with hdigit | hzero
        · exact d.isDigit_of_mem_chars c hdigit
        · rw [List.eq_of_mem_replicate hzero]
          rfl
      · rw [List.head?_append_of_ne_nil _ (List.ne_nil_of_length_pos hlength)]
        exact Numeral.head?_toDigits_ne_zero hd
    have htail := @isNumber_append _ [] hwhole rfl (by simp)
    rwa [List.append_nil] at htail
  · refine isNumber_append (isWhole_take hd (by omega)) (isNumberTail_fraction ?_) (by simp)
    refine isFraction_of_digits ?_ fun c hc => d.isDigit_of_mem_chars c (List.mem_of_mem_drop hc)
    rw [Ne, List.drop_eq_nil_iff]
    omega
  · refine @isNumber_append ['0'] _ rfl (isNumberTail_fraction ?_) (by simp)
    refine isFraction_of_digits ?_ ?_
    · simp [List.ne_nil_of_length_pos hlength]
    · intro c hc
      rcases List.mem_append.mp hc with hzero | hdigit
      · rw [List.eq_of_mem_replicate hzero]
        rfl
      · exact d.isDigit_of_mem_chars c hdigit

/-- The notation with an exponent is a JSON number. -/
theorem isNumber_scientific {d : Digits} (hd : 0 < d.significand) :
    isNumber d.scientific = true ∧ isNumber ('-' :: d.scientific) = true := by
  have hwhole := isWhole_take hd (n := 1) Nat.one_pos
  have hexponent := isExponent_cons (d.point - 1)
  have hlength := d.length_pos
  rw [Digits.scientific, Digits.mantissa, List.append_assoc]
  split_ifs with hone
  · refine isNumber_append hwhole ?_ (by simp)
    simp [isNumberTail, hexponent]
  · have hdigits : ∀ c ∈ d.chars.drop 1, c.isDigit = true := fun c hc =>
      d.isDigit_of_mem_chars c (List.mem_of_mem_drop hc)
    have hfraction : Numeral.IsFraction (d.chars.drop 1) = true := by
      refine isFraction_of_digits ?_ hdigits
      rw [Ne, List.drop_eq_nil_iff]
      omega
    refine isNumber_append hwhole ?_ (by simp)
    rw [List.cons_append, isNumberTail, List.takeWhile_append_of_pos hdigits,
      List.dropWhile_append_of_pos hdigits]
    simp only [List.takeWhile_cons_of_neg (show ¬ Char.isDigit 'e' = true by decide),
      List.dropWhile_cons_of_neg (show ¬ Char.isDigit 'e' = true by decide), List.append_nil,
      hfraction, hexponent]
    rfl

/-- The text of a number is a JSON number. -/
theorem isNumber_numberString {q : ℚ} (hshortest : q ≠ 0 → IsShortest |q| (digits |q|)) :
    isNumber (numberString digits q).toList = true := by
  rw [numberString]
  split_ifs with hzero
  · rfl
  · have hd := (hshortest hzero).pos
    have hlayout : isNumber (layout (digits |q|)) = true ∧
        isNumber ('-' :: layout (digits |q|)) = true := by
      rw [layout]
      split_ifs
      · exact isNumber_positional hd
      · exact isNumber_scientific hd
    rw [String.toList_ofList, signed]
    split_ifs
    · exact hlayout.2
    · exact hlayout.1

/-! ### Depth -/

/-- A document that is not too deep has a copy. Induction on the document: a level of it is a
level of the recursion. -/
theorem exists_canonicalValue {v : Value} {depth : ℕ} (h : depth + v.depth ≤ 256) :
    ∃ w, canonicalValue depth v = .ok w := by
  have hwithin : ∀ {x : Except JsError Value} {w : Value}, x = .ok w →
      ∃ w, withinDepth depth x = .ok w :=
    fun hx => ⟨_, withinDepth_eq_ok.mpr ⟨by omega, hx⟩⟩
  induction v using Json.induction generalizing depth with
  | arr items ih =>
    have hitems : ∃ ws, canonicalItems (depth + 1) items = .ok ws := by
      have hdepth : ∀ v ∈ items, depth + 1 + v.depth ≤ 256 := by
        intro v hv
        have := Json.depth_lt_of_mem_items hv
        omega
      clear h hwithin
      induction items with
      | nil => exact ⟨[], rfl⟩
      | cons v rest ihrest =>
        rw [List.forall_mem_cons] at ih hdepth
        obtain ⟨w, hw⟩ := ih.1 hdepth.1 fun hx => ⟨_, withinDepth_eq_ok.mpr ⟨by omega, hx⟩⟩
        obtain ⟨ws, hws⟩ := ihrest ih.2 hdepth.2
        exact ⟨w :: ws, by rw [canonicalItems, hw, hws]; rfl⟩
    obtain ⟨ws, hws⟩ := hitems
    rw [canonicalValue, hws]
    exact hwithin rfl
  | obj members ih =>
    have hmembers : ∃ ws, canonicalEntries (depth + 1) members = .ok ws := by
      have hdepth : ∀ m ∈ members, depth + 1 + m.2.depth ≤ 256 := by
        intro m hm
        have := Json.depth_lt_of_mem_members hm
        omega
      clear h hwithin
      induction members with
      | nil => exact ⟨[], rfl⟩
      | cons m rest ihrest =>
        rw [List.forall_mem_cons] at ih hdepth
        obtain ⟨w, hw⟩ := ih.1 hdepth.1 fun hx => ⟨_, withinDepth_eq_ok.mpr ⟨by omega, hx⟩⟩
        obtain ⟨ws, hws⟩ := ihrest ih.2 hdepth.2
        exact ⟨(m.1, w) :: ws, by rw [canonicalEntries, hw, hws]; rfl⟩
    obtain ⟨ws, hws⟩ := hmembers
    rw [canonicalValue, hws]
    exact hwithin rfl
  | _ =>
    rw [canonicalValue]
    exact hwithin rfl

/-- The text that numbers have in the canonical form. -/
def shortestLiteral (digits : ℚ → Digits) (q : ℚ) : List Char := (numberString digits q).toList

/-- The canonical text of a document that the copy keeps as it is. -/
theorem canonicalJson_eq (hprints : PrintsShortest engine digits) {v : Value}
    (hshortest : ShortestIn digits v) (hdepth : v.depth ≤ 256) (hproto : PROTO ∉ v.names) :
    canonicalJson engine v
      = .ok (String.ofList (render (shortestLiteral digits) (v.sorted utf16))) := by
  obtain ⟨w, hw⟩ := @exists_canonicalValue v 0 (by omega)
  have htext : canonicalJson engine v = .ok (stringify engine w) := by
    rw [canonicalJson, hw]
    rfl
  rw [htext, canonicalValue_eq hw, Json.without_of_notMem hproto, stringify]
  refine congrArg (fun cs => Except.ok (String.ofList cs)) (render_congr fun q hq => ?_)
  have hq' := Json.numbers_sorted utf16 hq
  rw [numberText_eq hprints (hshortest q hq')]
  rfl

end Oati.TypeScript

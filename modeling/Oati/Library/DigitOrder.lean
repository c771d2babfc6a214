import Oati.Library.Numeral

/-!
# The order of digit strings

Two naturals written in decimal can be compared without reading them as numbers: the longer whole
part is the larger number, and of two digit strings of one length the lexicographically larger is.
Fractions are first brought to one length by zeros at the end.

* `ofDigitChars_lt_iff`: at one length, the order of the numbers is that of the strings.
* `ofDigitChars_lt_of_length_lt`: a longer whole part is a larger number.
* `lt_of_whole_lt`: fractions do not outweigh a difference of the whole parts.
-/

namespace Numeral

variable {as bs : List Char}

/-- The first digit counts with the power of ten of the rest. -/
theorem ofDigitChars_cons_zero (c : Char) (cs : List Char) :
    Nat.ofDigitChars 10 (c :: cs) 0
      = 10 ^ cs.length * (c.toNat - 48) + Nat.ofDigitChars 10 cs 0 := by
  rw [Nat.ofDigitChars_cons, Nat.ofDigitChars_eq_ofDigitChars_zero, Nat.mul_zero, Nat.zero_add]
  rfl

/-- The code of a digit. -/
theorem toNat_of_isDigit {c : Char} (h : c.isDigit) : 48 ≤ c.toNat ∧ c.toNat ≤ 57 := by
  simp only [Char.isDigit, ge_iff_le, Bool.and_eq_true, decide_eq_true_eq] at h
  exact ⟨h.1, h.2⟩

/-- A number is below the power of ten of its length. -/
theorem ofDigitChars_lt_pow (h : ∀ c ∈ as, c.isDigit) :
    Nat.ofDigitChars 10 as 0 < 10 ^ as.length := by
  induction as with
  | nil => simp
  | cons c cs ih =>
    have hrest := ih fun d hd => h d (List.mem_cons_of_mem c hd)
    have hc : c.toNat - 48 ≤ 9 := by
      have := toNat_of_isDigit (h c List.mem_cons_self)
      omega
    rw [ofDigitChars_cons_zero, List.length_cons, pow_succ]
    have hmul := Nat.mul_le_mul_left (10 ^ cs.length) hc
    omega

/-- Digit strings of one length are ordered as the numbers they denote. -/
theorem ofDigitChars_lt_iff (hlen : as.length = bs.length) (ha : ∀ c ∈ as, c.isDigit)
    (hb : ∀ c ∈ bs, c.isDigit) :
    Nat.ofDigitChars 10 as 0 < Nat.ofDigitChars 10 bs 0 ↔ as.map Char.toNat < bs.map Char.toNat := by
  induction as generalizing bs with
  | nil =>
    obtain rfl : bs = [] := List.length_eq_zero_iff.mp hlen.symm
    simp
  | cons a as ih =>
    obtain ⟨b, bs, rfl⟩ : ∃ b bs', bs = b :: bs' := List.exists_cons_of_length_eq_add_one hlen.symm
    have hlen' : as.length = bs.length := by simpa using hlen
    have ha' : ∀ c ∈ as, c.isDigit := fun c hc => ha c (List.mem_cons_of_mem a hc)
    have hb' : ∀ c ∈ bs, c.isDigit := fun c hc => hb c (List.mem_cons_of_mem b hc)
    have hda := toNat_of_isDigit (ha a List.mem_cons_self)
    have hdb := toNat_of_isDigit (hb b List.mem_cons_self)
    have hlta := ofDigitChars_lt_pow ha'
    have hltb := ofDigitChars_lt_pow hb'
    rw [← hlen'] at hltb
    simp only [ofDigitChars_cons_zero, ← hlen', List.map_cons, List.cons_lt_cons_iff,
      ← ih hlen' ha' hb']
    -- the first digits decide, unless they are equal
    rcases lt_trichotomy a.toNat b.toNat with hlt | heq | hgt
    · have hmul : 10 ^ as.length * (a.toNat - 48 + 1) ≤ 10 ^ as.length * (b.toNat - 48) :=
        Nat.mul_le_mul_left _ (by omega)
      rw [Nat.mul_add_one] at hmul
      exact iff_of_true (by omega) (.inl hlt)
    · rw [heq]
      omega
    · have hmul : 10 ^ as.length * (b.toNat - 48 + 1) ≤ 10 ^ as.length * (a.toNat - 48) :=
        Nat.mul_le_mul_left _ (by omega)
      rw [Nat.mul_add_one] at hmul
      exact iff_of_false (by omega) (by omega)

/-- Digit strings of one length are determined by their number. -/
theorem ofDigitChars_inj (hlen : as.length = bs.length) (ha : ∀ c ∈ as, c.isDigit)
    (hb : ∀ c ∈ bs, c.isDigit) :
    Nat.ofDigitChars 10 as 0 = Nat.ofDigitChars 10 bs 0 ↔ as = bs := by
  refine ⟨fun h => ?_, fun h => h ▸ rfl⟩
  have hnot : ¬ as.map Char.toNat < bs.map Char.toNat ∧ ¬ bs.map Char.toNat < as.map Char.toNat :=
    ⟨fun hlt => absurd ((ofDigitChars_lt_iff hlen ha hb).mpr hlt) (by omega),
      fun hlt => absurd ((ofDigitChars_lt_iff hlen.symm hb ha).mpr hlt) (by omega)⟩
  have hmap : as.map Char.toNat = bs.map Char.toNat := by
    rcases lt_trichotomy (as.map Char.toNat) (bs.map Char.toNat) with hlt | heq | hgt
    · exact absurd hlt hnot.1
    · exact heq
    · exact absurd hgt hnot.2
  exact List.map_injective_iff.mpr (fun _ _ => Char.toNat_inj.mp) hmap

/-- A whole part of several digits does not start with a zero. -/
theorem pow_le_ofDigitChars {a : Char} (hlen : as ≠ []) (h : IsWhole (a :: as)) :
    10 ^ as.length ≤ Nat.ofDigitChars 10 (a :: as) 0 := by
  have hdigit := toNat_of_isDigit (isDigit_of_isWhole h a List.mem_cons_self)
  have hzero : a ≠ '0' := by
    obtain ⟨b, rest, rfl⟩ := List.exists_cons_of_ne_nil hlen
    simp only [IsWhole, Bool.and_eq_true, bne_iff_ne] at h
    exact h.1.2
  have hne : a.toNat ≠ 48 := fun heq => hzero (Char.toNat_inj.mp heq)
  rw [ofDigitChars_cons_zero]
  have hmul : 10 ^ as.length * 1 ≤ 10 ^ as.length * (a.toNat - 48) :=
    Nat.mul_le_mul_left _ (by omega)
  omega

/-- Of two whole parts the longer is the larger number. -/
theorem ofDigitChars_lt_of_length_lt (ha : IsWhole as) (hb : IsWhole bs)
    (hlen : as.length < bs.length) : Nat.ofDigitChars 10 as 0 < Nat.ofDigitChars 10 bs 0 := by
  obtain ⟨b, bs, rfl⟩ : ∃ b bs', bs = b :: bs' :=
    List.exists_cons_of_length_pos (by omega)
  have hne : as ≠ [] := by rintro rfl; cases ha
  have hpos := List.length_pos_of_ne_nil hne
  rw [List.length_cons] at hlen
  have hrest : bs ≠ [] := by rintro rfl; simp only [List.length_nil] at hlen; omega
  calc Nat.ofDigitChars 10 as 0 < 10 ^ as.length := ofDigitChars_lt_pow (isDigit_of_isWhole ha)
    _ ≤ 10 ^ bs.length := Nat.pow_le_pow_right (by norm_num) (by omega)
    _ ≤ _ := pow_le_ofDigitChars hrest hb

/-! ### Fractions -/

/-- The number behind a point. -/
def fractionValue (cs : List Char) : ℚ := Nat.ofDigitChars 10 cs 0 / 10 ^ cs.length

theorem fractionValue_nonneg (cs : List Char) : 0 ≤ fractionValue cs := by
  unfold fractionValue
  positivity

theorem fractionValue_lt_one (h : ∀ c ∈ as, c.isDigit) : fractionValue as < 1 := by
  rw [fractionValue, div_lt_one (by positivity)]
  exact_mod_cast ofDigitChars_lt_pow h

/-- Zeros at the end of a fraction do not change it. -/
theorem fractionValue_append_zeros (cs : List Char) (n : ℕ) :
    fractionValue (cs ++ List.replicate n '0') = fractionValue cs := by
  have hpos : (10 : ℚ) ^ n ≠ 0 := by positivity
  rw [fractionValue, fractionValue, Nat.ofDigitChars_append, Nat.ofDigitChars_replicate_zero,
    List.length_append, List.length_replicate, pow_add]
  push_cast
  rw [mul_comm, mul_div_mul_right _ _ hpos]

/-- Fractions of one length are ordered as their digits. -/
theorem fractionValue_lt_iff (hlen : as.length = bs.length) (ha : ∀ c ∈ as, c.isDigit)
    (hb : ∀ c ∈ bs, c.isDigit) :
    fractionValue as < fractionValue bs ↔ as.map Char.toNat < bs.map Char.toNat := by
  rw [fractionValue, fractionValue, hlen, div_lt_div_iff_of_pos_right (by positivity),
    Nat.cast_lt, ofDigitChars_lt_iff hlen ha hb]

theorem fractionValue_inj (hlen : as.length = bs.length) (ha : ∀ c ∈ as, c.isDigit)
    (hb : ∀ c ∈ bs, c.isDigit) : fractionValue as = fractionValue bs ↔ as = bs := by
  rw [fractionValue, fractionValue, hlen, div_left_inj' (by positivity), Nat.cast_inj,
    ofDigitChars_inj hlen ha hb]

/-- The smaller whole part makes the smaller number, whatever the fractions are. -/
theorem lt_of_whole_lt {m n : ℕ} (hlt : m < n) (ha : ∀ c ∈ as, c.isDigit) (bs : List Char) :
    m + fractionValue as < n + fractionValue bs := by
  have hwhole : (m : ℚ) + 1 ≤ n := by exact_mod_cast hlt
  linarith [fractionValue_lt_one ha, fractionValue_nonneg bs]

/-- The digits of both parts in one number, over the power of ten of the fraction. -/
theorem value_append_digits (whole fraction : List Char) :
    (⟨Nat.ofDigitChars 10 (whole ++ fraction) 0, fraction.length⟩ : FixedPoint).value
      = Nat.ofDigitChars 10 whole 0 + fractionValue fraction := by
  have happend : Nat.ofDigitChars 10 (whole ++ fraction) 0
      = 10 ^ fraction.length * Nat.ofDigitChars 10 whole 0 + Nat.ofDigitChars 10 fraction 0 := by
    rw [Nat.ofDigitChars_append]
    exact Nat.ofDigitChars_eq_ofDigitChars_zero
  have hpos : (10 : ℚ) ^ fraction.length ≠ 0 := by positivity
  rw [FixedPoint.value, fractionValue, happend]
  push_cast
  field_simp

end Numeral

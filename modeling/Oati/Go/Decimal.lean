import Oati.Go.Value

/-!
# What the decimals of the Go side denote

`Reads v q`: the parser takes the text `v` for the rational `q`. It takes more texts than the
grammar of the evaluator (signs, leading zeros, `1.2.3` for one), and never reads a text of the
grammar or a number literal differently.

* comparison is the order of what is read, and the only fault of the arithmetic is a panic;
* `reads_of_denotes`: the texts of the grammar are read as they are in TypeScript, so sums,
  products and comparisons agree;
* `value_of_reads_literal`, `value_of_ratSetString`: a number literal is read as its value.
-/

namespace Oati.Go

open JsonText (Literal HasExponent)
open Numeral
open TypeScript (isDecimal formatDecimal Denotes exists_denotes compareDecimal addDecimal
  multiplyDecimal)

/-! ### Digits -/

theorem isFraction_of_isWhole {cs : List Char} (h : IsWhole cs = true) : IsFraction cs = true := by
  have hdigits := isDigit_of_isWhole h
  have hne : cs ≠ [] := by
    rintro rfl
    cases h
  simp only [IsFraction, Bool.and_eq_true, List.all_eq_true]
  exact ⟨by simpa using hne, hdigits⟩

theorem isFraction_append {cs ds : List Char} (hc : IsFraction cs = true)
    (hd : IsFraction ds = true) : IsFraction (cs ++ ds) = true := by
  simp only [IsFraction, Bool.and_eq_true, Bool.not_eq_true', List.isEmpty_eq_false_iff,
    List.all_eq_true] at hc hd ⊢
  exact ⟨by simp [hc.1], fun c h => (List.mem_append.mp h).elim (hc.2 c) (hd.2 c)⟩

theorem isDigit_of_isFraction {cs : List Char} (h : IsFraction cs = true) :
    ∀ c ∈ cs, c.isDigit = true := by
  simp only [IsFraction, Bool.and_eq_true, List.all_eq_true] at h
  exact h.2

/-- Digits are a numeral without a sign. -/
theorem setString_of_isFraction {cs : List Char} (h : IsFraction cs = true) :
    setString cs = some (Nat.ofDigitChars 10 cs 0 : ℤ) := by
  have hdigits := isDigit_of_isFraction h
  unfold setString
  split
  · exact absurd (hdigits '+' (by simp)) (by decide)
  · exact absurd (hdigits '-' (by simp)) (by decide)
  · rw [if_pos h]

theorem setString_minus {cs : List Char} (h : IsFraction cs = true) :
    setString ('-' :: cs) = some (-Nat.ofDigitChars 10 cs 0 : ℤ) := by
  simp [setString, h]

/-- Only digits and one sign are accepted. -/
theorem mem_of_setString {cs : List Char} {n : ℤ} (h : setString cs = some n) :
    ∀ c ∈ cs, c.isDigit = true ∨ c = '+' ∨ c = '-' := by
  unfold setString at h
  split at h <;> split at h
  next digits hdigits =>
    refine List.forall_mem_cons.mpr ⟨.inr (.inl rfl), fun c hc => ?_⟩
    exact .inl (isDigit_of_isFraction hdigits c hc)
  next => cases h
  next digits hdigits =>
    refine List.forall_mem_cons.mpr ⟨.inr (.inr rfl), fun c hc => ?_⟩
    exact .inl (isDigit_of_isFraction hdigits c hc)
  next => cases h
  next digits _ _ hdigits => exact fun c hc => .inl (isDigit_of_isFraction hdigits c hc)
  next => cases h

/-! ### Reading -/

/-- The text is read as the number `q`. -/
def Reads (v : String) (q : ℚ) : Prop := ∃ d, parseDecimal v = .ok d ∧ d.value = q

/-- The text is read as a number. -/
def Parses (v : String) : Prop := ∃ q, Reads v q

theorem Reads.unique {v : String} {p q : ℚ} (hp : Reads v p) (hq : Reads v q) : p = q := by
  obtain ⟨d, hd, rfl⟩ := hp
  obtain ⟨e, he, rfl⟩ := hq
  rw [hd] at he
  cases he
  rfl

/-- The text of a child is read as at most what the parent's is. -/
def AtMost (a b : String) : Prop := ∃ p q, Reads a p ∧ Reads b q ∧ p ≤ q

/-- Reading panics exactly on the other texts. -/
theorem parseDecimal_eq_panic {v : String} : parseDecimal v = .error .panic ↔ ¬ Parses v := by
  cases h : parseDecimal v with
  | error e => simp [Parses, Reads, h]
  | ok d => simp [Parses, Reads, h]

/-- Comparison succeeds exactly on two texts that are read, and is then the order of what they
are read as. -/
theorem decimalCompare_eq_ok {a b : String} {c : ℤ} :
    decimalCompare a b = .ok c ↔
      ∃ p q, Reads a p ∧ Reads b q ∧ c = if p = q then 0 else if q < p then 1 else -1 := by
  unfold decimalCompare Reads
  cases ha : parseDecimal a with
  | error e => simp [bind, Except.bind]
  | ok x =>
    cases hb : parseDecimal b with
    | error e => simp [bind, Except.bind]
    | ok y =>
      have heq := FixedPoint.align_eq_iff x y
      have hlt : (FixedPoint.align x y).2.1 < (FixedPoint.align x y).1 ↔ y.value < x.value := by
        rw [← not_le, ← not_le, FixedPoint.align_le_iff]
      simp only [bind, Except.bind, pure, Except.pure, Except.ok.injEq, gt_iff_lt]
      constructor
      · rintro rfl
        exact ⟨x.value, y.value, ⟨x, rfl, rfl⟩, ⟨y, rfl, rfl⟩, by simp only [heq, hlt]⟩
      · rintro ⟨p, q, ⟨x', hx', rfl⟩, ⟨y', hy', rfl⟩, rfl⟩
        cases hx'
        cases hy'
        simp only [heq, hlt]

/-- `exceeds` compares what the texts are read as. -/
theorem exceeds_eq_ok {a b : String} {e : Bool} :
    exceeds a b = .ok e ↔ ∃ p q, Reads a p ∧ Reads b q ∧ e = decide (q < p) := by
  unfold exceeds
  simp only [bind_eq_ok, decimalCompare_eq_ok]
  constructor
  · rintro ⟨c, ⟨p, q, hp, hq, rfl⟩, he⟩
    cases he
    refine ⟨p, q, hp, hq, ?_⟩
    split_ifs with h1 h2
    · simp [h1]
    · simp [h2]
    · simp [h2]
  · rintro ⟨p, q, hp, hq, rfl⟩
    refine ⟨_, ⟨p, q, hp, hq, rfl⟩, ?_⟩
    split_ifs with h1 h2
    · simp [h1, pure, Except.pure]
    · simp [h2, pure, Except.pure]
    · simp [h2, pure, Except.pure]

theorem exceeds_eq_false {a b : String} : exceeds a b = .ok false ↔ AtMost a b := by
  rw [exceeds_eq_ok]
  constructor
  · rintro ⟨p, q, hp, hq, he⟩
    exact ⟨p, q, hp, hq, not_lt.mp (of_decide_eq_false he.symm)⟩
  · rintro ⟨p, q, hp, hq, hle⟩
    exact ⟨p, q, hp, hq, (decide_eq_false (not_lt.mpr hle)).symm⟩

/-- A numeral is read as the integer it is. -/
theorem reads_of_setString {s : String} {k : ℤ} (h : setString s.toList = some k) :
    Reads s k := by
  have hdot : '.' ∉ s.toList := fun hmem =>
    absurd (mem_of_setString h _ hmem) (by decide)
  refine ⟨⟨k, 0⟩, ?_, by simp [FixedPoint.value]⟩
  simp [parseDecimal, List.splitOn_eq_singleton hdot, h]

/-! ### Texts of the grammar -/

/-- The parser reads a text of the grammar as TypeScript does. -/
theorem parseDecimal_of_ok {v : String} {d : FixedPoint} (h : TypeScript.parseDecimal v = .ok d) :
    parseDecimal v = .ok d := by
  have hdec : isDecimal v = true := Denotes.isDecimal ⟨d, h, rfl⟩
  unfold TypeScript.parseDecimal at h
  rw [if_pos hdec] at h
  unfold isDecimal at hdec
  unfold parseDecimal
  split at hdec
  next whole hparts =>
    have hwhole := setString_of_isFraction (isFraction_of_isWhole hdec)
    simp only [hparts, Except.ok.injEq] at h
    simp [hparts, hwhole, h]
  next whole fraction hparts =>
    rw [Bool.and_eq_true] at hdec
    have hdigits := isFraction_append (isFraction_of_isWhole hdec.1) hdec.2
    simp only [hparts, Except.ok.injEq] at h
    simp [hparts, setString_of_isFraction hdigits, h]
  next => cases hdec

theorem reads_of_denotes {v : String} {q : ℚ} (h : Denotes v q) : Reads v q := by
  obtain ⟨d, hd, hq⟩ := h
  exact ⟨d, parseDecimal_of_ok hd, hq⟩

theorem parses_of_isDecimal {v : String} (h : isDecimal v = true) : Parses v := by
  obtain ⟨q, hq, -⟩ := exists_denotes h
  exact ⟨q, reads_of_denotes hq⟩

theorem decimalCompare_of_ok {a b : String} {c : ℤ} (h : compareDecimal a b = .ok c) :
    decimalCompare a b = .ok c := by
  obtain ⟨p, q, hp, hq, hc⟩ := TypeScript.compareDecimal_eq_ok.mp h
  exact decimalCompare_eq_ok.mpr ⟨p, q, reads_of_denotes hp, reads_of_denotes hq, hc⟩

theorem decimalAdd_of_ok {a b sum : String} (h : addDecimal a b = .ok sum) :
    decimalAdd a b = .ok sum := by
  obtain ⟨p, q, ⟨d, hd, -⟩, ⟨e, he, -⟩, -⟩ := TypeScript.addDecimal_denotes h
  simp only [addDecimal, hd, he, bind, Except.bind, pure, Except.pure, Except.ok.injEq] at h
  simp [← h, decimalAdd, parseDecimal_of_ok hd, parseDecimal_of_ok he, bind,
    Except.bind, pure, Except.pure]

theorem decimalMultiply_of_ok {v product : String} {n : ℤ}
    (h : multiplyDecimal v n = .ok product) : decimalMultiply v n = .ok product := by
  unfold multiplyDecimal at h
  cases hv : TypeScript.parseDecimal v with
  | error e => simp [hv, bind, Except.bind] at h
  | ok d =>
    simp only [hv, bind, Except.bind, TypeScript.toBigInt, Rat.den_intCast, if_true,
      Rat.num_intCast, pure, Except.pure, Except.ok.injEq] at h
    simp [decimalMultiply, parseDecimal_of_ok hv, bind, Except.bind, pure, Except.pure, h]

/-! ### Points -/

/-- A text has no point, one, or more. -/
theorem splitOn_dot_cases (cs : List Char) :
    ('.' ∉ cs ∧ cs.splitOn '.' = [cs]) ∨
    (∃ whole fraction, '.' ∉ whole ∧ '.' ∉ fraction ∧ cs = whole ++ '.' :: fraction ∧
      cs.splitOn '.' = [whole, fraction]) ∨
    ∃ whole rest f g parts, '.' ∉ whole ∧ '.' ∈ rest ∧ cs = whole ++ '.' :: rest ∧
      cs.splitOn '.' = whole :: f :: g :: parts := by
  by_cases hdot : '.' ∈ cs
  · obtain ⟨whole, rest, rfl, hwhole⟩ := List.eq_append_cons_of_mem hdot
    have hsplit : (whole ++ '.' :: rest).splitOn '.' = whole :: rest.splitOn '.' :=
      List.splitOn_append_cons_self_of_not_mem hwhole rest
    by_cases hmore : '.' ∈ rest
    · obtain ⟨f, g, rfl, hf⟩ := List.eq_append_cons_of_mem hmore
      rw [List.splitOn_append_cons_self_of_not_mem hf g] at hsplit
      obtain ⟨p, parts, hparts⟩ := List.exists_cons_of_ne_nil (List.splitOn_ne_nil '.' g)
      exact .inr (.inr ⟨whole, _, f, p, parts, hwhole, hmore, rfl, by rw [hsplit, hparts]⟩)
    · rw [List.splitOn_eq_singleton hmore] at hsplit
      exact .inr (.inl ⟨whole, rest, hwhole, hmore, rfl, hsplit⟩)
  · exact .inl ⟨hdot, List.splitOn_eq_singleton hdot⟩

theorem decimalValid_iff {v : String} : decimalValid v = true ↔
    v.toList.head? ≠ some '.' ∧ v.toList.getLast? ≠ some '.' ∧ v.toList ≠ [] ∧
      ∀ c ∈ v.toList, c = '.' ∨ c.isDigit = true := by
  simp only [decimalValid, Bool.and_eq_true, bne_iff_ne, List.all_eq_true, Bool.or_eq_true,
    beq_iff_eq, ne_eq, String.toList_eq_nil_iff]
  constructor
  · rintro ⟨⟨⟨hne, hhead⟩, hlast⟩, hall⟩
    exact ⟨hhead, hlast, hne, hall⟩
  · rintro ⟨hhead, hlast, hne, hall⟩
    exact ⟨⟨⟨hne, hhead⟩, hlast⟩, hall⟩

/-- Digits without a point are a fraction part. -/
theorem isFraction_of_notMem {cs : List Char} (hne : cs ≠ []) (hdot : '.' ∉ cs)
    (h : ∀ c ∈ cs, c = '.' ∨ c.isDigit = true) : IsFraction cs = true := by
  simp only [IsFraction, Bool.and_eq_true, Bool.not_eq_true', List.isEmpty_eq_false_iff,
    List.all_eq_true]
  refine ⟨hne, fun c hc => (h c hc).resolve_left ?_⟩
  rintro rfl
  exact hdot hc

/-- What passes `decimalValid` is read: the part before the first point is not empty, and
neither is the fraction when there is only one point. -/
theorem parses_of_decimalValid {v : String} (h : decimalValid v = true) : Parses v := by
  obtain ⟨hhead, hlast, hne, hall⟩ := decimalValid_iff.mp h
  rcases splitOn_dot_cases v.toList with ⟨hdot, hsplit⟩ | ⟨whole, fraction, hw, hf, hv, hsplit⟩ |
    ⟨whole, rest, f, g, parts, hw, -, hv, hsplit⟩
  · have hdigits := setString_of_isFraction (isFraction_of_notMem hne hdot hall)
    have hparse : parseDecimal v = .ok ⟨Nat.ofDigitChars 10 v.toList 0, 0⟩ := by
      simp [parseDecimal, hsplit, hdigits]
    exact ⟨_, _, hparse, rfl⟩
  · rw [hv] at hhead hlast hall
    have hwhole : whole ≠ [] := by
      rintro rfl
      simp at hhead
    have hfraction : fraction ≠ [] := by
      rintro rfl
      simp at hlast
    have hdigits := isFraction_append
      (isFraction_of_notMem hwhole hw fun c hc => hall c (by simp [hc]))
      (isFraction_of_notMem hfraction hf fun c hc => hall c (by simp [hc]))
    have hparse : parseDecimal v
        = .ok ⟨Nat.ofDigitChars 10 (whole ++ fraction) 0, fraction.length⟩ := by
      simp [parseDecimal, hsplit, setString_of_isFraction hdigits]
    exact ⟨_, _, hparse, rfl⟩
  · rw [hv] at hhead hall
    have hwhole : whole ≠ [] := by
      rintro rfl
      simp at hhead
    have hdigits := isFraction_of_notMem hwhole hw fun c hc => hall c (by simp [hc])
    have hparse : parseDecimal v = .ok ⟨Nat.ofDigitChars 10 whole 0, 0⟩ := by
      simp [parseDecimal, hsplit, setString_of_isFraction hdigits]
    exact ⟨_, _, hparse, rfl⟩

/-- A text of the grammar passes `decimalValid`. -/
theorem decimalValid_of_isDecimal {v : String} (h : isDecimal v = true) :
    decimalValid v = true := by
  have hdot : ∀ {c : Char}, c.isDigit = true → c ≠ '.' := ne_dot_of_isDigit
  unfold isDecimal at h
  rcases splitOn_dot_cases v.toList with ⟨_, hsplit⟩ | ⟨whole, fraction, _, _, hv, hsplit⟩ |
    ⟨_, _, _, _, _, _, _, _, hsplit⟩
  · simp only [hsplit] at h
    have hdigits := isDigit_of_isWhole h
    refine decimalValid_iff.mpr ⟨fun hc => ?_, fun hc => ?_, ?_, fun c hc => .inr (hdigits c hc)⟩
    · exact hdot (hdigits _ (List.mem_of_mem_head? hc)) rfl
    · exact hdot (hdigits _ (List.mem_of_getLast? hc)) rfl
    · intro hnil
      rw [hnil] at h
      cases h
  · simp only [hsplit, Bool.and_eq_true] at h
    have hwhole := isDigit_of_isWhole h.1
    have hfraction := isDigit_of_isFraction h.2
    obtain ⟨w, ws, rfl⟩ : ∃ w ws, whole = w :: ws := List.exists_cons_of_ne_nil fun hnil => by
      rw [hnil] at h
      cases h.1
    obtain ⟨fs, f, rfl⟩ : ∃ fs f, fraction = fs ++ [f] := by
      refine (List.eq_nil_or_concat' fraction).resolve_left fun hnil => ?_
      rw [hnil] at h
      cases h.2
    have hlast : v.toList.getLast? = some f := by
      rw [hv, ← List.cons_append, ← List.append_assoc, List.getLast?_concat]
    refine decimalValid_iff.mpr ⟨?_, ?_, ?_, ?_⟩
    · rw [hv]
      simpa using hdot (hwhole w (by simp))
    · rw [hlast]
      simpa using hdot (hfraction f (by simp))
    · rw [hv]
      simp
    · intro c hc
      rw [hv] at hc
      rcases List.mem_append.mp hc with hc | hc
      · exact .inr (hwhole c hc)
      · exact (List.mem_cons.mp hc).imp_right (hfraction c)
  · simp only [hsplit] at h
    cases h

/-! ### Number literals -/

/-- No numeral has a letter. -/
theorem setString_eq_none_of_letter {cs : List Char} (h : 'e' ∈ cs ∨ 'E' ∈ cs) :
    setString cs = none := by
  cases hset : setString cs with
  | none => rfl
  | some n =>
    rcases h with he | he
    · exact absurd (mem_of_setString hset _ he) (by decide)
    · exact absurd (mem_of_setString hset _ he) (by decide)

/-- A text with an exponent is not read: the letter is in the part before the point or in the
fraction. -/
theorem not_parses_of_hasExponent {v : String} (h : HasExponent v.toList) : ¬ Parses v := by
  obtain ⟨hletter, hcount⟩ := h
  rw [← parseDecimal_eq_panic]
  rcases splitOn_dot_cases v.toList with ⟨_, hsplit⟩ | ⟨whole, fraction, _, _, hv, hsplit⟩ |
    ⟨whole, rest, f, g, parts, hw, hmore, hv, _⟩
  · simp [parseDecimal, hsplit, setString_eq_none_of_letter hletter]
  · have hmem : 'e' ∈ whole ++ fraction ∨ 'E' ∈ whole ++ fraction := by
      rw [hv] at hletter
      simpa using hletter
    simp [parseDecimal, hsplit, setString_eq_none_of_letter hmem]
  · have hpos := List.count_pos_iff.mpr hmore
    rw [hv, List.count_append, List.count_cons_self] at hcount
    omega

/-- A whole part after an optional minus sign has no point. -/
theorem dot_notMem_minus {whole : List Char} (h : IsWhole whole = true) : '.' ∉ '-' :: whole := by
  have hwhole := dot_notMem_of_isDigit (isDigit_of_isWhole h)
  simpa using hwhole

theorem value_neg (n scale : ℕ) :
    (⟨-n, scale⟩ : FixedPoint).value = -(⟨n, scale⟩ : FixedPoint).value := by
  simp [FixedPoint.value, neg_div]

/-- A decimal literal is read as its value. -/
theorem value_of_reads_literal {n : Literal} {q : ℚ} (h : Reads n.text q) : q = n.value := by
  obtain ⟨d, hd, rfl⟩ := h
  simp only [parseDecimal] at hd
  rcases n.plain_or_exponent with ⟨whole, hw, hplain⟩ | ⟨whole, fraction, hw, hf, hplain⟩ | hexp
  · have hdigits := isFraction_of_isWhole hw
    rcases hplain with ⟨htext, hvalue⟩ | ⟨htext, hvalue⟩
    · have hdot := dot_notMem_of_isDigit (isDigit_of_isWhole hw)
      rw [htext, List.splitOn_eq_singleton hdot] at hd
      simp only [List.headD_cons, List.append_nil, setString_of_isFraction hdigits,
        Except.ok.injEq] at hd
      rw [hvalue, ← hd]
      simp [FixedPoint.value]
    · rw [htext, List.splitOn_eq_singleton (dot_notMem_minus hw)] at hd
      simp only [List.headD_cons, List.append_nil, setString_minus hdigits,
        Except.ok.injEq] at hd
      rw [hvalue, ← hd]
      simp [FixedPoint.value]
  · have hdigits := isFraction_append (isFraction_of_isWhole hw) hf
    have hfdot := dot_notMem_of_isDigit (isDigit_of_isFraction hf)
    rcases hplain with ⟨htext, hvalue⟩ | ⟨htext, hvalue⟩
    · have hdot := dot_notMem_of_isDigit (isDigit_of_isWhole hw)
      rw [htext, List.splitOn_append_cons_self_of_not_mem hdot,
        List.splitOn_eq_singleton hfdot] at hd
      simp only [List.headD_cons, setString_of_isFraction hdigits, Except.ok.injEq] at hd
      rw [hvalue, ← hd]
    · rw [htext, ← List.cons_append,
        List.splitOn_append_cons_self_of_not_mem (dot_notMem_minus hw),
        List.splitOn_eq_singleton hfdot] at hd
      simp only [List.headD_cons, List.cons_append, setString_minus hdigits,
        Except.ok.injEq] at hd
      rw [hvalue, ← hd, value_neg]
  · exact absurd ⟨_, d, by simpa only [parseDecimal] using hd, rfl⟩ (not_parses_of_hasExponent hexp)

/-- Nothing is added to what big rationals make of a literal: its value. -/
def ReadsLiterals (runtime : Runtime) : Prop :=
  ∀ n : Literal, ∀ q, runtime.rat n.text = some q → q = n.value

/-- A decimal is read as by the parser. -/
theorem ratSetString_eq_some {runtime : Runtime} {v : String} {q : ℚ}
    (h : ratSetString runtime v = some q) : Reads v q ∨ runtime.rat v = some q := by
  unfold ratSetString at h
  rcases splitOn_dot_cases v.toList with ⟨_, hsplit⟩ | ⟨whole, fraction, _, _, _, hsplit⟩ |
    ⟨whole, rest, f, g, parts, _, _, _, hsplit⟩
  · simp only [hsplit] at h
    cases hset : setString v.toList with
    | none => exact .inr (by simpa [hset] using h)
    | some n =>
      have hparse : parseDecimal v = .ok ⟨n, 0⟩ := by simp [parseDecimal, hsplit, hset]
      simp only [hset, Option.map_some, Nat.zero_le, or_true, if_true, Option.some.injEq] at h
      exact .inl ⟨_, hparse, h⟩
  · simp only [hsplit] at h
    by_cases hf : IsFraction fraction = true
    · cases hset : setString (whole ++ fraction) with
      | none => exact .inr (by simpa [hset, hf] using h)
      | some n =>
        have hparse : parseDecimal v = .ok ⟨n, fraction.length⟩ := by
          simp [parseDecimal, hsplit, hset]
        simp only [hset, hf, if_true, Option.map_some] at h
        split at h
        · exact .inl ⟨_, hparse, Option.some.inj h⟩
        · cases h
    · exact .inr (by simpa [hf] using h)
  · exact .inr (by simpa [hsplit] using h)

theorem value_of_ratSetString {runtime : Runtime} (hruntime : ReadsLiterals runtime) {n : Literal}
    {q : ℚ} (h : ratSetString runtime n.text = some q) : q = n.value :=
  (ratSetString_eq_some h).elim value_of_reads_literal (hruntime n q)

end Oati.Go

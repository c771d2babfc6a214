import Oati.Go.Requests

/-!
# What the two SDKs read in one value

On ordinary values the Go helpers (`str`, `integer`, `sprint`, …) find what the TypeScript
operators find: texts and flags as they are, small integers as themselves, whole seconds as the
same instant. Comparing what two values print is strict equality, and sorting by code points is
sorting by code units.

`narrow_eq`: narrowing with bounds of the same types is what `narrowerObject` finds, provided that
the child has the members of the bounds (`owns`).
-/

namespace Oati.Go

open JsonText (Literal)
open Numeral
open TypeScript (Engine isDecimal literalNumber strictEq Denotes compareDecimal)

variable {engine : Engine} {runtime : Runtime}

/-! ### Texts -/

theorem toTypeScript_str (s : String) : toTypeScript engine (.str s) = .str s := by
  simp [toTypeScript, Json.map]

theorem toTypeScript_bool (b : Bool) : toTypeScript engine (.bool b) = .bool b := by
  simp [toTypeScript, Json.map]

theorem toTypeScript_obj (o : Object) :
    toTypeScript engine (.obj o) = .obj (toRecord engine o) := by
  simp [toTypeScript, toRecord, Json.map]

theorem toTypeScript_texts (xs : List String) :
    toTypeScript engine (texts xs) = .arr (xs.map .str) := by
  simp [toTypeScript, texts, Json.map, Json.mapItems_eq_map]

@[simp] theorem str_str (s : String) : str (some (.str s)) = s := rfl

@[simp] theorem str_map (s : Option String) : str (s.map .str) = s.getD "" := by
  cases s <;> rfl

@[simp] theorem boolean_map (b : Option Bool) : boolean (b.map .bool) = b.getD false := by
  cases b <;> rfl

@[simp] theorem stringsFrom_texts (xs : List String) : stringsFrom (some (texts xs)) = xs := by
  simp [stringsFrom, texts, List.filterMap_map, Function.comp_def, Json.string?]

@[simp] theorem stringsFrom_map (xs : Option (List String)) :
    stringsFrom (xs.map texts) = xs.getD [] := by
  cases xs with
  | none => rfl
  | some xs => exact stringsFrom_texts xs

/-- The strings of a list are the same in both programs. -/
theorem stringArray_toTypeScript (v : Option Value) :
    TypeScript.stringArray (v.map (toTypeScript engine)) = stringsFrom v := by
  have hstring : ∀ w : Value, (toTypeScript engine w).string? = w.string? := by
    intro w
    cases w <;> simp [toTypeScript, Json.map, Json.string?]
  cases v with
  | none => rfl
  | some w =>
    cases w with
    | arr items =>
      simp only [Option.map_some, toTypeScript, Json.map, Json.mapItems_eq_map,
        TypeScript.stringArray, stringsFrom, List.filterMap_map, Function.comp_def]
      exact List.filterMap_congr fun w _ => hstring w
    | _ => simp [toTypeScript, Json.map, TypeScript.stringArray, stringsFrom]

/-- The texts of an ordinary object. -/
theorem Ordinary.lookup_str {o : Object} (h : Ordinary (.obj o)) {key s : String}
    (hs : o.lookup key = some (.str s)) : OrdinaryText s := (h.lookup hs).text

theorem Ordinary.lookup_map {o : Object} (h : Ordinary (.obj o)) {key : String}
    {s : Option String} (hs : o.lookup key = s.map .str) : ∀ t, s = some t → OrdinaryText t := by
  rintro t rfl
  exact h.lookup_str hs

theorem Ordinary.lookup_texts {o : Object} (h : Ordinary (.obj o)) {key : String}
    {xs : List String} (hxs : o.lookup key = some (texts xs)) : ∀ s ∈ xs, OrdinaryText s :=
  fun s hs => ((h.lookup hxs).item (List.mem_map.mpr ⟨s, hs, rfl⟩)).text

/-! ### Integers -/

/-- An integer literal has no fraction and no exponent. -/
theorem whole_of_setString {n : Literal} {k : ℤ} (h : setString n.text.toList = some k) :
    ∃ whole, IsWhole whole = true ∧
      (n.text.toList = whole ∧ k = Nat.ofDigitChars 10 whole 0 ∨
        n.text.toList = '-' :: whole ∧ k = -(Nat.ofDigitChars 10 whole 0 : ℤ)) := by
  have hdot : '.' ∉ n.text.toList := fun hmem => absurd (mem_of_setString h _ hmem) (by decide)
  rcases n.plain_or_exponent with ⟨whole, hw, ⟨htext, -⟩ | ⟨htext, -⟩⟩ |
    ⟨whole, fraction, hw, hf, ⟨htext, -⟩ | ⟨htext, -⟩⟩ | hexp
  · have hset := setString_of_isFraction (isFraction_of_isWhole hw)
    rw [htext, hset] at h
    exact ⟨whole, hw, .inl ⟨htext, (Option.some.inj h).symm⟩⟩
  · have hset := setString_minus (isFraction_of_isWhole hw)
    rw [htext, hset] at h
    exact ⟨whole, hw, .inr ⟨htext, (Option.some.inj h).symm⟩⟩
  · exact absurd (by simp [htext]) hdot
  · exact absurd (by simp [htext]) hdot
  · rw [setString_eq_none_of_letter hexp.1] at h
    cases h

/-- Only zero has two integer literals. -/
theorem text_eq_of_setString {m n : Literal} {k : ℤ} (hm : setString m.text.toList = some k)
    (hn : setString n.text.toList = some k) (hk : k ≠ 0) : m.text = n.text := by
  obtain ⟨v, hv, hmk⟩ := whole_of_setString hm
  obtain ⟨w, hw, hnk⟩ := whole_of_setString hn
  have hvalue : Nat.ofDigitChars 10 v 0 = Nat.ofDigitChars 10 w 0 → v = w := by
    intro heq
    rw [← toDigits_ofDigitChars hv, heq, toDigits_ofDigitChars hw]
  rcases hmk with ⟨hm, hmk⟩ | ⟨hm, hmk⟩ <;> rcases hnk with ⟨hn, hnk⟩ | ⟨hn, hnk⟩
  · rw [← String.toList_inj, hm, hn, hvalue (by omega)]
  · omega
  · omega
  · rw [← String.toList_inj, hm, hn, hvalue (by omega)]

section Integers

variable {v : Value} {k : ℤ}

/-- An ordinary integer is small. -/
theorem IsInteger.natAbs_le (h : IsInteger v k) (hv : Ordinary v) : k.natAbs ≤ 2 ^ 52 := by
  obtain ⟨n, rfl, hk⟩ := h
  obtain ⟨l, hl, hle⟩ := hv.smallInteger
  rw [hk] at hl
  cases hl
  exact hle

theorem IsInteger.integer (h : IsInteger v k) (hv : Ordinary v) : Go.integer (some v) = k := by
  have hle := h.natAbs_le hv
  obtain ⟨n, rfl, hk⟩ := h
  simp only [Go.integer, hk, Option.map_some, Option.getD_some, maxInt]
  omega

theorem IsInteger.toTypeScript (hengine : ReadsIntegers engine) (h : IsInteger v k)
    (hv : Ordinary v) : toTypeScript engine v = .num (k : ℚ) := by
  have hle := h.natAbs_le hv
  obtain ⟨n, rfl, hk⟩ := h
  simp [Go.toTypeScript, Json.map, hengine n k hk hle]

end Integers

/-- Sums of small integers do not wrap. -/
theorem wrap_of_natAbs_le {n : ℤ} (h : n.natAbs ≤ 2 ^ 53) : wrap n = n := by
  unfold wrap
  exact Int.bmod_eq_of_le (by omega) (by omega)

/-! ### What is printed -/

/-- A text is printed as it is, and a missing value as a text that is not ordinary. -/
theorem sprintOption_eq_iff {v w : Option Value} (hv : IsText v) (hw : IsText w)
    (hvo : ∀ x, v = some x → Ordinary x) (hwo : ∀ x, w = some x → Ordinary x) :
    (sprintOption v == sprintOption w)
      = strictEq (v.map (toTypeScript engine)) (w.map (toTypeScript engine)) := by
  rcases v with _ | v <;> rcases w with _ | w
  · simp [strictEq]
  · obtain ⟨s, rfl⟩ := hw w rfl
    have hnil := (hwo _ rfl).text.notNil
    simpa [sprintOption, sprint, strictEq, toTypeScript_str] using hnil.symm
  · obtain ⟨s, rfl⟩ := hv v rfl
    have hnil := (hvo _ rfl).text.notNil
    simpa [sprintOption, sprint, strictEq, toTypeScript_str] using hnil
  · obtain ⟨s, rfl⟩ := hv v rfl
    obtain ⟨t, rfl⟩ := hw w rfl
    simp [sprintOption, sprint, strictEq, toTypeScript_str]

/-- A number is printed as its literal. -/
theorem sprint_eq_iff_of_integer (hengine : ReadsIntegers engine) {v w : Value} {k l : ℤ}
    (hv : IsInteger v k) (hw : IsInteger w l) (hvo : Ordinary v) (hwo : Ordinary w) (hl : l ≠ 0) :
    (sprint v == sprint w)
      = strictEq (some (toTypeScript engine v)) (some (toTypeScript engine w)) := by
  rw [hv.toTypeScript hengine hvo, hw.toTypeScript hengine hwo]
  obtain ⟨m, rfl, hm⟩ := hv
  obtain ⟨n, rfl, hn⟩ := hw
  have htext : m.text = n.text ↔ k = l := by
    constructor
    · intro h
      rw [h, hn] at hm
      exact (Option.some.inj hm).symm
    · rintro rfl
      exact text_eq_of_setString hm hn hl
  rw [Bool.eq_iff_iff]
  simp [sprint, strictEq, htext]

/-! ### Times -/

/-- Both programs read a whole second as the same instant. -/
theorem WholeSecond.reads {s : String} (h : WholeSecond s) (engine : Engine) (runtime : Runtime) :
    ∃ t : ℤ, TypeScript.timestamp engine s = .ok (1000 * t) ∧
      parseTime runtime s = some (1000000000 * t) := by
  obtain ⟨fields, hfields, hfraction⟩ := h
  refine ⟨fields.seconds, ?_, ?_⟩
  · rcases hfraction with hnil | hzero
    · simp [TypeScript.timestamp, TypeScript.dateParse, hfields, hnil]
    · have hdigits : Nat.ofDigitChars 10 ['0', '0', '0'] 0 = 0 := by decide
      simp [TypeScript.timestamp, TypeScript.dateParse, hfields, hzero, hdigits]
  · rcases hfraction with hnil | hzero
    · have hdigits : Nat.ofDigitChars 10 (([] ++ List.replicate 9 '0').take 9) 0 = 0 := by decide
      simp only [parseTime, hfields, hnil, hdigits]
      simp
    · have hdigits : Nat.ofDigitChars 10
          ((['0', '0', '0'] ++ List.replicate 9 '0').take 9) 0 = 0 := by decide
      simp only [parseTime, hfields, hzero, hdigits]
      simp

/-! ### Sorting -/

/-- A character of the basic plane is one code unit. -/
theorem utf16_eq_codePoints {s : String} (h : ∀ c ∈ s.toList, c.toNat < 0x10000) :
    TypeScript.utf16 s = codePoints s := by
  unfold TypeScript.utf16 codePoints
  rw [← List.flatMap_singleton' (s.toList.map Char.toNat), List.flatMap_map]
  refine List.flatMap_congr fun c hc => ?_
  rw [if_pos (h c hc)]

theorem sortStrings_eq {xs : List String} (h : ∀ s ∈ xs, ∀ c ∈ s.toList, c.toNat < 0x10000) :
    sortStrings xs = TypeScript.sortStrings xs := by
  have hid := List.map_insertionSort (r := fun a b : String => codePoints a ≤ codePoints b)
    (s := fun a b : String => TypeScript.utf16 a ≤ TypeScript.utf16 b) id xs
    (fun a ha b hb => by
      rw [id, id, utf16_eq_codePoints (h a ha), utf16_eq_codePoints (h b hb)])
  simpa [sortStrings, TypeScript.sortStrings] using hid

/-! ### Bounds -/

mutual

/-- The value has the members of the other one, at every depth. -/
def owns (child : TypeScript.Value) : TypeScript.Value → Bool
  | .null => true
  | .bool _ => true
  | .num _ => true
  | .str _ => true
  | .arr _ => true
  | .obj members =>
    match child with
    | .obj c => ownsMembers c members
    | _ => false
termination_by structural v => v

/-- The record has members of the names of the others, which have theirs. -/
def ownsMembers (child : TypeScript.Record) : List (String × TypeScript.Value) → Bool
  | [] => true
  | (key, v) :: rest => (child.lookup key).any (fun x => owns x v) && ownsMembers child rest
termination_by structural members => members

end

/-- The child has every member of the parent as its own. -/
def ownsBounds (child parent : Option TypeScript.Record) : Bool :=
  match parent with
  | none => true
  | some p => child.any fun c => ownsMembers c p

/-- A decimal of the grammar exceeds another one in both programs. -/
theorem exceeds_of_compareDecimal {a b : String} {c : ℤ} (h : compareDecimal a b = .ok c) :
    exceeds a b = .ok (decide (c > 0)) := by
  simp [exceeds, decimalCompare_of_ok h, bind, Except.bind, pure, Except.pure]

theorem exists_compareDecimal {a b : String} (ha : isDecimal a = true) (hb : isDecimal b = true) :
    ∃ c, compareDecimal a b = .ok c := by
  obtain ⟨p, hp, -⟩ := TypeScript.exists_denotes ha
  obtain ⟨q, hq, -⟩ := TypeScript.exists_denotes hb
  exact ⟨_, TypeScript.compareDecimal_eq_ok.mpr ⟨p, q, hp, hq, rfl⟩⟩

/-- A text with another character than digits and points is no decimal in either program. -/
theorem not_decimal_of_other {t : String} (h : ∃ c ∈ t.toList, c ≠ '.' ∧ c.isDigit = false) :
    decimalValid t = false ∧ isDecimal t = false := by
  obtain ⟨c, hc, hdot, hdigit⟩ := h
  have hvalid : ¬ decimalValid t = true := by
    intro hvalid
    rcases (decimalValid_iff.mp hvalid).2.2.2 c hc with rfl | hd
    · exact hdot rfl
    · rw [hdigit] at hd
      cases hd
  exact ⟨by simpa using hvalid, by
    simpa using fun hdecimal => hvalid (decimalValid_of_isDecimal hdecimal)⟩

section Narrow

/-- A number within a number. -/
theorem number_eq (hengine : ReadsIntegers engine) {x t : Literal} (hx : SmallInteger x)
    (ht : SmallInteger t) : sdkComparison.number (.num x) t
      = .ok (decide (literalNumber engine x.text ≤ literalNumber engine t.text)) := by
  obtain ⟨k, hk, hkle⟩ := hx
  obtain ⟨l, hl, hlle⟩ := ht
  have hexceeds : exceeds x.text t.text = .ok (decide ((l : ℚ) < k)) :=
    exceeds_eq_ok.mpr ⟨k, l, reads_of_setString hk, reads_of_setString hl, rfl⟩
  rw [hengine x k hk hkle, hengine t l hl hlle]
  simp only [sdkComparison, sprint, hexceeds, Functor.map, Except.map, Except.ok.injEq]
  rw [← decide_not, decide_eq_decide, not_lt]

/-- A text within a text. -/
theorem text_eq {s t : String} (h : SameText s t) : sdkComparison.text (.str s) t
    = .ok (TypeScript.narrowerValue (some (.str s)) (.str t)) := by
  rcases h with ⟨hs, ht⟩ | ⟨hs, ht⟩
  · obtain ⟨c, hc⟩ := exists_compareDecimal hs ht
    simp only [sdkComparison, decimalValid_of_isDecimal ht, if_true, str,
      exceeds_of_compareDecimal hc, Functor.map, Except.map, TypeScript.narrowerValue, ht,
      TypeScript.narrowerDecimal, hs, hc, Bool.true_and]
    rw [← decide_not, Except.ok.injEq, decide_eq_decide, not_lt]
  · obtain ⟨hvalid, hdecimal⟩ := not_decimal_of_other ht
    simp [sdkComparison, hvalid, str, TypeScript.narrowerValue, hdecimal, strictEq]

/-- Narrowing in Go is narrowing in TypeScript on the members that the child has itself. -/
theorem narrowEntry_eq (hengine : ReadsIntegers engine) {x v : Value} (h : Alike x v)
    (hx : Ordinary x) (hv : Ordinary v) : narrowEntry sdkComparison x v
      = .ok (TypeScript.narrowerValue (some (toTypeScript engine x)) (toTypeScript engine v)
          && owns (toTypeScript engine x) (toTypeScript engine v)) := by
  induction v using Json.induction generalizing x with
  | null =>
    obtain rfl : x = .null := h
    simp [narrowEntry, toTypeScript, Json.map, TypeScript.narrowerValue, strictEq, owns, sprint]
  | bool b =>
    obtain ⟨a, rfl⟩ := h
    rw [toTypeScript_bool, toTypeScript_bool]
    cases a <;> cases b <;> decide
  | num t =>
    obtain ⟨n, rfl⟩ := h
    have hnumber := @number_eq engine hengine n t hx.smallInteger hv.smallInteger
    simpa [narrowEntry, toTypeScript, Json.map, TypeScript.narrowerValue, owns] using hnumber
  | str t =>
    obtain ⟨s, rfl, hsame⟩ := h
    rw [toTypeScript_str, toTypeScript_str, narrowEntry, text_eq hsame, owns, Bool.and_true]
  | arr items _ =>
    obtain ⟨⟨xs, rfl⟩, ts, rfl⟩ := h
    have hitems : toTypeScript engine (.arr (ts.map .str)) = .arr (ts.map .str) :=
      toTypeScript_texts ts
    have hincludes : ∀ s, TypeScript.includes (ts.map .str) (.str s) = ts.contains s := by
      intro s
      rw [Bool.eq_iff_iff]
      simp [TypeScript.includes, strictEq]
    rw [hitems, toTypeScript_texts, narrowEntry, stringsFrom_texts]
    have hstrings : stringsFrom (some (Json.arr (ts.map Json.str))) = ts := stringsFrom_texts ts
    rw [hstrings]
    simp only [TypeScript.narrowerValue, owns, subset, List.all_map, Function.comp_def, hincludes,
      Bool.and_true]
  | obj members ih =>
    obtain ⟨c, rfl, hc⟩ := h
    have hmembers : narrowEntries sdkComparison c members
        = .ok (TypeScript.narrowerMembers (toRecord engine c) (toRecord engine members)
            && ownsMembers (toRecord engine c) (toRecord engine members)) := by
      have hall : ∀ m ∈ members, Ordinary m.2 := fun m hm =>
        ⟨fun n hn => hv.numbers n (Json.mem_memberNumbers.mpr ⟨m, hm, hn⟩),
          fun s hs => hv.strings s (Json.mem_memberStrings.mpr ⟨m, hm, hs⟩)⟩
      clear hv
      induction members with
      | nil => rfl
      | cons entry rest ihrest =>
        obtain ⟨hentry, hrest⟩ := List.forall_mem_cons.mp ih
        obtain ⟨hordinary, hrestOrdinary⟩ := List.forall_mem_cons.mp hall
        obtain ⟨k, v⟩ := entry
        obtain ⟨halike, hrestAlike⟩ := hc
        have hloop := ihrest hrest hrestAlike hrestOrdinary
        simp only [toRecord] at hloop
        simp only [toRecord, Json.mapMembers, TypeScript.narrowerMembers, ownsMembers,
          narrowEntries, Json.lookup_mapMembers, TypeScript.property]
        cases hlookup : c.lookup k with
        | none => simp
        | some x =>
          -- the child has the member, and the rest of the loop decides if it is within
          have hone := hentry (halike x hlookup) (hx.lookup hlookup) hordinary
          simp only [toTypeScript] at hone
          simp only [hone, hloop, Option.map_some, Option.any_some, bind, Except.bind, pure,
            Except.pure]
          cases TypeScript.narrowerValue (some (Json.map _ x)) (Json.map _ v) <;>
            cases owns (Json.map _ x) (Json.map _ v) <;> simp
    simpa [narrowEntry, toTypeScript_obj, TypeScript.narrowerValue, owns] using hmembers

end Narrow

end Oati.Go

import Oati.Go.Decimal
import Oati.TypeScript.Narrowing

/-!
# Narrowing in the Go programs

`narrow` of the SDK and `narrowerObject` of the CLI run the same loop over the entries of the
parent and differ in how they compare a number and a string. A child's entry of another type is
converted rather than refused: a list counts as its strings, and a string, a number, a boolean or
null is what `fmt.Sprint` prints.

* `narrowWith`, the loop; `Within` describes the entries it accepts, by program.
* `Plain`: the child's entry has the parent's type. On an accepted entry this decides whether the
  TypeScript `narrowerObject` accepts it too (`narrowerValue_iff`).
* `accepted_by_reference_iff`: what either program accepts is accepted by the reference, exactly if
  accepted children are plain.
-/

namespace Oati.Go

open JsonText (Literal)
open TypeScript (Engine isDecimal literalNumber narrowerMembers narrowerValue property includes
  strictEq)

/-! ### The functions -/

/-- How an entry of the child is compared with a number and with a string of the parent. -/
structure Comparison where
  number : Value → Literal → Except Fault Bool
  text : Value → String → Except Fault Bool

mutual

/-- The loop over the entries of the parent. -/
def narrowEntries (comparison : Comparison) (c : Object) :
    List (String × Value) → Except Fault Bool
  | [] => .ok true
  | (k, v) :: rest =>
    match c.lookup k with
    | none => .ok false
    | some x => do
      if ← narrowEntry comparison x v then narrowEntries comparison c rest else return false
termination_by structural entries => entries

/-- The cases of the type switch. -/
def narrowEntry (comparison : Comparison) (x : Value) : Value → Except Fault Bool
  | .num t => comparison.number x t
  | .str t => comparison.text x t
  | .arr items => .ok (subset (stringsFrom (some x)) (stringsFrom (some (.arr items))))
  | .obj members =>
    match x with
    | .obj c => narrowEntries comparison c members
    | _ => .ok false
  | .bool b => .ok (sprint x == sprint (.bool b))
  | .null => .ok (sprint x == sprint .null)
termination_by structural v => v

end

/-- The function around the loop. -/
def narrowWith (comparison : Comparison) (c p : Option Object) : Except Fault Bool :=
  match p, c with
  | none, _ => .ok true
  | some _, none => .ok false
  | some p, some c => narrowEntries comparison c p

/-- `numberCompare(x, t) <= 0`, and the case of a string, in the SDK. -/
def sdkComparison : Comparison where
  number := fun x t => Bool.not <$> exceeds (sprint x) t.text
  text := fun x t =>
    if decimalValid t then Bool.not <$> exceeds (str (some x)) t else .ok (str (some x) == t)

/-- `numberCompare` of the CLI: `1` when one of the texts is no number. -/
def numberCompare (runtime : Runtime) (left : Value) (right : Literal) : ℤ :=
  match ratSetString runtime (numberString (some left)), ratSetString runtime right.text with
  | some a, some b => if a = b then 0 else if a > b then 1 else -1
  | _, _ => 1

/-- `numberCompare(x, t) <= 0`, and the case of a string, in the CLI. -/
def cliComparison (runtime : Runtime) : Comparison where
  number := fun x t => .ok (!decide (numberCompare runtime x t > 0))
  text := fun x t =>
    if isDecimalString runtime t then
      if isDecimalString runtime (numberString (some x)) then
        Bool.not <$> exceeds (numberString (some x)) t
      else .ok false
    else .ok (x.string? == some t)

/-- The two Go programs. -/
inductive Program where
  | sdk
  | cli
  deriving DecidableEq, Repr

def Program.comparison (runtime : Runtime) : Program → Comparison
  | .sdk => sdkComparison
  | .cli => cliComparison runtime

/-- `narrow` of the SDK. -/
def narrow (c p : Option Object) : Except Fault Bool := narrowWith sdkComparison c p

/-- `narrowerObject` of the CLI. -/
def narrowerObject (runtime : Runtime) (child parent : Option Object) : Except Fault Bool :=
  narrowWith (cliComparison runtime) child parent

/-! ### What is accepted -/

section Accepted

variable (runtime : Runtime) (program : Program)

/-- The entries accepted under a number. -/
def NumberWithin (x : Value) (t : Literal) : Prop :=
  match program with
  | .sdk => AtMost (sprint x) t.text
  | .cli => ∃ p q, ratSetString runtime (numberString (some x)) = some p ∧
    ratSetString runtime t.text = some q ∧ p ≤ q

/-- The entries accepted under a string. -/
def TextWithin (x : Value) (t : String) : Prop :=
  match program with
  | .sdk => if decimalValid t then AtMost (str (some x)) t else str (some x) = t
  | .cli => if isDecimalString runtime t then
      isDecimalString runtime (numberString (some x)) = true ∧ AtMost (numberString (some x)) t
    else x = .str t

mutual

/-- The entries that are accepted under one of the parent. -/
def Within (x : Value) : Value → Prop
  | .num t => NumberWithin runtime program x t
  | .str t => TextWithin runtime program x t
  | .arr items => ∀ s ∈ stringsFrom (some x), Json.str s ∈ items
  | .obj members => ∃ c, x = .obj c ∧ WithinMembers c members
  | .bool b => sprint x = sprint (.bool b)
  | .null => sprint x = sprint .null
termination_by structural v => v

/-- The child has an entry within each of the parent's. -/
def WithinMembers (c : Object) : List (String × Value) → Prop
  | [] => True
  | (k, v) :: rest => (∃ x, c.lookup k = some x ∧ Within x v) ∧ WithinMembers c rest
termination_by structural entries => entries

end

end Accepted

variable {runtime : Runtime} {program : Program}

theorem not_exceeds_eq_true {a b : String} :
    (Bool.not <$> exceeds a b : Except Fault Bool) = .ok true ↔ AtMost a b := by
  rw [← exceeds_eq_false]
  rcases exceeds a b with e | _ | _ <;> simp [Functor.map, Except.map]

theorem numberCompare_nonpos {x : Value} {t : Literal} :
    ¬ numberCompare runtime x t > 0 ↔ ∃ p q,
      ratSetString runtime (numberString (some x)) = some p ∧
        ratSetString runtime t.text = some q ∧ p ≤ q := by
  unfold numberCompare
  cases ratSetString runtime (numberString (some x)) with
  | none => simp
  | some p =>
    cases ratSetString runtime t.text with
    | none => simp
    | some q =>
      simp only [Option.some.injEq]
      split_ifs with heq hgt
      · simp [heq]
      · simpa using hgt
      · simpa using hgt

/-- A number is accepted exactly if it is within. -/
theorem number_eq_true {x : Value} {t : Literal} :
    (program.comparison runtime).number x t = .ok true ↔ NumberWithin runtime program x t := by
  cases program with
  | sdk => exact not_exceeds_eq_true
  | cli =>
    have h := @numberCompare_nonpos runtime x t
    simpa [Program.comparison, cliComparison, NumberWithin] using h

theorem text_eq_true {x : Value} {t : String} :
    (program.comparison runtime).text x t = .ok true ↔ TextWithin runtime program x t := by
  cases program with
  | sdk =>
    simp only [Program.comparison, sdkComparison, TextWithin]
    split_ifs
    · exact not_exceeds_eq_true
    · simp
  | cli =>
    simp only [Program.comparison, cliComparison, TextWithin]
    split_ifs with ht hx
    · rw [not_exceeds_eq_true]
      simp [hx]
    · simp [hx]
    · simp

theorem mem_stringsFrom {v : Value} {s : String} :
    s ∈ stringsFrom (some v) ↔ ∃ items, v = .arr items ∧ Json.str s ∈ items := by
  cases v <;> simp [stringsFrom, List.mem_filterMap]

theorem narrowEntries_cons {comparison : Comparison} {c : Object} {k : String} {v : Value}
    {rest : List (String × Value)} :
    narrowEntries comparison c ((k, v) :: rest) = .ok true ↔
      (∃ x, c.lookup k = some x ∧ narrowEntry comparison x v = .ok true) ∧
        narrowEntries comparison c rest = .ok true := by
  cases hlookup : c.lookup k with
  | none => simp [narrowEntries, hlookup]
  | some x =>
    simp only [narrowEntries, hlookup, Option.some.injEq, exists_eq_left']
    rcases narrowEntry comparison x v with e | _ | _ <;>
      simp [bind, Except.bind, pure, Except.pure]

/-- An entry is accepted exactly if it is within the parent's. -/
theorem narrowEntry_eq_true {x v : Value} :
    narrowEntry (program.comparison runtime) x v = .ok true ↔ Within runtime program x v := by
  induction v using Json.induction generalizing x with
  | null => simp [narrowEntry, Within]
  | bool b => simp [narrowEntry, Within]
  | num t => exact number_eq_true
  | str t => exact text_eq_true
  | arr items _ =>
    have hitems : ∀ s, s ∈ stringsFrom (some (.arr items)) ↔ Json.str s ∈ items := by
      simp [mem_stringsFrom]
    simp [narrowEntry, Within, subset, hitems]
  | obj members ih =>
    have hmembers : ∀ c, narrowEntries (program.comparison runtime) c members = .ok true ↔
        WithinMembers runtime program c members := by
      intro c
      induction members with
      | nil => simp [narrowEntries, WithinMembers]
      | cons entry rest ihrest =>
        obtain ⟨hentry, hrest⟩ := List.forall_mem_cons.mp ih
        rw [narrowEntries_cons, WithinMembers, ihrest hrest]
        simp only [hentry]
    cases x <;> simp [narrowEntry, Within, hmembers]

theorem narrowEntries_eq_true {c : Object} {entries : List (String × Value)} :
    narrowEntries (program.comparison runtime) c entries = .ok true ↔
      WithinMembers runtime program c entries := by
  have h := @narrowEntry_eq_true runtime program (.obj c) (.obj entries)
  simpa [narrowEntry, Within] using h

/-! ### The same values in TypeScript -/

/-- The JSON value as `JSON.parse` returns it. -/
def toTypeScript (engine : Engine) (v : Value) : TypeScript.Value :=
  v.map fun n => literalNumber engine n.text

/-- The members of an object as `JSON.parse` returns them. -/
def toRecord (engine : Engine) (members : Object) : TypeScript.Record :=
  Json.mapMembers (fun n => literalNumber engine n.text) members

theorem lookup_toRecord (engine : Engine) (members : Object) (key : String) :
    (toRecord engine members).lookup key = (members.lookup key).map (toTypeScript engine) :=
  Json.lookup_mapMembers _ members key

/-- The number of a literal is its value rounded to a double: it does not decrease. -/
def Rounds (engine : Engine) : Prop :=
  ∀ m n : Literal, m.value ≤ n.value →
    literalNumber engine m.text ≤ literalNumber engine n.text

/-! ### Entries of the parent's type -/

mutual

/-- The child's entry has the parent's type: a number, a decimal string for a decimal string and
the same string for any other, a list whose elements other than strings are all in the parent's,
an object of such entries, the same boolean, null. -/
def Plain (engine : Engine) (x : Value) : Value → Prop
  | .num _ => ∃ m, x = .num m
  | .str t => if isDecimal t then ∃ c, x = .str c ∧ isDecimal c = true else x = .str t
  | .arr items => ∃ xs, x = .arr xs ∧ ∀ e ∈ xs, (∃ s, e = .str s) ∨
    includes (items.map (toTypeScript engine)) (toTypeScript engine e) = true
  | .obj members => ∃ c, x = .obj c ∧ PlainMembers engine c members
  | .bool b => x = .bool b
  | .null => x = .null
termination_by structural v => v

/-- The entries that the child has are of the parent's types. -/
def PlainMembers (engine : Engine) (c : Object) : List (String × Value) → Prop
  | [] => True
  | (k, v) :: rest => (∀ x, c.lookup k = some x → Plain engine x v) ∧ PlainMembers engine c rest
termination_by structural entries => entries

end

variable {engine : Engine}

/-- A decimal string within a decimal string is at most the parent's. -/
theorem decimalAtMost_of_textWithin {c t : String} (hc : isDecimal c = true)
    (ht : isDecimal t = true) (h : TextWithin runtime program (.str c) t) :
    TypeScript.DecimalAtMost (some (.str c)) (some (.str t)) := by
  obtain ⟨p, hp, -⟩ := TypeScript.exists_denotes hc
  obtain ⟨q, hq, -⟩ := TypeScript.exists_denotes ht
  have hle : AtMost c t := by
    cases program with
    | sdk =>
      have hvalid := decimalValid_of_isDecimal ht
      simpa [TextWithin, hvalid, str] using h
    | cli =>
      simp only [TextWithin] at h
      split_ifs at h
      · exact h.2
      · obtain rfl : c = t := by simpa using h
        exact ⟨p, p, reads_of_denotes hp, reads_of_denotes hp, le_rfl⟩
  obtain ⟨p', q', hp', hq', hpq⟩ := hle
  obtain rfl := hp'.unique (reads_of_denotes hp)
  obtain rfl := hq'.unique (reads_of_denotes hq)
  exact ⟨c, t, p', q', rfl, rfl, hp, hq, hpq⟩

/-- A number within a number is at most the parent's, also after rounding. -/
theorem literalNumber_le_of_numberWithin (hrounds : Rounds engine)
    (hruntime : ReadsLiterals runtime) {m t : Literal}
    (h : NumberWithin runtime program (.num m) t) :
    literalNumber engine m.text ≤ literalNumber engine t.text := by
  refine hrounds m t ?_
  cases program with
  | sdk =>
    obtain ⟨p, q, hp, hq, hle⟩ := h
    rwa [value_of_reads_literal hp, value_of_reads_literal hq] at hle
  | cli =>
    obtain ⟨p, q, hp, hq, hle⟩ := h
    rwa [value_of_ratSetString hruntime hp, value_of_ratSetString hruntime hq] at hle

theorem strictEq_toTypeScript_str {x : Value} {t : String} :
    strictEq (some (toTypeScript engine x)) (some (.str t)) = true ↔ x = .str t := by
  cases x <;> simp [toTypeScript, Json.map, strictEq]

/-- The strings of a list within the parent's are included in it. -/
theorem includes_of_within {xs items : List Value} {s : String}
    (h : Within runtime program (.arr xs) (.arr items)) (hs : Json.str s ∈ xs) :
    includes (items.map (toTypeScript engine)) (.str s) = true := by
  have hmem : Json.str s ∈ items := h s (mem_stringsFrom.mpr ⟨xs, rfl, hs⟩)
  refine List.any_eq_true.mpr ⟨.str s, List.mem_map.mpr ⟨_, hmem, rfl⟩, ?_⟩
  simp [strictEq]

/-- The reference accepts an entry that is within the parent's exactly if it is plain. -/
theorem narrowerValue_iff (hrounds : Rounds engine) (hruntime : ReadsLiterals runtime)
    {x v : Value} (h : Within runtime program x v) :
    narrowerValue (some (toTypeScript engine x)) (toTypeScript engine v) = true ↔
      Plain engine x v := by
  induction v using Json.induction generalizing x with
  | null => cases x <;> simp [toTypeScript, Json.map, narrowerValue, strictEq, Plain]
  | bool b => cases x <;> simp [toTypeScript, Json.map, narrowerValue, strictEq, Plain]
  | num t =>
    cases x with
    | num m =>
      have hle := literalNumber_le_of_numberWithin hrounds hruntime h
      simpa [toTypeScript, Json.map, narrowerValue, Plain] using hle
    | _ => simp [toTypeScript, Json.map, narrowerValue, Plain]
  | str t =>
    have hread : toTypeScript engine (.str t) = .str t := by simp [toTypeScript, Json.map]
    rw [hread]
    by_cases ht : isDecimal t = true
    · rw [TypeScript.narrowerValue_decimal ht, Plain, if_pos ht]
      constructor
      · rintro ⟨c, _, _, _, hc, -, hp, -⟩
        have hx : x = .str c := by
          cases x <;> simp_all [toTypeScript, Json.map]
        exact ⟨c, hx, hp.isDecimal⟩
      · rintro ⟨c, rfl, hc⟩
        have hchild : toTypeScript engine (.str c) = .str c := by simp [toTypeScript, Json.map]
        rw [hchild]
        exact decimalAtMost_of_textWithin hc ht h
    · rw [narrowerValue, if_neg ht, Plain, if_neg ht]
      exact strictEq_toTypeScript_str
  | arr items _ =>
    simp only [toTypeScript, Json.map, narrowerValue, Plain, Json.mapItems_eq_map]
    cases x with
    | arr xs =>
      simp only [Json.map, Json.mapItems_eq_map, List.all_map, List.all_eq_true,
        Function.comp_apply, Json.arr.injEq, exists_eq_left']
      refine forall₂_congr fun e he => ⟨.inr, ?_⟩
      rintro (⟨s, rfl⟩ | hincluded)
      · exact @includes_of_within runtime program engine _ _ _ h he
      · exact hincluded
    | _ => simp [Json.map]
  | obj members ih =>
    have hmembers : ∀ c, WithinMembers runtime program c members →
        (narrowerMembers (toRecord engine c) (toRecord engine members) = true ↔
          PlainMembers engine c members) := by
      intro c
      clear h
      induction members with
      | nil => simp [toRecord, Json.mapMembers, narrowerMembers, PlainMembers]
      | cons entry rest ihrest =>
        obtain ⟨hentry, hrest⟩ := List.forall_mem_cons.mp ih
        obtain ⟨k, v⟩ := entry
        rintro ⟨⟨x, hx, hv⟩, hwithin⟩
        have hproperty : property (toRecord engine c) k = some (toTypeScript engine x) := by
          simp [property, lookup_toRecord, hx]
        have hloop := ihrest hrest hwithin
        have hone := hentry hv
        simp only [toRecord, toTypeScript] at hloop hproperty hone
        simp only [toRecord, Json.mapMembers, narrowerMembers, hproperty, Bool.and_eq_true, hloop,
          hone, PlainMembers, hx, Option.some.injEq, forall_eq']
    obtain ⟨c, rfl, hc⟩ := h
    have hiff := hmembers c hc
    simpa [toTypeScript, Json.map, narrowerValue, Plain, toRecord] using hiff

/-- The reference accepts an object that a program accepts exactly if its entries are plain. -/
theorem narrowerMembers_iff (hrounds : Rounds engine) (hruntime : ReadsLiterals runtime)
    {c p : Object} (h : WithinMembers runtime program c p) :
    narrowerMembers (toRecord engine c) (toRecord engine p) = true ↔ PlainMembers engine c p := by
  have hobj : Within runtime program (.obj c) (.obj p) := ⟨c, rfl, h⟩
  have hiff := narrowerValue_iff hrounds hruntime hobj
  simpa [toTypeScript, Json.map, narrowerValue, Plain, toRecord] using hiff

/-! ### Soundness -/

/-- `narrow` of the SDK and `narrowerObject` of the CLI accept only what the TypeScript
`narrowerObject` accepts of the same JSON values, exactly if the children they accept are plain. -/
theorem accepted_by_reference_iff (hrounds : Rounds engine) (hruntime : ReadsLiterals runtime)
    {child parent : Object} :
    ((narrow (some child) (some parent) = .ok true →
        TypeScript.narrowerObject (some (toRecord engine child)) (some (toRecord engine parent))
          = true) ↔
      (WithinMembers runtime .sdk child parent → PlainMembers engine child parent)) ∧
    ((narrowerObject runtime (some child) (some parent) = .ok true →
        TypeScript.narrowerObject (some (toRecord engine child)) (some (toRecord engine parent))
          = true) ↔
      (WithinMembers runtime .cli child parent → PlainMembers engine child parent)) := by
  have haccepted : ∀ program : Program,
      ((narrowWith (program.comparison runtime) (some child) (some parent) = .ok true →
          TypeScript.narrowerObject (some (toRecord engine child)) (some (toRecord engine parent))
            = true) ↔
        (WithinMembers runtime program child parent → PlainMembers engine child parent)) := by
    intro program
    simp only [narrowWith, narrowEntries_eq_true, TypeScript.narrowerObject, Option.any_some]
    exact imp_congr_right fun hwithin => narrowerMembers_iff hrounds hruntime hwithin
  exact ⟨haccepted .sdk, haccepted .cli⟩

/-! ### An example -/

/-- An engine that does not round. -/
def exactEngine : Engine :=
  { TypeScript.plainEngine with literalToNumber := fun s => JsonText.signedValue s.toList }

theorem literalNumber_exact (n : Literal) : literalNumber exactEngine n.text = n.value := by
  unfold literalNumber
  split_ifs with h
  · -- the literal is the digits of a natural
    have hdigits := isDigit_of_isFraction h.1
    rcases n.plain_or_exponent with
      ⟨whole, -, ⟨htext, hvalue⟩ | ⟨htext, -⟩⟩ | ⟨whole, fraction, -, -, hplain⟩ | ⟨hletter, -⟩
    · rw [hvalue, htext]
    · exact absurd (hdigits '-' (by simp [htext])) (by decide)
    · have hdot : '.' ∈ n.text.toList := by
        rcases hplain with ⟨htext, -⟩ | ⟨htext, -⟩ <;> simp [htext]
      exact absurd (hdigits '.' hdot) (by decide)
    · rcases hletter with he | he
      · exact absurd (hdigits 'e' he) (by decide)
      · exact absurd (hdigits 'E' he) (by decide)
  · rfl

theorem exactEngine_rounds : Rounds exactEngine := fun m n h => by
  rwa [literalNumber_exact, literalNumber_exact]

theorem plainRuntime_readsLiterals : ReadsLiterals plainRuntime := fun _ _ h => by cases h

/-- Data that may only be used in one region. -/
def regionalUse : Object := [("regions", .arr [.str "eu"])]

/-- The region is a text instead of a list. -/
def worldwideUse : Object := [("regions", .str "worldwide")]

theorem worldwideUse_narrows :
    narrow (some worldwideUse) (some regionalUse) = .ok true ∧
      narrowerObject plainRuntime (some worldwideUse) (some regionalUse) = .ok true ∧
      TypeScript.narrowerObject (some (toRecord exactEngine worldwideUse))
        (some (toRecord exactEngine regionalUse)) = false := by
  decide

/-- The text is within the list, and not plain. -/
theorem accepted_by_reference_iff_worldwideUse :
    ¬ (WithinMembers plainRuntime .sdk worldwideUse regionalUse →
      PlainMembers exactEngine worldwideUse regionalUse) := by
  have hiff := (@accepted_by_reference_iff plainRuntime exactEngine exactEngine_rounds
    plainRuntime_readsLiterals worldwideUse regionalUse).1
  rw [← hiff]
  decide

end Oati.Go

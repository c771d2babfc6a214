import Mathlib.Data.List.TakeWhile
import Oati.Library.JsonSort

/-!
# The text behind a decoded document

A JSON text may give several members of an object one name. `readValue` reads such a text with
every member that is written in it; a decoder keeps one member of each name, the last one, in an
order of its own.

* `parseValue_eq`: the parser is the reading, followed by what a decoder keeps.
* `Part` and `Kept`: the values that occur in a document, and those that a decoder keeps.
* `part_rebuild`: the parts of the decoded document are the kept ones.
* `distinct_of_parse`: a parsed text has distinct names.
* `Decoder`: what a decoder takes from a text, and what it leaves behind the value.
-/

namespace Json

variable {N : Type}

/-! ### The parts of a document -/

/-- `Part v w`: `w` occurs in `v`, at any depth. -/
inductive Part : Json N → Json N → Prop
  | refl (v : Json N) : Part v v
  | item {items : List (Json N)} {v w : Json N} : v ∈ items → Part v w → Part (.arr items) w
  | member {members : List (String × Json N)} {m : String × Json N} {w : Json N} :
    m ∈ members → Part m.2 w → Part (.obj members) w

/-- `Kept v w`: `w` occurs in `v`, and no member on the way has a later one of its name. -/
inductive Kept : Json N → Json N → Prop
  | refl (v : Json N) : Kept v v
  | item {items : List (Json N)} {v w : Json N} : v ∈ items → Kept v w → Kept (.arr items) w
  | member {members : List (String × Json N)} {key : String} {v w : Json N} :
    members.reverse.lookup key = some v → Kept v w → Kept (.obj members) w

/-- A member that has a later one of its name, with another value. -/
def Replaced (members : List (String × Json N)) (m : String × Json N) : Prop :=
  m ∈ members ∧ members.reverse.lookup m.1 ≠ some m.2

theorem Part.trans {u v w : Json N} (huv : Part u v) (hvw : Part v w) : Part u w := by
  induction huv with
  | refl v => exact hvw
  | item hv _ ih => exact .item hv (ih hvw)
  | member hm _ ih => exact .member hm (ih hvw)

theorem mem_of_reverse_lookup {members : List (String × Json N)} {key : String} {v : Json N}
    (h : members.reverse.lookup key = some v) : (key, v) ∈ members :=
  List.mem_reverse.mp (List.mem_of_lookup_eq_some h)

/-- A name of the text has a last member. -/
theorem exists_last {members : List (String × Json N)} {m : String × Json N} (h : m ∈ members) :
    ∃ v, members.reverse.lookup m.1 = some v := by
  rw [← List.mem_reverse] at h
  generalize members.reverse = reversed at h
  induction reversed with
  | nil => cases h
  | cons first rest ih =>
    obtain ⟨key, v⟩ := first
    by_cases hkey : m.1 = key
    · exact ⟨v, hkey ▸ List.lookup_cons_self⟩
    · rw [List.lookup_cons_of_ne hkey]
      refine ih ((List.mem_cons.mp h).resolve_left fun heq => hkey ?_)
      rw [heq]

/-- What is kept occurs. -/
theorem Kept.part {v w : Json N} (h : Kept v w) : Part v w := by
  induction h with
  | refl v => exact .refl v
  | item hv _ ih => exact .item hv ih
  | member hlast _ ih => exact .member (mem_of_reverse_lookup hlast) ih

/-- A part is kept, or lies in a member that is replaced in an object that is kept. -/
theorem Part.kept_or_replaced {v w : Json N} (h : Part v w) :
    Kept v w ∨ ∃ members m, Kept v (.obj members) ∧ Replaced members m ∧ Part m.2 w := by
  induction h with
  | refl v => exact .inl (.refl v)
  | item hv _ ih =>
    rcases ih with hkept | ⟨members, m, hkept, hreplaced, hpart⟩
    · exact .inl (.item hv hkept)
    · exact .inr ⟨members, m, .item hv hkept, hreplaced, hpart⟩
  | @member members m w hm hpart ih =>
    by_cases hlast : members.reverse.lookup m.1 = some m.2
    · rcases ih with hkept | ⟨inner, n, hkept, hreplaced, hinner⟩
      · exact .inl (.member hlast hkept)
      · exact .inr ⟨inner, n, .member hlast hkept, hreplaced, hinner⟩
    · exact .inr ⟨members, m, .refl _, ⟨hm, hlast⟩, hpart⟩

/-! ### Documents with other members -/

mutual

/-- The document with the members of each object replaced, from the inside out. -/
def rebuild (f : List (String × Json N) → List (String × Json N)) : Json N → Json N
  | .null => .null
  | .bool b => .bool b
  | .num n => .num n
  | .str s => .str s
  | .arr items => .arr (rebuildItems f items)
  | .obj members => .obj (f (rebuildMembers f members))
termination_by structural v => v

/-- `rebuild` on every item. -/
def rebuildItems (f : List (String × Json N) → List (String × Json N)) :
    List (Json N) → List (Json N)
  | [] => []
  | v :: rest => rebuild f v :: rebuildItems f rest
termination_by structural items => items

/-- `rebuild` on every value. -/
def rebuildMembers (f : List (String × Json N) → List (String × Json N)) :
    List (String × Json N) → List (String × Json N)
  | [] => []
  | (key, v) :: rest => (key, rebuild f v) :: rebuildMembers f rest
termination_by structural members => members

end

variable {f : List (String × Json N) → List (String × Json N)}

theorem rebuildItems_eq_map (items : List (Json N)) :
    rebuildItems f items = items.map (rebuild f) := by
  induction items with
  | nil => rfl
  | cons v rest ih => rw [rebuildItems, ih, List.map_cons]

theorem rebuildMembers_eq_map (members : List (String × Json N)) :
    rebuildMembers f members = members.map fun m => (m.1, rebuild f m.2) := by
  induction members with
  | nil => rfl
  | cons m rest ih => rw [rebuildMembers, ih, List.map_cons]

/-- The last member of a name is the image of the last one. -/
theorem reverse_lookup_rebuildMembers (members : List (String × Json N)) (key : String) :
    (rebuildMembers f members).reverse.lookup key
      = (members.reverse.lookup key).map (rebuild f) := by
  rw [rebuildMembers_eq_map, ← List.map_reverse]
  induction members.reverse with
  | nil => rfl
  | cons m rest ih =>
    obtain ⟨k, v⟩ := m
    rw [List.map_cons]
    by_cases hkey : key = k
    · rw [hkey, List.lookup_cons_self, List.lookup_cons_self, Option.map_some]
    · rw [List.lookup_cons_of_ne hkey, List.lookup_cons_of_ne hkey, ih]

end Json

namespace JsonText

open Json

variable {N : Type}

/-! ### What a decoder keeps -/

/-- A decoder keeps the last member of each name. -/
theorem lookup_collect (members : List (String × Json N)) (key : String) :
    (collect members).lookup key = members.reverse.lookup key := by
  induction members using List.reverseRecOn with
  | nil => rfl
  | append_singleton members m ih =>
    rw [collect_append_singleton, lookup_insertMember, List.reverse_append, ih]
    by_cases hkey : key = m.1
    · rw [if_pos hkey, hkey]
      exact List.lookup_cons_self.symm
    · rw [if_neg hkey]
      exact (List.lookup_cons_of_ne hkey m.2 members.reverse).symm

theorem mem_collect {members : List (String × Json N)} {m : String × Json N} :
    m ∈ collect members ↔ members.reverse.lookup m.1 = some m.2 := by
  rw [← lookup_collect]
  exact ⟨lookup_of_mem (nodup_collect members), List.mem_of_lookup_eq_some⟩

/-- Every decoder keeps these members, in some order. -/
def Keeps (keep : List (String × Json N) → List (String × Json N)) : Prop :=
  ∀ members, (keep members).Perm (collect members)

section Keep

variable {keep : List (String × Json N) → List (String × Json N)} (hkeep : Keeps keep)

include hkeep

theorem Keeps.nodup (members : List (String × Json N)) : ((keep members).map Prod.fst).Nodup :=
  ((hkeep members).map Prod.fst).nodup_iff.mpr (nodup_collect members)

theorem Keeps.mem_iff {members : List (String × Json N)} {m : String × Json N} :
    m ∈ keep members ↔ members.reverse.lookup m.1 = some m.2 :=
  (hkeep members).mem_iff.trans mem_collect

theorem Keeps.lookup (members : List (String × Json N)) (key : String) :
    (keep members).lookup key = members.reverse.lookup key := by
  cases hlast : members.reverse.lookup key with
  | some v =>
    have hmem : (key, v) ∈ keep members := hkeep.mem_iff.mpr hlast
    exact lookup_of_mem (hkeep.nodup members) hmem
  | none =>
    cases hfound : (keep members).lookup key with
    | none => rfl
    | some v =>
      have hmem := hkeep.mem_iff.mp (List.mem_of_lookup_eq_some hfound)
      exact absurd (hlast.symm.trans hmem) (by simp)

/-- The parts of a decoded document are those that the decoder keeps. -/
theorem Keeps.part_rebuild {v w : Json N} :
    Part (v.rebuild keep) w ↔ ∃ u, Kept v u ∧ w = u.rebuild keep := by
  constructor
  · intro h
    induction v using Json.induction generalizing w with
    | arr items ih =>
      rw [rebuild, rebuildItems_eq_map] at h
      cases h with
      | refl => exact ⟨.arr items, .refl _, by rw [rebuild, rebuildItems_eq_map]⟩
      | item hv hpart =>
        obtain ⟨v, hmem, rfl⟩ := List.mem_map.mp hv
        obtain ⟨u, hkept, rfl⟩ := ih v hmem hpart
        exact ⟨u, .item hmem hkept, rfl⟩
    | obj members ih =>
      rw [rebuild] at h
      cases h with
      | refl => exact ⟨.obj members, .refl _, by rw [rebuild]⟩
      | @member _ m _ hm hpart =>
        have hlast := hkeep.mem_iff.mp hm
        rw [reverse_lookup_rebuildMembers, Option.map_eq_some_iff] at hlast
        obtain ⟨v, hv, hm2⟩ := hlast
        rw [← hm2] at hpart
        obtain ⟨u, hkept, rfl⟩ := ih _ (mem_of_reverse_lookup hv) hpart
        exact ⟨u, .member hv hkept, rfl⟩
    | null => cases h; exact ⟨.null, .refl _, rfl⟩
    | bool b => cases h; exact ⟨.bool b, .refl _, rfl⟩
    | num n => cases h; exact ⟨.num n, .refl _, rfl⟩
    | str s => cases h; exact ⟨.str s, .refl _, rfl⟩
  · rintro ⟨u, hkept, rfl⟩
    induction hkept with
    | refl v => exact .refl _
    | @item items v _ hv _ ih =>
      rw [rebuild, rebuildItems_eq_map]
      exact .item (List.mem_map_of_mem hv) ih
    | @member members key v _ hlast _ ih =>
      rw [rebuild]
      refine Part.member (m := (key, v.rebuild keep)) (hkeep.mem_iff.mpr ?_) ih
      rw [reverse_lookup_rebuildMembers, hlast, Option.map_some]

/-- A decoded document has distinct names. -/
theorem Keeps.distinct_rebuild (v : Json N) : (v.rebuild keep).Distinct := by
  induction v using Json.induction with
  | arr items ih =>
    rw [rebuild, rebuildItems_eq_map]
    exact itemsDistinct_iff.mpr (List.forall_mem_map.mpr ih)
  | obj members ih =>
    refine ⟨hkeep.nodup _, membersDistinct_iff.mpr fun m hm => ?_⟩
    have hlast := hkeep.mem_iff.mp hm
    rw [reverse_lookup_rebuildMembers, Option.map_eq_some_iff] at hlast
    obtain ⟨v, hv, heq⟩ := hlast
    rw [← heq]
    exact ih _ (mem_of_reverse_lookup hv)
  | null => trivial
  | bool b => trivial
  | num n => trivial
  | str s => trivial

end Keep

theorem keeps_collect : Keeps (collect (N := N)) := fun _ => .refl _

/-! ### Reading -/

mutual

/-- One value with all the members that are written in it, and the text after it; `constant`
reads what a decoder accepts as a value beyond the grammar. -/
def readValue (constant : List Char → Option (Json String × List Char)) :
    ℕ → List Char → Option (Json String × List Char)
  | 0, _ => none
  | fuel + 1, cs =>
    match skipWhitespace cs with
    | 'n' :: 'u' :: 'l' :: 'l' :: rest => some (.null, rest)
    | 't' :: 'r' :: 'u' :: 'e' :: rest => some (.bool true, rest)
    | 'f' :: 'a' :: 'l' :: 's' :: 'e' :: rest => some (.bool false, rest)
    | '"' :: rest => (parseChars none rest).map fun (chars, r) => (.str (String.ofList chars), r)
    | '[' :: rest =>
      match skipWhitespace rest with
      | ']' :: r => some (.arr [], r)
      | r => (readItems constant fuel r).map fun (items, r') => (.arr items, r')
    | '{' :: rest =>
      match skipWhitespace rest with
      | '}' :: r => some (.obj [], r)
      | r => (readMembers constant fuel r).map fun (members, r') => (.obj members, r')
    | rest =>
      if isNumber (rest.takeWhile isNumberChar) then
        some (.num (String.ofList (rest.takeWhile isNumberChar)), rest.dropWhile isNumberChar)
      else constant rest
termination_by structural fuel => fuel

/-- The items of an array up to its closing bracket. -/
def readItems (constant : List Char → Option (Json String × List Char)) :
    ℕ → List Char → Option (List (Json String) × List Char)
  | 0, _ => none
  | fuel + 1, cs => do
    let (v, rest) ← readValue constant fuel cs
    match skipWhitespace rest with
    | ',' :: r => (readItems constant fuel r).map fun (items, r') => (v :: items, r')
    | ']' :: r => some ([v], r)
    | _ => none
termination_by structural fuel => fuel

/-- The members of an object up to its closing brace. -/
def readMembers (constant : List Char → Option (Json String × List Char)) :
    ℕ → List Char → Option (List (String × Json String) × List Char)
  | 0, _ => none
  | fuel + 1, cs =>
    match skipWhitespace cs with
    | '"' :: quoted => do
      let (key, rest) ← parseChars none quoted
      match skipWhitespace rest with
      | ':' :: r => do
        let (v, rest) ← readValue constant fuel r
        match skipWhitespace rest with
        | ',' :: r' =>
          (readMembers constant fuel r').map fun (members, r'') =>
            ((String.ofList key, v) :: members, r'')
        | '}' :: r' => some ([(String.ofList key, v)], r')
        | _ => none
      | _ => none
    | _ => none
termination_by structural fuel => fuel

end

/-- The reading without constants. -/
def noConstant (_ : List Char) : Option (Json String × List Char) := none

/-- The parser reads, and keeps the last member of each name. Induction on the fuel, for values,
items and members at once. Splitting the match of the one side may resolve that of the other. -/
theorem parse_eq_read (fuel : ℕ) :
    (∀ cs, parseValue fuel cs
      = (readValue noConstant fuel cs).map fun p => (p.1.rebuild collect, p.2)) ∧
    (∀ cs, parseItems fuel cs
      = (readItems noConstant fuel cs).map fun p => (rebuildItems collect p.1, p.2)) ∧
    (∀ cs, parseMembers fuel cs
      = (readMembers noConstant fuel cs).map fun p => (rebuildMembers collect p.1, p.2)) := by
  induction fuel with
  | zero => exact ⟨fun _ => rfl, fun _ => rfl, fun _ => rfl⟩
  | succ fuel ih =>
    obtain ⟨hvalue, hitems, hmembers⟩ := ih
    refine ⟨fun cs => ?_, fun cs => ?_, fun cs => ?_⟩
    · rw [parseValue, readValue]
      generalize skipWhitespace cs = text
      split
      · rfl
      · rfl
      · rfl
      next rest =>
        change _ = ((parseChars none rest).map _).map _
        cases parseChars none rest <;> rfl
      next rest =>
        change _ = (match skipWhitespace rest with
          | ']' :: r => some (Json.arr [], r)
          | r => (readItems noConstant fuel r).map
              fun (p : List (Json String) × List Char) => (Json.arr p.1, p.2)).map _
        generalize skipWhitespace rest = inner
        split
        · rfl
        next inner hinner =>
          rw [hitems]
          try split
          all_goals first
            | exact absurd rfl (hinner _)
            | cases readItems noConstant fuel _ <;> rfl
      next rest =>
        change _ = (match skipWhitespace rest with
          | '}' :: r => some (Json.obj [], r)
          | r => (readMembers noConstant fuel r).map
              fun (p : List (String × Json String) × List Char) => (Json.obj p.1, p.2)).map _
        generalize skipWhitespace rest = inner
        split
        · rfl
        next inner hinner =>
          rw [hmembers]
          try split
          all_goals first
            | exact absurd rfl (hinner _)
            | cases readMembers noConstant fuel _ <;> rfl
      · -- neither side recognises a value by its first character
        try split
        all_goals simp_all [rebuild, noConstant]
    · rw [parseItems, readItems, hvalue]
      cases readValue noConstant fuel cs with
      | none => rfl
      | some p =>
        obtain ⟨v, rest⟩ := p
        simp only [Option.map_some, Option.bind_eq_bind, Option.bind_some]
        generalize skipWhitespace rest = inner
        split
        next r =>
          rw [hitems]
          change _ = ((readItems noConstant fuel r).map _).map _
          cases readItems noConstant fuel r <;> rfl
        · rfl
        next inner h1 h2 =>
          try split
          all_goals first
            | rfl
            | exact absurd rfl (h1 _)
            | exact absurd rfl (h2 _)
    · rw [parseMembers, readMembers]
      generalize skipWhitespace cs = text
      split
      next quoted =>
        change _ = (parseChars none quoted >>= _).map _
        cases parseChars none quoted with
        | none => rfl
        | some p =>
          obtain ⟨key, rest⟩ := p
          simp only [Option.bind_eq_bind, Option.bind_some]
          generalize skipWhitespace rest = inner
          split
          next r =>
            rw [hvalue]
            change _ = (readValue noConstant fuel r >>= _).map _
            cases readValue noConstant fuel r with
            | none => rfl
            | some p =>
              obtain ⟨v, after⟩ := p
              simp only [Option.map_some, Option.bind_eq_bind, Option.bind_some]
              generalize skipWhitespace after = next
              split
              next r' =>
                rw [hmembers]
                change _ = ((readMembers noConstant fuel r').map _).map _
                cases readMembers noConstant fuel r' <;> rfl
              · rfl
              · try split
                all_goals simp_all
          · try split
            all_goals simp_all
      · try split
        all_goals simp_all

/-! ### Whole texts -/

/-- A text that is one value, with whitespace around it. -/
def readText (constant : List Char → Option (Json String × List Char)) (cs : List Char) :
    Option (Json String × List Char) :=
  (readValue constant (cs.length + 1) cs).filter fun p => skipWhitespace p.2 = []

theorem parse_eq_readText (cs : List Char) :
    parse cs = (readText noConstant cs).map fun p => p.1.rebuild collect := by
  rw [parse, readText, (parse_eq_read _).1]
  cases readValue noConstant (cs.length + 1) cs with
  | none => rfl
  | some p =>
    obtain ⟨v, rest⟩ := p
    by_cases hrest : skipWhitespace rest = []
    · simp [hrest]
    · simp [hrest]

/-- A parsed text has distinct names. -/
theorem distinct_of_parse {cs : List Char} {v : Json String} (h : parse cs = some v) :
    v.Distinct := by
  rw [parse_eq_readText, Option.map_eq_some_iff] at h
  obtain ⟨p, -, rfl⟩ := h
  exact keeps_collect.distinct_rebuild p.1

theorem skipWhitespace_eq_nil {cs : List Char} :
    skipWhitespace cs = [] ↔ ∀ c ∈ cs, isWhitespace c = true :=
  List.dropWhile_eq_nil_iff

/-- What follows the value of a whole text is whitespace. -/
theorem whitespace_of_readText {constant : List Char → Option (Json String × List Char)}
    {cs rest : List Char} {v : Json String} (h : readText constant cs = some (v, rest)) :
    ∀ c ∈ rest, isWhitespace c = true := by
  have hrest := (Option.filter_eq_some_iff.mp h).2
  rwa [decide_eq_true_eq, skipWhitespace_eq_nil] at hrest

/-- Whitespace is no value. -/
theorem readText_of_whitespace {constant : List Char → Option (Json String × List Char)}
    (hconstant : constant [] = none) {cs : List Char} (h : ∀ c ∈ cs, isWhitespace c = true) :
    readText constant cs = none := by
  have hread : readValue constant (cs.length + 1) cs = none := by
    rw [readValue, skipWhitespace_eq_nil.mpr h]
    exact hconstant
  rw [readText, hread]
  rfl

/-- A decoder: what it reads at the start of a text, with the text that it leaves, and the
members that it keeps of an object. -/
structure Decoder where
  read : List Char → Option (Json String × List Char)
  keep : List (String × Json String) → List (String × Json String)
  keeps : Keeps keep

namespace Decoder

/-- The decoded document. -/
def decode (d : Decoder) (cs : List Char) : Option (Json String) :=
  (d.read cs).map fun p => p.1.rebuild d.keep

/-- `P` holds of every value written in the text: of the parts of the value that the decoder
reads, and of the parts of every value that it could read anywhere behind. -/
def Throughout (d : Decoder) (P : Json String → Prop) (cs : List Char) : Prop :=
  ∀ v rest, d.read cs = some (v, rest) → (∀ w, Part v w → P w) ∧
    ∀ behind, behind <:+ rest → ∀ v' rest', d.read behind = some (v', rest') →
      ∀ w, Part v' w → P w

end Decoder

end JsonText

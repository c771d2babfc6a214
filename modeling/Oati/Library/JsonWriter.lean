import Oati.Library.JsonSort
import Oati.Library.Returns

/-!
# Writers of JSON texts

A writer without whitespace walks the document, writes the members of an object in an order of
its own, and fails where it cannot write a number. Writers differ in what they make of a number,
of a string and of two names.

* `write`: the text of a document. The members of an object are written in the order of their
  names, so the first failure in that order is the one that is reported.
* `write_eq_render`: a writer that quotes strings as JSON does and sorts by a key writes the
  sorted document.
* `mem_write_iff`: a character that is no punctuation comes from a number, a string or a name.
* `write_transform`: a function that takes the tokens of one writer to those of another takes
  its texts to the texts of the other.
-/

namespace JsonText

open Json

variable {N ε : Type}

/-- What a writer makes of numbers, strings and names. -/
structure TextWriter (N ε : Type) where
  number : N → Except ε (List Char)
  string : String → List Char
  /-- Which of two names comes first. -/
  less : String → String → Bool

/-- The results in order, or the first failure. -/
def inOrder {α : Type} : List (Except ε α) → Except ε (List α)
  | [] => .ok []
  | x :: rest => do return (← x) :: (← inOrder rest)

/-- Texts with commas between them. -/
def commas : List (List Char) → List Char
  | [] => []
  | x :: rest => x ++ rest.flatMap (',' :: ·)

/-- The members in the order of their names. -/
def inNameOrder {α : Type} (less : String → String → Bool) (entries : List (String × α)) :
    List (String × α) :=
  entries.insertionSort fun a b => !less b.1 a.1

mutual

/-- The text of a document. -/
def write (w : TextWriter N ε) : Json N → Except ε (List Char)
  | .null => .ok ['n', 'u', 'l', 'l']
  | .bool true => .ok ['t', 'r', 'u', 'e']
  | .bool false => .ok ['f', 'a', 'l', 's', 'e']
  | .num n => w.number n
  | .str s => .ok (w.string s)
  | .arr items => do return '[' :: commas (← inOrder (writeItems w items)) ++ [']']
  | .obj members => do
    let entries := inNameOrder w.less (writeMembers w members)
    let texts ← inOrder (entries.map fun e => (w.string e.1 ++ ':' :: ·) <$> e.2)
    return '{' :: commas texts ++ ['}']
termination_by structural v => v

/-- The texts of items. -/
def writeItems (w : TextWriter N ε) : List (Json N) → List (Except ε (List Char))
  | [] => []
  | v :: rest => write w v :: writeItems w rest
termination_by structural items => items

/-- The texts of the values of members. -/
def writeMembers (w : TextWriter N ε) : List (String × Json N) → List (String × Except ε (List Char))
  | [] => []
  | (name, v) :: rest => (name, write w v) :: writeMembers w rest
termination_by structural members => members

end

theorem writeItems_eq_map (w : TextWriter N ε) (items : List (Json N)) :
    writeItems w items = items.map (write w) := by
  induction items with
  | nil => rfl
  | cons v rest ih => rw [writeItems, ih, List.map_cons]

theorem writeMembers_eq_map (w : TextWriter N ε) (members : List (String × Json N)) :
    writeMembers w members = members.map fun m => (m.1, write w m.2) := by
  induction members with
  | nil => rfl
  | cons m rest ih => rw [writeMembers, ih, List.map_cons]

/-! ### The rendered text -/

@[simp] theorem inOrder_ok {α : Type} (xs : List α) :
    inOrder (xs.map fun x => (.ok x : Except ε α)) = .ok xs := by
  induction xs with
  | nil => rfl
  | cons x rest ih =>
    rw [List.map_cons, inOrder, ih]
    rfl

theorem renderItems_eq {literal : N → List Char} (items : List (Json N)) :
    renderItems literal items = (items.map (render literal)).flatMap (',' :: ·) ++ [']'] := by
  induction items with
  | nil => rfl
  | cons v rest ih => simp [renderItems, ih]

/-- The text of a member. -/
def renderMember (literal : N → List Char) (m : String × Json N) : List Char :=
  quote m.1 ++ ':' :: render literal m.2

theorem renderMembers_eq {literal : N → List Char} (members : List (String × Json N)) :
    renderMembers literal members
      = (members.map (renderMember literal)).flatMap (',' :: ·) ++ ['}'] := by
  induction members with
  | nil => rfl
  | cons m rest ih => simp [renderMembers, renderMember, ih]

theorem render_arr {literal : N → List Char} (items : List (Json N)) :
    render literal (.arr items) = '[' :: commas (items.map (render literal)) ++ [']'] := by
  cases items with
  | nil => rfl
  | cons v rest => simp [render, renderItems_eq, commas]

theorem render_obj {literal : N → List Char} (members : List (String × Json N)) :
    render literal (.obj members) = '{' :: commas (members.map (renderMember literal)) ++ ['}'] := by
  cases members with
  | nil => rfl
  | cons m rest => simp [render, renderMembers_eq, renderMember, commas]

/-- A text depends on the literals of the numbers that are in the document. -/
theorem render_congr {literal literal' : N → List Char} {v : Json N}
    (h : ∀ n ∈ v.numbers, literal n = literal' n) : render literal v = render literal' v := by
  induction v using Json.induction with
  | num n => exact h n (by simp [numbers])
  | arr items ih =>
    rw [render_arr, render_arr]
    have hitems : items.map (render literal) = items.map (render literal') := by
      refine List.map_congr_left fun v hv => ih v hv fun n hn => h n ?_
      rw [numbers, mem_itemNumbers]
      exact ⟨v, hv, hn⟩
    rw [hitems]
  | obj members ih =>
    rw [render_obj, render_obj]
    have hmembers : members.map (renderMember literal) = members.map (renderMember literal') := by
      refine List.map_congr_left fun m hm => ?_
      rw [renderMember, renderMember, ih m hm fun n hn => h n ?_]
      rw [numbers, mem_memberNumbers]
      exact ⟨m, hm, hn⟩
    rw [hmembers]
  | bool b => cases b <;> rfl
  | _ => rfl

/-- A writer that quotes strings as JSON does, sorts names by a key, and writes the numbers of a
document as those of its image, writes the image with sorted members. -/
theorem write_eq_render {M K : Type} [LinearOrder K] {key : String → K} {w : TextWriter N ε}
    {f : N → M} {literal : M → List Char}
    (hless : ∀ a b, w.less a b = true ↔ key a < key b) {v : Json N}
    (hstring : ∀ s, s ∈ v.strings ∨ s ∈ v.names → w.string s = quote s)
    (hnumber : ∀ n ∈ v.numbers, w.number n = .ok (literal (f n))) :
    write w v = .ok (render literal ((v.map f).sorted key)) := by
  induction v using Json.induction with
  | null => rfl
  | bool b => cases b <;> rfl
  | num n => exact hnumber n (by simp [numbers])
  | str s => rw [write, hstring s (.inl (by simp [strings]))]; rfl
  | arr items ih =>
    have hitems : writeItems w items
        = ((sortedItems key (mapItems f items)).map (render literal)).map .ok := by
      rw [writeItems_eq_map, sortedItems_eq_map, mapItems_eq_map, List.map_map, List.map_map,
        List.map_map]
      refine List.map_congr_left fun v hv => ih v hv (fun s hs => hstring s ?_)
        fun n hn => hnumber n ?_
      · rw [strings, names, mem_itemStrings, mem_itemNames]
        exact hs.imp (fun h => ⟨v, hv, h⟩) fun h => ⟨v, hv, h⟩
      · rw [numbers, mem_itemNumbers]
        exact ⟨v, hv, hn⟩
    rw [write, hitems, inOrder_ok, map, sorted, render_arr]
    rfl
  | obj members ih =>
    -- the members are sorted by their names, whatever their values are
    have hmembers : writeMembers w members
        = (sortedMembers key (mapMembers f members)).map
            fun m => (m.1, .ok (render literal m.2)) := by
      rw [writeMembers_eq_map, sortedMembers_eq_map, mapMembers_eq_map, List.map_map, List.map_map]
      refine List.map_congr_left fun m hm => Prod.ext rfl (ih m hm (fun s hs => hstring s ?_)
        fun n hn => hnumber n ?_)
      · rw [strings, names, mem_memberStrings, mem_memberNames]
        exact hs.imp (fun h => ⟨m, hm, h⟩) fun h => ⟨m, hm, .inr h⟩
      · rw [numbers, mem_memberNumbers]
        exact ⟨m, hm, hn⟩
    have horder : ∀ a b : String, (!w.less b a) = true ↔ key a ≤ key b := by
      intro a b
      rw [Bool.not_eq_true', ← Bool.not_eq_true, hless, not_lt]
    set members' := (sortedMembers key (mapMembers f members)).insertionSort
      fun a b => key a.1 ≤ key b.1 with hmembers'
    have hsorted : inNameOrder w.less (writeMembers w members)
        = members'.map fun m => (m.1, .ok (render literal m.2)) := by
      rw [hmembers, inNameOrder, hmembers']
      exact (List.map_insertionSort _ _ _ _ fun a _ b _ => (horder a.1 b.1).symm).symm
    have htexts : members'.map
          ((fun e : String × Except ε (List Char) => (w.string e.1 ++ ':' :: ·) <$> e.2) ∘
            fun m => (m.1, .ok (render literal m.2)))
        = (members'.map (renderMember literal)).map .ok := by
      rw [List.map_map]
      refine List.map_congr_left fun m hm => ?_
      have hname : m.1 ∈ (obj members).names := by
        rw [hmembers', List.mem_insertionSort] at hm
        have hmem := List.mem_map_of_mem (f := Prod.fst) hm
        rw [map_fst_sortedMembers, mapMembers_eq_map, List.map_map] at hmem
        obtain ⟨m', hm', heq⟩ := List.mem_map.mp hmem
        rw [names, mem_memberNames]
        exact ⟨m', hm', .inl heq.symm⟩
      rw [Function.comp_apply, Function.comp_apply, hstring m.1 (.inr hname)]
      rfl
    rw [write, hsorted, List.map_map, map, sorted, ← hmembers', render_obj, htexts, inOrder_ok]
    rfl

/-! ### The characters of a text -/

theorem inOrder_eq_ok {α : Type} {xs : List (Except ε α)} {ys : List α} :
    inOrder xs = .ok ys ↔ xs = ys.map .ok := by
  constructor
  · intro h
    induction xs generalizing ys with
    | nil =>
      cases h
      rfl
    | cons x rest ih =>
      rw [inOrder] at h
      cases x with
      | error e => cases h
      | ok a =>
        cases hrest : inOrder rest with
        | error e =>
          rw [hrest] at h
          cases h
        | ok as =>
          rw [hrest] at h
          cases h
          rw [ih hrest, List.map_cons]
  · rintro rfl
    exact inOrder_ok ys

/-- A result of a sequence is the result of one of its parts. -/
theorem exists_mem_of_map_eq {α β : Type} {f : α → Except ε β} {xs : List α} {ys : List β}
    (h : xs.map f = ys.map .ok) {P : β → Prop} :
    (∃ y ∈ ys, P y) ↔ ∃ x ∈ xs, ∃ y, f x = .ok y ∧ P y := by
  constructor
  · rintro ⟨y, hy, hP⟩
    have hmem : (.ok y : Except ε β) ∈ xs.map f := by
      rw [h]
      exact List.mem_map_of_mem hy
    obtain ⟨x, hx, hxy⟩ := List.mem_map.mp hmem
    exact ⟨x, hx, y, hxy, hP⟩
  · rintro ⟨x, hx, y, hxy, hP⟩
    have hmem : (.ok y : Except ε β) ∈ ys.map (.ok : β → Except ε β) := by
      rw [← h, ← hxy]
      exact List.mem_map_of_mem hx
    obtain ⟨y', hy', heq⟩ := List.mem_map.mp hmem
    cases heq
    exact ⟨y, hy', hP⟩

/-- The parts of a sequence that has results. -/
theorem exists_ok_of_map_eq {α β : Type} {f : α → Except ε β} {xs : List α} {ys : List β}
    (h : xs.map f = ys.map .ok) {x : α} (hx : x ∈ xs) : ∃ y, f x = .ok y := by
  have hmem : f x ∈ ys.map (.ok : β → Except ε β) := by
    rw [← h]
    exact List.mem_map_of_mem hx
  obtain ⟨y, -, hy⟩ := List.mem_map.mp hmem
  exact ⟨y, hy.symm⟩

theorem write_arr_eq_ok {w : TextWriter N ε} {items : List (Json N)} {t : List Char} :
    write w (.arr items) = .ok t ↔ ∃ texts : List (List Char),
      items.map (write w) = texts.map .ok ∧ t = '[' :: commas texts ++ [']'] := by
  rw [write, writeItems_eq_map]
  constructor
  · intro h
    cases htexts : inOrder (items.map (write w)) with
    | error e =>
      rw [htexts] at h
      cases h
    | ok texts =>
      rw [htexts] at h
      cases h
      exact ⟨texts, inOrder_eq_ok.mp htexts, rfl⟩
  · rintro ⟨texts, htexts, rfl⟩
    rw [inOrder_eq_ok.mpr htexts]
    rfl

/-- The text of a member, if its value has one. -/
def writeMember (w : TextWriter N ε) (m : String × Json N) : Except ε (List Char) :=
  (w.string m.1 ++ ':' :: ·) <$> write w m.2

/-- The members in the order of their names, whatever their values are. -/
theorem write_obj_eq_ok {w : TextWriter N ε} {members : List (String × Json N)} {t : List Char} :
    write w (.obj members) = .ok t ↔ ∃ texts : List (List Char),
      (inNameOrder w.less members).map (writeMember w) = texts.map .ok ∧
        t = '{' :: commas texts ++ ['}'] := by
  have hentries : (inNameOrder w.less (writeMembers w members)).map
        (fun e => (w.string e.1 ++ ':' :: ·) <$> e.2)
      = (inNameOrder w.less members).map (writeMember w) := by
    have hsorted := List.map_insertionSort
      (r := fun a b : String × Json N => !w.less b.1 a.1)
      (s := fun a b : String × Except ε (List Char) => !w.less b.1 a.1)
      (fun m => (m.1, write w m.2)) members fun _ _ _ _ => Iff.rfl
    rw [inNameOrder, inNameOrder, writeMembers_eq_map, ← hsorted, List.map_map]
    rfl
  rw [write, hentries]
  constructor
  · intro h
    cases htexts : inOrder ((inNameOrder w.less members).map (writeMember w)) with
    | error e =>
      rw [htexts] at h
      cases h
    | ok texts =>
      rw [htexts] at h
      cases h
      exact ⟨texts, inOrder_eq_ok.mp htexts, rfl⟩
  · rintro ⟨texts, htexts, rfl⟩
    rw [inOrder_eq_ok.mpr htexts]
    rfl

theorem mem_inNameOrder {α : Type} {less : String → String → Bool} {entries : List (String × α)}
    {e : String × α} : e ∈ inNameOrder less entries ↔ e ∈ entries := List.mem_insertionSort _

/-- A member that is written has a value that is written. -/
theorem writeMember_eq_ok {w : TextWriter N ε} {m : String × Json N} {t : List Char} :
    writeMember w m = .ok t ↔ ∃ cs, write w m.2 = .ok cs ∧ t = w.string m.1 ++ ':' :: cs := by
  rw [writeMember]
  cases write w m.2 with
  | error e => simp [Functor.map, Except.map]
  | ok cs => simp [Functor.map, Except.map, eq_comm]

theorem exists_write_of_mem_members {w : TextWriter N ε} {members : List (String × Json N)}
    {t : List Char} (h : write w (.obj members) = .ok t) {m : String × Json N} (hm : m ∈ members) :
    ∃ cs, write w m.2 = .ok cs := by
  obtain ⟨texts, htexts, -⟩ := write_obj_eq_ok.mp h
  obtain ⟨y, hy⟩ := exists_ok_of_map_eq htexts (mem_inNameOrder.mpr hm)
  obtain ⟨cs, hcs, -⟩ := writeMember_eq_ok.mp hy
  exact ⟨cs, hcs⟩

/-- The numbers of a document that is written are written. -/
theorem exists_number_of_write {w : TextWriter N ε} {v : Json N} {t : List Char}
    (h : write w v = .ok t) {n : N} (hn : n ∈ v.numbers) : ∃ cs, w.number n = .ok cs := by
  induction v using Json.induction generalizing t with
  | num n' =>
    obtain rfl := List.mem_singleton.mp hn
    exact ⟨t, h⟩
  | arr items ih =>
    obtain ⟨texts, htexts, -⟩ := write_arr_eq_ok.mp h
    rw [numbers, mem_itemNumbers] at hn
    obtain ⟨v, hv, hn⟩ := hn
    obtain ⟨cs, hcs⟩ := exists_ok_of_map_eq htexts hv
    exact ih v hv hcs hn
  | obj members ih =>
    rw [numbers, mem_memberNumbers] at hn
    obtain ⟨m, hm, hn⟩ := hn
    obtain ⟨cs, hcs⟩ := exists_write_of_mem_members h hm
    exact ih m hm hcs hn
  | _ => cases hn

/-- What is written around the parts of a document. -/
def punctuation : List Char :=
  ['n', 'u', 'l', 't', 'r', 'e', 'f', 'a', 's', '[', ']', '{', '}', ',', ':']

theorem mem_commas {c : Char} (hc : c ≠ ',') {texts : List (List Char)} :
    c ∈ commas texts ↔ ∃ x ∈ texts, c ∈ x := by
  cases texts with
  | nil => simp [commas]
  | cons x rest => simp [commas, hc]

/-- Where the characters of a text that are no punctuation come from. -/
theorem mem_write_iff {w : TextWriter N ε} {c : Char} (hc : c ∉ punctuation) {v : Json N}
    {t : List Char} (h : write w v = .ok t) :
    c ∈ t ↔ (∃ n ∈ v.numbers, ∃ cs, w.number n = .ok cs ∧ c ∈ cs) ∨
      ∃ s, (s ∈ v.strings ∨ s ∈ v.names) ∧ c ∈ w.string s := by
  have hcomma : c ≠ ',' := fun heq => hc (by rw [heq]; decide)
  have hcolon : c ≠ ':' := fun heq => hc (by rw [heq]; decide)
  have hliteral : ∀ {cs : List Char}, cs ⊆ punctuation → c ∉ cs :=
    fun hcs hmem => hc (hcs hmem)
  have hbrackets : ∀ {open_ close : Char} {cs : List Char}, open_ ∈ punctuation →
      close ∈ punctuation → (c ∈ open_ :: cs ++ [close] ↔ c ∈ cs) := by
    intro open_ close cs hopen hclose
    have h1 : c ≠ open_ := fun heq => hc (heq ▸ hopen)
    have h2 : c ≠ close := fun heq => hc (heq ▸ hclose)
    simp [h1, h2]
  induction v using Json.induction generalizing t with
  | null =>
    cases h
    exact iff_of_false (hliteral (by decide)) (by simp [numbers, strings, names])
  | bool b =>
    cases b
    all_goals
      cases h
      exact iff_of_false (hliteral (by decide)) (by simp [numbers, strings, names])
  | num n =>
    rw [write] at h
    simp [numbers, strings, names, h]
  | str s =>
    cases h
    simp [numbers, strings, names]
  | arr items ih =>
    obtain ⟨texts, htexts, rfl⟩ := write_arr_eq_ok.mp h
    rw [hbrackets (by decide) (by decide), mem_commas hcomma, exists_mem_of_map_eq htexts, numbers,
      strings, names]
    simp only [mem_itemNumbers, mem_itemStrings, mem_itemNames]
    constructor
    · rintro ⟨v, hv, t, ht, hmem⟩
      rcases (ih v hv ht).mp hmem with ⟨n, hn, hnumber⟩ | ⟨s, hs, hstring⟩
      · exact .inl ⟨n, ⟨v, hv, hn⟩, hnumber⟩
      · exact .inr ⟨s, hs.imp (⟨v, hv, ·⟩) (⟨v, hv, ·⟩), hstring⟩
    · rintro (⟨n, ⟨v, hv, hn⟩, hnumber⟩ | ⟨s, ⟨v, hv, hs⟩ | ⟨v, hv, hs⟩, hstring⟩)
      all_goals
        obtain ⟨t, ht⟩ := exists_ok_of_map_eq htexts hv
        refine ⟨v, hv, t, ht, (ih v hv ht).mpr ?_⟩
      · exact .inl ⟨n, hn, hnumber⟩
      · exact .inr ⟨s, .inl hs, hstring⟩
      · exact .inr ⟨s, .inr hs, hstring⟩
  | obj members ih =>
    obtain ⟨texts, htexts, rfl⟩ := write_obj_eq_ok.mp h
    rw [hbrackets (by decide) (by decide), mem_commas hcomma, exists_mem_of_map_eq htexts, numbers,
      strings, names]
    simp only [mem_inNameOrder, mem_memberNumbers, mem_memberStrings, mem_memberNames,
      writeMember_eq_ok]
    constructor
    · rintro ⟨m, hm, t, ⟨cs, hcs, rfl⟩, hmem⟩
      rw [List.mem_append, List.mem_cons, or_iff_right hcolon] at hmem
      rcases hmem with hname | hvalue
      · exact .inr ⟨m.1, .inr ⟨m, hm, .inl rfl⟩, hname⟩
      · rcases (ih m hm hcs).mp hvalue with ⟨n, hn, hnumber⟩ | ⟨s, hs, hstring⟩
        · exact .inl ⟨n, ⟨m, hm, hn⟩, hnumber⟩
        · exact .inr ⟨s, hs.imp (⟨m, hm, ·⟩) (⟨m, hm, .inr ·⟩), hstring⟩
    · rintro (⟨n, ⟨m, hm, hn⟩, hnumber⟩ | ⟨s, ⟨m, hm, hs⟩ | ⟨m, hm, rfl | hs⟩, hstring⟩)
      all_goals
        obtain ⟨cs, hcs⟩ := exists_write_of_mem_members h hm
        refine ⟨m, hm, _, ⟨cs, hcs, rfl⟩, ?_⟩
        rw [List.mem_append, List.mem_cons, or_iff_right hcolon]
      · exact .inr ((ih m hm hcs).mpr (.inl ⟨n, hn, hnumber⟩))
      · exact .inr ((ih m hm hcs).mpr (.inr ⟨s, .inl hs, hstring⟩))
      · exact .inl hstring
      · exact .inr ((ih m hm hcs).mpr (.inr ⟨s, .inr hs, hstring⟩))

/-! ### Texts of two writers -/

section Transform

variable {w w' : TextWriter N ε} {transform : List Char → List Char}

/-- The items of a sequence are transformed one after the other. -/
theorem transform_commas {xs ys : List (List Char)}
    (h : List.Forall₂ (fun x y => ∀ rest, transform (x ++ rest) = y ++ transform rest) xs ys)
    (hcomma : ∀ rest, transform (',' :: rest) = ',' :: transform rest) (rest : List Char) :
    transform (commas xs ++ rest) = commas ys ++ transform rest := by
  have htail : ∀ {xs ys : List (List Char)},
      List.Forall₂ (fun x y => ∀ rest, transform (x ++ rest) = y ++ transform rest) xs ys →
      transform (xs.flatMap (',' :: ·) ++ rest) = ys.flatMap (',' :: ·) ++ transform rest := by
    intro xs ys h
    induction h with
    | nil => rfl
    | cons hxy _ ih =>
      rw [List.flatMap_cons, List.flatMap_cons, List.append_assoc, List.cons_append, hcomma, hxy, ih]
      simp
  cases h with
  | nil => rfl
  | cons hxy hrest =>
    rw [commas, commas, List.append_assoc, hxy, htail hrest, List.append_assoc]

/-- Results of two writers of one sequence, related one by one. -/
theorem forall₂_of_map_eq {α β γ : Type} {f : α → Except ε β} {g : α → Except ε γ} {xs : List α}
    {ys : List β} {zs : List γ} (hf : xs.map f = ys.map .ok) (hg : xs.map g = zs.map .ok)
    {R : β → γ → Prop} (h : ∀ x ∈ xs, ∀ y z, f x = .ok y → g x = .ok z → R y z) :
    List.Forall₂ R ys zs := by
  induction xs generalizing ys zs with
  | nil =>
    obtain rfl := List.map_eq_nil_iff.mp hf.symm
    obtain rfl := List.map_eq_nil_iff.mp hg.symm
    exact .nil
  | cons x rest ih =>
    obtain ⟨y, ys, rfl, hy, hys⟩ := List.map_eq_cons_iff.mp hf.symm
    obtain ⟨z, zs, rfl, hz, hzs⟩ := List.map_eq_cons_iff.mp hg.symm
    rw [List.forall_mem_cons] at h
    exact .cons (h.1 y z hy.symm hz.symm) (ih hys.symm hzs.symm h.2)

/-- A function that takes the tokens of a writer to those of another one takes texts to texts. -/
theorem write_transform (hless : w.less = w'.less)
    (hpunctuation : ∀ c ∈ punctuation, ∀ rest, transform (c :: rest) = c :: transform rest)
    (hstring : ∀ s rest, transform (w.string s ++ rest) = w'.string s ++ transform rest)
    (hnumber : ∀ n cs cs' rest, w.number n = .ok cs → w'.number n = .ok cs' →
      transform (cs ++ rest) = cs' ++ transform rest)
    {v : Json N} {t t' : List Char} (h : write w v = .ok t) (h' : write w' v = .ok t')
    (rest : List Char) : transform (t ++ rest) = t' ++ transform rest := by
  have hliteral : ∀ cs : List Char, cs ⊆ punctuation → ∀ rest,
      transform (cs ++ rest) = cs ++ transform rest := by
    intro cs hcs rest
    induction cs with
    | nil => rfl
    | cons c cs ih =>
      rw [List.cons_subset] at hcs
      rw [List.cons_append, hpunctuation c hcs.1, ih hcs.2, List.cons_append]
  have hcomma := hpunctuation ',' (by decide)
  have hbrackets : ∀ {o c : Char} {xs ys : List Char}, o ∈ punctuation → c ∈ punctuation →
      (∀ rest, transform (xs ++ rest) = ys ++ transform rest) → ∀ rest,
      transform (o :: xs ++ [c] ++ rest) = o :: ys ++ [c] ++ transform rest := by
    intro o c xs ys ho hc hxs rest
    have hshape : o :: xs ++ [c] ++ rest = o :: (xs ++ c :: rest) := by simp
    rw [hshape, hpunctuation o ho, hxs, hpunctuation c hc]
    simp
  induction v using Json.induction generalizing t t' rest with
  | null =>
    cases h
    cases h'
    exact hliteral _ (by decide) rest
  | bool b =>
    cases b
    all_goals
      cases h
      cases h'
      exact hliteral _ (by decide) rest
  | num n => exact hnumber n t t' rest h h'
  | str s =>
    cases h
    cases h'
    exact hstring s rest
  | arr items ih =>
    obtain ⟨texts, htexts, rfl⟩ := write_arr_eq_ok.mp h
    obtain ⟨texts', htexts', rfl⟩ := write_arr_eq_ok.mp h'
    have hitems := forall₂_of_map_eq htexts htexts' fun v hv y z hy hz rest => ih v hv hy hz rest
    exact hbrackets (by decide) (by decide) (transform_commas hitems hcomma) rest
  | obj members ih =>
    obtain ⟨texts, htexts, rfl⟩ := write_obj_eq_ok.mp h
    obtain ⟨texts', htexts', rfl⟩ := write_obj_eq_ok.mp h'
    rw [hless] at htexts
    have hmembers := forall₂_of_map_eq htexts htexts'
      (R := fun x y => ∀ rest, transform (x ++ rest) = y ++ transform rest) (by
        intro m hm y z hy hz rest
        obtain ⟨cs, hcs, rfl⟩ := writeMember_eq_ok.mp hy
        obtain ⟨cs', hcs', rfl⟩ := writeMember_eq_ok.mp hz
        rw [List.append_assoc, List.cons_append, hstring, hpunctuation ':' (by decide),
          ih m (mem_inNameOrder.mp hm) hcs hcs', List.append_assoc, List.cons_append])
    exact hbrackets (by decide) (by decide) (transform_commas hmembers hcomma) rest

end Transform

end JsonText

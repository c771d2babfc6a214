import Oati.Library.JsonWriter

/-!
# Members in two orders

Two keys may sort the names of an object differently. They sort a document alike exactly if they
agree on every two names of one object.

* `OrderedAlike`: they agree on the names of every object;
  `sorted_eq_sorted_iff_orderedAlike`.
* `sorted_sorted`: the order of the members is lost when they are sorted again.
* `sorted_map`, `map_eq_map_iff`: sorting and replacing the numbers.
* `JsonText.render_sorted_eq_iff`: the texts of a document by two keys are one text exactly if
  the literals are the same and the names are ordered alike.
-/

namespace Json

variable {N M K L : Type} [LinearOrder K] [LinearOrder L]

/-! ### Sorting and replacing numbers -/

/-- The members in the order of their names, with other values. -/
theorem map_insertionSort_fst {α β : Type} (key : String → K) (f : α → β)
    (members : List (String × α)) :
    (members.insertionSort fun a b => key a.1 ≤ key b.1).map (fun m => (m.1, f m.2))
      = (members.map fun m => (m.1, f m.2)).insertionSort fun a b => key a.1 ≤ key b.1 :=
  List.map_insertionSort _ _ _ _ fun _ _ _ _ => Iff.rfl

/-- Sorting does not look at numbers. -/
theorem sorted_map (key : String → K) (f : N → M) (v : Json N) :
    (v.map f).sorted key = (v.sorted key).map f := by
  induction v using Json.induction with
  | arr items ih =>
    rw [map, sorted, sorted, map, mapItems_eq_map, mapItems_eq_map, sortedItems_eq_map,
      sortedItems_eq_map, List.map_map, List.map_map]
    exact congrArg arr (List.map_congr_left ih)
  | obj members ih =>
    rw [map, sorted, sorted, map, mapMembers_eq_map, mapMembers_eq_map, sortedMembers_eq_map,
      sortedMembers_eq_map, map_insertionSort_fst key, List.map_map, List.map_map]
    have hmembers : members.map ((fun m => (m.1, sorted key m.2)) ∘ fun m => (m.1, map f m.2))
        = members.map ((fun m => (m.1, map f m.2)) ∘ fun m => (m.1, sorted key m.2)) :=
      List.map_congr_left fun m hm => Prod.ext rfl (ih m hm)
    rw [hmembers]
  | _ => rfl

/-- Two images are equal exactly if the images of the numbers are. -/
theorem map_eq_map_iff {f g : N → M} {v : Json N} :
    v.map f = v.map g ↔ ∀ n ∈ v.numbers, f n = g n := by
  refine ⟨fun h => ?_, map_congr⟩
  induction v using Json.induction with
  | num n =>
    rw [map, map, num.injEq] at h
    simpa [numbers] using h
  | arr items ih =>
    rw [map, map, arr.injEq, mapItems_eq_map, mapItems_eq_map, List.map_inj_left] at h
    intro n hn
    rw [numbers, mem_itemNumbers] at hn
    obtain ⟨v, hv, hn⟩ := hn
    exact ih v hv (h v hv) n hn
  | obj members ih =>
    rw [map, map, obj.injEq, mapMembers_eq_map, mapMembers_eq_map, List.map_inj_left] at h
    intro n hn
    rw [numbers, mem_memberNumbers] at hn
    obtain ⟨m, hm, hn⟩ := hn
    exact ih m hm (congrArg Prod.snd (h m hm)) n hn
  | _ => exact fun n hn => absurd hn List.not_mem_nil

/-- Two images by an injective function are equal only if the documents are. -/
theorem map_injective {f : N → M} (hf : Function.Injective f) :
    Function.Injective (map f : Json N → Json M) := by
  intro v
  induction v using Json.induction with
  | num n =>
    intro w h
    cases w with
    | num n' =>
      rw [map, map, num.injEq] at h
      rw [hf h]
    | _ => cases h
  | arr items ih =>
    intro w h
    cases w with
    | arr ys =>
      rw [map, map, arr.injEq, mapItems_eq_map, mapItems_eq_map] at h
      refine congrArg arr ?_
      induction items generalizing ys with
      | nil => exact (List.map_eq_nil_iff.mp h.symm).symm
      | cons x rest ihrest =>
        obtain ⟨y, ys, rfl, hy, hys⟩ := List.map_eq_cons_iff.mp h.symm
        rw [List.forall_mem_cons] at ih
        rw [ih.1 hy.symm, ihrest ih.2 ys hys.symm]
    | _ => cases h
  | obj members ih =>
    intro w h
    cases w with
    | obj ns =>
      rw [map, map, obj.injEq, mapMembers_eq_map, mapMembers_eq_map] at h
      refine congrArg obj ?_
      induction members generalizing ns with
      | nil => exact (List.map_eq_nil_iff.mp h.symm).symm
      | cons m rest ihrest =>
        obtain ⟨n, ns, rfl, hn, hns⟩ := List.map_eq_cons_iff.mp h.symm
        rw [List.forall_mem_cons] at ih
        obtain ⟨hname, hvalue⟩ := Prod.mk.inj hn
        rw [ihrest ih.2 ns hns.symm, Prod.ext hname.symm (ih.1 hvalue.symm)]
    | _ => cases h
  | _ =>
    intro w h
    cases w <;> cases h
    rfl

/-- Members that are sorted again are in the later order. -/
theorem sorted_sorted {key : String → K} (key' : String → L) (hkey : Function.Injective key)
    {v : Json N} (hv : v.Distinct) : (v.sorted key').sorted key = v.sorted key := by
  induction v using Json.induction with
  | arr items ih =>
    rw [sorted, sorted, sorted, sortedItems_eq_map, sortedItems_eq_map, sortedItems_eq_map,
      List.map_map]
    refine congrArg arr (List.map_congr_left fun v hmem => ?_)
    exact ih v hmem (itemsDistinct_iff.mp hv v hmem)
  | obj members ih =>
    obtain ⟨hnames, hvalues⟩ := hv
    rw [sorted, sorted, sorted, obj.injEq, eq_comm,
      insertionSort_eq_iff hkey (by rwa [map_fst_sortedMembers])]
    -- both are listings of the members with sorted values
    have hperm := List.perm_insertionSort
      (fun a b : String × Json N => key' a.1 ≤ key' b.1) (sortedMembers key' members)
    have hmembers : (sortedMembers key' members).map (fun m => (m.1, sorted key m.2))
        = sortedMembers key members := by
      rw [sortedMembers_eq_map, sortedMembers_eq_map, List.map_map]
      exact List.map_congr_left fun m hm =>
        Prod.ext rfl (ih m hm (membersDistinct_iff.mp hvalues m hm))
    rw [← hmembers, sortedMembers_eq_map key]
    exact (hperm.map _).symm
  | _ => rfl

/-- Replacing numbers keeps strings and names. -/
theorem strings_map (f : N → M) (v : Json N) : (v.map f).strings = v.strings := by
  induction v using Json.induction with
  | arr items ih =>
    rw [map, strings, strings, mapItems_eq_map]
    induction items with
    | nil => rfl
    | cons v rest ihrest =>
      rw [List.forall_mem_cons] at ih
      rw [List.map_cons, itemStrings, itemStrings, ih.1, ihrest ih.2]
  | obj members ih =>
    rw [map, strings, strings, mapMembers_eq_map]
    induction members with
    | nil => rfl
    | cons m rest ihrest =>
      rw [List.forall_mem_cons] at ih
      rw [List.map_cons, memberStrings, memberStrings, ih.1, ihrest ih.2]
  | _ => rfl

theorem names_map (f : N → M) (v : Json N) : (v.map f).names = v.names := by
  induction v using Json.induction with
  | arr items ih =>
    rw [map, names, names, mapItems_eq_map]
    induction items with
    | nil => rfl
    | cons v rest ihrest =>
      rw [List.forall_mem_cons] at ih
      rw [List.map_cons, itemNames, itemNames, ih.1, ihrest ih.2]
  | obj members ih =>
    rw [map, names, names, mapMembers_eq_map]
    induction members with
    | nil => rfl
    | cons m rest ihrest =>
      rw [List.forall_mem_cons] at ih
      rw [List.map_cons, memberNames, memberNames, ih.1, ihrest ih.2]
  | _ => rfl

/-! ### Names that are ordered alike -/

mutual

/-- The names of every object are in the same order by either key. -/
def OrderedAlike (key : String → K) (key' : String → L) : Json N → Prop
  | .null => True
  | .bool _ => True
  | .num _ => True
  | .str _ => True
  | .arr items => ItemsOrderedAlike key key' items
  | .obj members =>
    (∀ a ∈ members.map Prod.fst, ∀ b ∈ members.map Prod.fst, key a ≤ key b ↔ key' a ≤ key' b) ∧
      MembersOrderedAlike key key' members
termination_by structural v => v

/-- `OrderedAlike` of every item. -/
def ItemsOrderedAlike (key : String → K) (key' : String → L) : List (Json N) → Prop
  | [] => True
  | v :: rest => OrderedAlike key key' v ∧ ItemsOrderedAlike key key' rest
termination_by structural items => items

/-- `OrderedAlike` of every value. -/
def MembersOrderedAlike (key : String → K) (key' : String → L) : List (String × Json N) → Prop
  | [] => True
  | (_, v) :: rest => OrderedAlike key key' v ∧ MembersOrderedAlike key key' rest
termination_by structural members => members

end

variable {key : String → K} {key' : String → L}

theorem itemsOrderedAlike_iff {items : List (Json N)} :
    ItemsOrderedAlike key key' items ↔ ∀ v ∈ items, OrderedAlike key key' v := by
  induction items with
  | nil => simp [ItemsOrderedAlike]
  | cons v rest ih => simp [ItemsOrderedAlike, ih]

theorem membersOrderedAlike_iff {members : List (String × Json N)} :
    MembersOrderedAlike key key' members ↔ ∀ m ∈ members, OrderedAlike key key' m.2 := by
  induction members with
  | nil => simp [MembersOrderedAlike]
  | cons m rest ih => simp [MembersOrderedAlike, ih]

/-- Numbers do not matter for the order of names. -/
theorem orderedAlike_map {f : N → M} {v : Json N} :
    OrderedAlike key key' (v.map f) ↔ OrderedAlike key key' v := by
  induction v using Json.induction with
  | arr items ih =>
    rw [map, OrderedAlike, OrderedAlike, itemsOrderedAlike_iff, itemsOrderedAlike_iff,
      mapItems_eq_map, List.forall_mem_map]
    exact forall₂_congr ih
  | obj members ih =>
    have hnames : (mapMembers f members).map Prod.fst = members.map Prod.fst := by
      rw [mapMembers_eq_map, List.map_map]
      rfl
    rw [map, OrderedAlike, OrderedAlike, membersOrderedAlike_iff, membersOrderedAlike_iff, hnames,
      mapMembers_eq_map]
    refine and_congr_right fun _ => ?_
    rw [List.forall_mem_map]
    exact forall₂_congr ih
  | _ => exact Iff.rfl

/-- A list that is in order by either key has names that are ordered alike. -/
theorem alike_of_pairwise {names : List String} (hkey : Function.Injective key)
    (hkey' : Function.Injective key') (h : names.Pairwise fun a b => key a ≤ key b)
    (h' : names.Pairwise fun a b => key' a ≤ key' b) :
    ∀ a ∈ names, ∀ b ∈ names, key a ≤ key b ↔ key' a ≤ key' b := by
  have hforward : ∀ {a b : String}, key a ≤ key b → key' a ≤ key' b →
      ((key a ≤ key b ↔ key' a ≤ key' b) ∧ (key b ≤ key a ↔ key' b ≤ key' a)) := by
    intro a b hab hab'
    refine ⟨iff_of_true hab hab', ?_⟩
    constructor
    · intro hba
      rw [hkey (le_antisymm hab hba)]
    · intro hba
      rw [hkey' (le_antisymm hab' hba)]
  intro a ha b hb
  refine (List.Pairwise.forall_of_forall_of_flip
    (R := fun a b => (key a ≤ key b ↔ key' a ≤ key' b) ∧ (key b ≤ key a ↔ key' b ≤ key' a))
    (fun a _ => hforward le_rfl le_rfl) ((h.and h').imp fun hab => hforward hab.1 hab.2)
    ((h.and h').imp fun hab => (hforward hab.1 hab.2).symm) ha hb).1

/-- A document is sorted alike by two keys exactly if they order the names of its objects
alike. -/
theorem sorted_eq_sorted_iff_orderedAlike (hkey : Function.Injective key)
    (hkey' : Function.Injective key') {v : Json N} (hv : v.Distinct) :
    v.sorted key = v.sorted key' ↔ OrderedAlike key key' v := by
  induction v using Json.induction with
  | arr items ih =>
    rw [sorted, sorted, arr.injEq, OrderedAlike, itemsOrderedAlike_iff, sortedItems_eq_map,
      sortedItems_eq_map, List.map_inj_left]
    exact forall₂_congr fun v hmem => ih v hmem (itemsDistinct_iff.mp hv v hmem)
  | obj members ih =>
    obtain ⟨hnames, hvalues⟩ := hv
    rw [sorted, sorted, obj.injEq, OrderedAlike, membersOrderedAlike_iff]
    constructor
    · intro h
      have hperm := List.perm_insertionSort
        (fun a b : String × Json N => key a.1 ≤ key b.1) (sortedMembers key members)
      have hperm' := List.perm_insertionSort
        (fun a b : String × Json N => key' a.1 ≤ key' b.1) (sortedMembers key' members)
      refine ⟨?_, ?_⟩
      · -- one list is in both orders
        have hpair := pairwise_insertionSort key (sortedMembers key members)
        have hpair' := pairwise_insertionSort key' (sortedMembers key' members)
        rw [← h] at hpair'
        have halike := alike_of_pairwise hkey hkey' (List.pairwise_map.mpr hpair)
          (List.pairwise_map.mpr hpair')
        have hnamesPerm := hperm.map Prod.fst
        rw [map_fst_sortedMembers] at hnamesPerm
        intro a ha b hb
        exact halike a (hnamesPerm.mem_iff.mpr ha) b (hnamesPerm.mem_iff.mpr hb)
      · -- a name has one value in the sorted list
        rw [← h] at hperm'
        have hsame := hperm.symm.trans hperm'
        intro m hm
        have hin : (m.1, sorted key m.2) ∈ sortedMembers key' members := by
          rw [← hsame.mem_iff, sortedMembers_eq_map]
          exact List.mem_map_of_mem hm
        rw [sortedMembers_eq_map, List.mem_map] at hin
        obtain ⟨n, hn, heq⟩ := hin
        obtain ⟨hname, hvalue⟩ := Prod.mk.inj heq
        obtain rfl := List.inj_on_of_nodup_map hnames hn hm hname
        exact (ih n hn (membersDistinct_iff.mp hvalues n hn)).mp hvalue.symm
    · rintro ⟨halike, hmembers⟩
      have hsorted : sortedMembers key members = sortedMembers key' members := by
        rw [sortedMembers_eq_map, sortedMembers_eq_map]
        exact List.map_congr_left fun m hm => Prod.ext rfl
          ((ih m hm (membersDistinct_iff.mp hvalues m hm)).mpr (hmembers m hm))
      rw [hsorted]
      have hid := List.map_insertionSort (r := fun a b : String × Json N => key a.1 ≤ key b.1)
        (s := fun a b : String × Json N => key' a.1 ≤ key' b.1) id (sortedMembers key' members)
      rw [List.map_id, List.map_id] at hid
      refine hid fun a ha b hb => ?_
      have hmem : ∀ m ∈ sortedMembers key' members, m.1 ∈ members.map Prod.fst := by
        intro m hm
        rw [← map_fst_sortedMembers key']
        exact List.mem_map_of_mem hm
      exact halike a.1 (hmem a ha) b.1 (hmem b hb)
  | _ => exact iff_of_true rfl trivial

end Json

/-! ### The text in two orders -/

namespace JsonText

open Json

variable {N M K L : Type} [LinearOrder K] [LinearOrder L] {key : String → K} {key' : String → L}

/-- The text of an image. -/
theorem render_map (literal : M → List Char) (f : N → M) (v : Json N) :
    render literal (v.map f) = render (literal ∘ f) v := by
  induction v using Json.induction with
  | arr items ih =>
    rw [map, render_arr, render_arr, mapItems_eq_map, List.map_map]
    have hitems : items.map (render literal ∘ map f) = items.map (render (literal ∘ f)) :=
      List.map_congr_left ih
    rw [hitems]
  | obj members ih =>
    rw [map, render_obj, render_obj, mapMembers_eq_map, List.map_map]
    have hmembers : members.map (renderMember literal ∘ fun m => (m.1, map f m.2))
        = members.map (renderMember (literal ∘ f)) := by
      refine List.map_congr_left fun m hm => ?_
      rw [Function.comp_apply, renderMember, renderMember, ih m hm]
    rw [hmembers]
  | bool b => cases b <;> rfl
  | _ => rfl

/-- The texts of a document by two keys are one text exactly if the literals are the same and the
names are ordered alike. -/
theorem render_sorted_eq_iff {a b : N → List Char} (hkey : Function.Injective key)
    (hkey' : Function.Injective key') {v : Json N} (hv : v.Distinct) (ha : Literals a v)
    (hb : Literals b v) :
    render a (v.sorted key) = render b (v.sorted key') ↔
      (∀ n ∈ v.numbers, a n = b n) ∧ v.OrderedAlike key key' := by
  constructor
  · intro h
    have htext : asText a (v.sorted key) = asText b (v.sorted key') :=
      render_injective (fun n hn => ha n (numbers_sorted key hn))
        (fun n hn => hb n (numbers_sorted key' hn)) (distinct_sorted key hv)
        (distinct_sorted key' hv) h
    rw [asText, asText, ← sorted_map, ← sorted_map] at htext
    have hb' := distinct_map (fun n => String.ofList (b n)) hv
    -- sorting the two once more by one key compares the literals alone
    have hsame := congrArg (sorted key) htext
    rw [sorted_sorted key hkey (distinct_map _ hv), sorted_sorted key' hkey hb'] at hsame
    refine ⟨?_, ?_⟩
    · rw [sorted_map, sorted_map, map_eq_map_iff] at hsame
      exact fun n hn => String.ofList_injective (hsame n ((mem_numbers_sorted key).mpr hn))
    · rw [hsame, sorted_eq_sorted_iff_orderedAlike hkey hkey' hb'] at htext
      exact orderedAlike_map.mp htext
  · rintro ⟨hliterals, halike⟩
    rw [(sorted_eq_sorted_iff_orderedAlike hkey hkey' hv).mpr halike]
    exact render_congr fun n hn => hliterals n (numbers_sorted key' hn)

end JsonText

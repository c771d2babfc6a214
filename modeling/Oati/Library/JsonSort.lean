import Mathlib.Data.List.Lex
import Mathlib.Data.List.Sort
import Oati.Library.JsonText

/-!
# Documents up to the order of members

Two documents are the same JSON value if they differ only in the order of the members of their
objects. Sorting the members by a key, at every depth, picks one document of each value.

* `Same`: equality as JSON values; `sorted`: the document with sorted members.
* `sorted_eq_sorted_iff`: documents with distinct names are the same value exactly if they are
  equal once sorted, for every injective key.
* `without`: the document without the members of one name, which respects `Same`.
-/

namespace Json

variable {N K : Type}

/-! ### Equality as JSON values -/

/-- Equality of two values of which one is no array and no object. -/
def scalarEq [DecidableEq N] (v w : Json N) : Bool :=
  match v, w with
  | .null, .null => true
  | .bool a, .bool b => a == b
  | .num m, .num n => m == n
  | .str s, .str t => s == t
  | _, _ => false

/-- The documents are the same JSON value: the same scalars, arrays of the same items, objects
with the same names and the same values, in any order. -/
def Same [DecidableEq N] (v w : Json N) : Prop := equalBy scalarEq v w = true

instance [DecidableEq N] (v w : Json N) : Decidable (Same v w) :=
  inferInstanceAs (Decidable (_ = true))

variable [DecidableEq N]

theorem same_arr {xs ys : List (Json N)} :
    Same (.arr xs) (.arr ys) ↔ List.Forall₂ Same xs ys := by
  rw [Same, equalBy]
  induction xs generalizing ys with
  | nil => cases ys <;> simp [equalItems]
  | cons x xs ih =>
    cases ys with
    | nil => simp [equalItems]
    | cons y ys =>
      rw [equalItems, Bool.and_eq_true, ih, List.forall₂_cons]
      exact Iff.rfl

theorem same_obj {ms ns : List (String × Json N)} :
    Same (.obj ms) (.obj ns) ↔ ms.length = ns.length ∧
      ∀ m ∈ ms, ∃ w, ns.lookup m.1 = some w ∧ Same m.2 w := by
  have hmembers : equalMembers scalarEq ms ns = true ↔
      ∀ m ∈ ms, ∃ w, ns.lookup m.1 = some w ∧ Same m.2 w := by
    induction ms with
    | nil => simp [equalMembers]
    | cons m rest ih =>
      rw [equalMembers, Bool.and_eq_true, ih, List.forall_mem_cons, Option.any_eq_true]
      exact Iff.rfl
  rw [Same, equalBy, Bool.and_eq_true, hmembers, beq_iff_eq]

/-! ### Sorted documents -/

section Sorted

variable [LinearOrder K]

mutual

/-- The document with the members of every object in the order of their keys. -/
def sorted (key : String → K) : Json N → Json N
  | .null => .null
  | .bool b => .bool b
  | .num n => .num n
  | .str s => .str s
  | .arr items => .arr (sortedItems key items)
  | .obj members => .obj ((sortedMembers key members).insertionSort fun a b => key a.1 ≤ key b.1)
termination_by structural v => v

/-- `sorted` on every item. -/
def sortedItems (key : String → K) : List (Json N) → List (Json N)
  | [] => []
  | v :: rest => sorted key v :: sortedItems key rest
termination_by structural items => items

/-- `sorted` on every value, the members as they stand. -/
def sortedMembers (key : String → K) : List (String × Json N) → List (String × Json N)
  | [] => []
  | (name, v) :: rest => (name, sorted key v) :: sortedMembers key rest
termination_by structural members => members

end

omit [DecidableEq N]

theorem sortedItems_eq_map (key : String → K) (items : List (Json N)) :
    sortedItems key items = items.map (sorted key) := by
  induction items with
  | nil => rfl
  | cons v rest ih => rw [sortedItems, ih, List.map_cons]

theorem sortedMembers_eq_map (key : String → K) (members : List (String × Json N)) :
    sortedMembers key members = members.map fun m => (m.1, sorted key m.2) := by
  induction members with
  | nil => rfl
  | cons m rest ih => rw [sortedMembers, ih, List.map_cons]

theorem map_fst_sortedMembers (key : String → K) (members : List (String × Json N)) :
    (sortedMembers key members).map Prod.fst = members.map Prod.fst := by
  rw [sortedMembers_eq_map, List.map_map]
  rfl

/-- Sorting keeps the numbers. -/
theorem mem_numbers_sorted (key : String → K) {v : Json N} {n : N} :
    n ∈ (v.sorted key).numbers ↔ n ∈ v.numbers := by
  induction v using Json.induction with
  | arr items ih =>
    rw [sorted, numbers, numbers, sortedItems_eq_map, mem_itemNumbers, mem_itemNumbers]
    simp only [List.mem_map, exists_exists_and_eq_and]
    exact exists_congr fun v => and_congr_right (ih v)
  | obj members ih =>
    rw [sorted, numbers, numbers, mem_memberNumbers, mem_memberNumbers]
    simp only [List.mem_insertionSort, sortedMembers_eq_map, List.mem_map, exists_exists_and_eq_and]
    exact exists_congr fun m => and_congr_right (ih m)
  | _ => exact Iff.rfl

theorem numbers_sorted (key : String → K) {v : Json N} {n : N} (h : n ∈ (v.sorted key).numbers) :
    n ∈ v.numbers := (mem_numbers_sorted key).mp h

/-- Sorting keeps names distinct. -/
theorem distinct_sorted (key : String → K) {v : Json N} (h : v.Distinct) :
    (v.sorted key).Distinct := by
  induction v using Json.induction with
  | arr items ih =>
    rw [sorted, Distinct, itemsDistinct_iff, sortedItems_eq_map]
    intro w hw
    obtain ⟨v, hv, rfl⟩ := List.mem_map.mp hw
    exact ih v hv (itemsDistinct_iff.mp h v hv)
  | obj members ih =>
    obtain ⟨hnodup, hvalues⟩ := h
    rw [sorted, Distinct, membersDistinct_iff]
    have hperm := List.perm_insertionSort
      (fun a b : String × Json N => key a.1 ≤ key b.1) (sortedMembers key members)
    refine ⟨?_, ?_⟩
    · rw [(hperm.map Prod.fst).nodup_iff, map_fst_sortedMembers]
      exact hnodup
    · intro w hw
      rw [hperm.mem_iff, sortedMembers_eq_map, List.mem_map] at hw
      obtain ⟨m, hm, rfl⟩ := hw
      exact ih m hm (membersDistinct_iff.mp hvalues m hm)
  | _ => trivial

/-- The members in the order of their keys. -/
theorem pairwise_insertionSort (key : String → K) (members : List (String × Json N)) :
    (members.insertionSort fun a b => key a.1 ≤ key b.1).Pairwise fun a b => key a.1 ≤ key b.1 := by
  have htrans : IsTrans (String × Json N) fun a b => key a.1 ≤ key b.1 :=
    ⟨fun _ _ _ => le_trans⟩
  have htotal : Std.Total fun a b : String × Json N => key a.1 ≤ key b.1 :=
    ⟨fun _ _ => le_total _ _⟩
  exact List.pairwise_insertionSort _ members

/-- Members of distinct names have one order: two listings of the same members are sorted to the
same list. -/
theorem insertionSort_eq_iff {key : String → K} (hkey : Function.Injective key)
    {ms ns : List (String × Json N)} (hms : (ms.map Prod.fst).Nodup) :
    (ms.insertionSort fun a b => key a.1 ≤ key b.1)
      = (ns.insertionSort fun a b => key a.1 ≤ key b.1) ↔ ms.Perm ns := by
  have hm := List.perm_insertionSort (fun a b : String × Json N => key a.1 ≤ key b.1) ms
  have hn := List.perm_insertionSort (fun a b : String × Json N => key a.1 ≤ key b.1) ns
  constructor
  · intro h
    exact hm.symm.trans (h ▸ hn)
  · intro h
    refine (hm.trans (h.trans hn.symm)).eq_of_pairwise ?_ (pairwise_insertionSort key ms)
      (pairwise_insertionSort key ns)
    intro a b ha hb hab hba
    have hname : a.1 = b.1 := hkey (le_antisymm hab hba)
    exact List.inj_on_of_nodup_map hms (hm.mem_iff.mp ha)
      (h.mem_iff.mpr (hn.mem_iff.mp hb)) hname

end Sorted

/-! ### Members of distinct names -/

section Members

omit [DecidableEq N]

theorem lookup_of_mem {members : List (String × Json N)} (h : (members.map Prod.fst).Nodup)
    {m : String × Json N} (hm : m ∈ members) : members.lookup m.1 = some m.2 := by
  induction members with
  | nil => cases hm
  | cons first rest ih =>
    obtain ⟨name, v⟩ := first
    rw [List.map_cons, List.nodup_cons] at h
    rcases List.mem_cons.mp hm with rfl | hrest
    · exact List.lookup_cons_self
    · have hne : m.1 ≠ name := by
        intro heq
        have hname : m.1 ∈ rest.map Prod.fst := List.mem_map_of_mem hrest
        exact h.1 (heq ▸ hname)
      rw [List.lookup_cons_of_ne hne]
      exact ih h.2 hrest

/-- A list of as many members, each of which is in the other list, is a listing of it. -/
theorem perm_of_subset {ms ns : List (String × Json N)} (hms : (ms.map Prod.fst).Nodup)
    (hlength : ms.length = ns.length) (h : ∀ m ∈ ms, m ∈ ns) : ms.Perm ns :=
  have hnodup : ms.Nodup := hms.of_map
  (hnodup.subperm h).perm_of_length_le hlength.ge

end Members

section Iff

variable [LinearOrder K] {key : String → K}

/-- Objects are the same exactly if their members are the same up to order, once the values
are sorted. -/
theorem same_obj_iff_perm (key : String → K) {ms ns : List (String × Json N)}
    (hms : (ms.map Prod.fst).Nodup) (hns : (ns.map Prod.fst).Nodup)
    (ih : ∀ m ∈ ms, ∀ n ∈ ns, sorted key m.2 = sorted key n.2 ↔ Same m.2 n.2) :
    Same (.obj ms) (.obj ns) ↔ (sortedMembers key ms).Perm (sortedMembers key ns) := by
  have hnames : ((sortedMembers key ms).map Prod.fst).Nodup := by
    rwa [map_fst_sortedMembers]
  rw [same_obj]
  constructor
  · rintro ⟨hlength, hmembers⟩
    refine perm_of_subset hnames ?_ ?_
    · simpa [sortedMembers_eq_map] using hlength
    · intro m hm
      rw [sortedMembers_eq_map, List.mem_map] at hm ⊢
      obtain ⟨⟨name, v⟩, hv, rfl⟩ := hm
      obtain ⟨w, hw, hsame⟩ := hmembers _ hv
      have hmem := List.mem_of_lookup_eq_some hw
      exact ⟨(name, w), hmem, Prod.ext rfl ((ih _ hv _ hmem).mpr hsame).symm⟩
  · intro hperm
    refine ⟨?_, ?_⟩
    · simpa [sortedMembers_eq_map] using hperm.length_eq
    · intro m hm
      have hin : (m.1, sorted key m.2) ∈ sortedMembers key ns := by
        rw [← hperm.mem_iff, sortedMembers_eq_map]
        exact List.mem_map_of_mem hm
      rw [sortedMembers_eq_map, List.mem_map] at hin
      obtain ⟨⟨name, w⟩, hw, heq⟩ := hin
      obtain ⟨hname, hvalue⟩ := Prod.mk.inj heq
      dsimp only at hname hvalue
      refine ⟨w, ?_, (ih _ hm _ hw).mp hvalue.symm⟩
      rw [← hname]
      exact lookup_of_mem hns hw

/-- The sorted document determines the JSON value, and the value the sorted document. Induction
on the first document: arrays item by item, objects by their listings. -/
theorem sorted_eq_sorted_iff (hkey : Function.Injective key) {v w : Json N} (hv : v.Distinct)
    (hw : w.Distinct) : sorted key v = sorted key w ↔ Same v w := by
  induction v using Json.induction generalizing w with
  | arr items ih =>
    cases w with
    | arr ys =>
      have hitems := itemsDistinct_iff.mp hv
      have hys := itemsDistinct_iff.mp hw
      rw [sorted, sorted, arr.injEq, sortedItems_eq_map, sortedItems_eq_map, same_arr,
        ← List.forall₂_eq_eq_eq, List.forall₂_map_left_iff, List.forall₂_map_right_iff]
      clear hv hw
      induction items generalizing ys with
      | nil => cases ys <;> simp
      | cons x rest ihrest =>
        cases ys with
        | nil => simp
        | cons y ys =>
          rw [List.forall_mem_cons] at hitems hys ih
          rw [List.forall₂_cons, List.forall₂_cons]
          exact and_congr (ih.1 hitems.1 hys.1) (ihrest ih.2 ys hitems.2 hys.2)
    | _ => simp [sorted, Same, equalBy, scalarEq]
  | obj ms ih =>
    cases w with
    | obj ns =>
      obtain ⟨hms, hvalues⟩ := hv
      obtain ⟨hns, hvalues'⟩ := hw
      have hnames : ((sortedMembers key ms).map Prod.fst).Nodup := by
        rwa [map_fst_sortedMembers]
      rw [sorted, sorted, obj.injEq, insertionSort_eq_iff hkey hnames,
        same_obj_iff_perm key hms hns]
      intro m hm n hn
      exact ih m hm (membersDistinct_iff.mp hvalues m hm) (membersDistinct_iff.mp hvalues' n hn)
    | _ => simp [sorted, Same, equalBy, scalarEq]
  | _ => cases w <;> simp [sorted, Same, equalBy, scalarEq]

end Iff

/-! ### Documents without the members of one name -/

section Without

omit [DecidableEq N]

mutual

/-- The document without the members called `name`, at any depth. -/
def without (name : String) : Json N → Json N
  | .null => .null
  | .bool b => .bool b
  | .num n => .num n
  | .str s => .str s
  | .arr items => .arr (withoutItems name items)
  | .obj members => .obj (withoutMembers name members)
termination_by structural v => v

/-- `without` on every item. -/
def withoutItems (name : String) : List (Json N) → List (Json N)
  | [] => []
  | v :: rest => without name v :: withoutItems name rest
termination_by structural items => items

/-- The members of other names, with `without` on their values. -/
def withoutMembers (name : String) : List (String × Json N) → List (String × Json N)
  | [] => []
  | (key, v) :: rest =>
    if key = name then withoutMembers name rest
    else (key, without name v) :: withoutMembers name rest
termination_by structural members => members

end

theorem withoutItems_eq_map (name : String) (items : List (Json N)) :
    withoutItems name items = items.map (without name) := by
  induction items with
  | nil => rfl
  | cons v rest ih => rw [withoutItems, ih, List.map_cons]

theorem withoutMembers_eq_map (name : String) (members : List (String × Json N)) :
    withoutMembers name members
      = (members.filter fun m => m.1 != name).map fun m => (m.1, without name m.2) := by
  induction members with
  | nil => rfl
  | cons m rest ih =>
    by_cases h : m.1 = name <;> simp [withoutMembers, h, ih]

theorem map_fst_withoutMembers (name : String) (members : List (String × Json N)) :
    (withoutMembers name members).map Prod.fst
      = (members.map Prod.fst).filter (· != name) := by
  rw [withoutMembers_eq_map, List.map_map, List.filter_map]
  rfl

theorem lookup_withoutMembers {name key : String} (h : key ≠ name)
    (members : List (String × Json N)) :
    (withoutMembers name members).lookup key = (members.lookup key).map (without name) := by
  induction members with
  | nil => rfl
  | cons m rest ih =>
    obtain ⟨k, v⟩ := m
    by_cases hk : k = name
    · rw [withoutMembers, if_pos hk, ih, List.lookup_cons_of_ne (hk ▸ h)]
    · rw [withoutMembers, if_neg hk]
      by_cases hkey : key = k
      · rw [hkey, List.lookup_cons_self, List.lookup_cons_self, Option.map_some]
      · rw [List.lookup_cons_of_ne hkey, List.lookup_cons_of_ne hkey, ih]

/-- Leaving out members keeps names distinct. -/
theorem distinct_without (name : String) {v : Json N} (h : v.Distinct) :
    (v.without name).Distinct := by
  induction v using Json.induction with
  | arr items ih =>
    rw [without, Distinct, itemsDistinct_iff, withoutItems_eq_map]
    intro w hw
    obtain ⟨v, hv, rfl⟩ := List.mem_map.mp hw
    exact ih v hv (itemsDistinct_iff.mp h v hv)
  | obj members ih =>
    obtain ⟨hnodup, hvalues⟩ := h
    rw [without, Distinct, map_fst_withoutMembers, membersDistinct_iff]
    refine ⟨hnodup.filter _, ?_⟩
    intro m hm
    rw [withoutMembers_eq_map, List.mem_map] at hm
    obtain ⟨m', hm', rfl⟩ := hm
    have hmem := List.mem_of_mem_filter hm'
    exact ih m' hmem (membersDistinct_iff.mp hvalues m' hmem)
  | _ => trivial

/-- The numbers that are left are among those there were. -/
theorem numbers_without (name : String) {v : Json N} {n : N} (h : n ∈ (v.without name).numbers) :
    n ∈ v.numbers := by
  induction v using Json.induction with
  | arr items ih =>
    rw [without, numbers, withoutItems_eq_map, mem_itemNumbers] at h
    obtain ⟨w, hw, hn⟩ := h
    obtain ⟨v, hv, rfl⟩ := List.mem_map.mp hw
    rw [numbers, mem_itemNumbers]
    exact ⟨v, hv, ih v hv hn⟩
  | obj members ih =>
    rw [without, numbers, withoutMembers_eq_map, mem_memberNumbers] at h
    obtain ⟨w, hw, hn⟩ := h
    obtain ⟨m, hm, rfl⟩ := List.mem_map.mp hw
    have hmem := List.mem_of_mem_filter hm
    rw [numbers, mem_memberNumbers]
    exact ⟨m, hmem, ih m hmem hn⟩
  | _ => exact h

/-- A document without members of that name stays as it is. -/
theorem without_of_notMem {name : String} {v : Json N} (h : name ∉ v.names) :
    v.without name = v := by
  induction v using Json.induction with
  | arr items ih =>
    rw [without, withoutItems_eq_map]
    have hitems : ∀ v ∈ items, v.without name = v := by
      intro v hv
      refine ih v hv fun hmem => h ?_
      rw [names, mem_itemNames]
      exact ⟨v, hv, hmem⟩
    exact congrArg arr ((List.map_congr_left hitems).trans (List.map_id _))
  | obj members ih =>
    rw [names, mem_memberNames] at h
    have hkept : (members.filter fun m => m.1 != name) = members := by
      refine List.filter_eq_self.mpr fun m hm => ?_
      exact bne_iff_ne.mpr fun heq => h ⟨m, hm, .inl heq.symm⟩
    have hvalues : (members.map fun m => (m.1, without name m.2)) = members.map id :=
      List.map_congr_left fun m hm =>
        Prod.ext rfl (ih m hm fun hmem => h ⟨m, hm, .inr hmem⟩)
    rw [without, withoutMembers_eq_map, hkept, hvalues, List.map_id]
  | _ => rfl

end Without

/-! ### Depth -/

section Depth

omit [DecidableEq N]

mutual

/-- How many arrays and objects lie within each other. -/
def depth : Json N → ℕ
  | .null => 0
  | .bool _ => 0
  | .num _ => 0
  | .str _ => 0
  | .arr items => itemsDepth items + 1
  | .obj members => membersDepth members + 1
termination_by structural v => v

/-- The largest depth of an item. -/
def itemsDepth : List (Json N) → ℕ
  | [] => 0
  | v :: rest => max (depth v) (itemsDepth rest)
termination_by structural items => items

/-- The largest depth of a value of a member. -/
def membersDepth : List (String × Json N) → ℕ
  | [] => 0
  | (_, v) :: rest => max (depth v) (membersDepth rest)
termination_by structural members => members

end

theorem depth_lt_of_mem_items {items : List (Json N)} {v : Json N} (h : v ∈ items) :
    v.depth < (arr items).depth := by
  rw [depth]
  induction items with
  | nil => cases h
  | cons w rest ih =>
    rw [itemsDepth]
    rcases List.mem_cons.mp h with rfl | hrest
    · omega
    · have := ih hrest
      omega

theorem depth_lt_of_mem_members {members : List (String × Json N)} {m : String × Json N}
    (h : m ∈ members) : m.2.depth < (obj members).depth := by
  rw [depth]
  induction members with
  | nil => cases h
  | cons n rest ih =>
    rw [membersDepth]
    rcases List.mem_cons.mp h with rfl | hrest
    · omega
    · have := ih hrest
      omega

end Depth

/-- The same values have the same names. -/
theorem names_perm_of_same {ms ns : List (String × Json N)} (hms : (ms.map Prod.fst).Nodup)
    (h : Same (.obj ms) (.obj ns)) : (ms.map Prod.fst).Perm (ns.map Prod.fst) := by
  obtain ⟨hlength, hmembers⟩ := same_obj.mp h
  refine (hms.subperm fun name hname => ?_).perm_of_length_le (by simp [hlength])
  obtain ⟨m, hm, rfl⟩ := List.mem_map.mp hname
  obtain ⟨w, hw, -⟩ := hmembers m hm
  exact List.mem_map.mpr ⟨(m.1, w), List.mem_of_lookup_eq_some hw, rfl⟩

/-- The same value is left of the same value. -/
theorem same_without (name : String) {v w : Json N} (hv : v.Distinct) (h : Same v w) :
    Same (v.without name) (w.without name) := by
  induction v using Json.induction generalizing w with
  | arr items ih =>
    cases w with
    | arr ys =>
      have hitems := itemsDistinct_iff.mp hv
      rw [same_arr] at h
      rw [without, without, same_arr, withoutItems_eq_map, withoutItems_eq_map,
        List.forall₂_map_left_iff, List.forall₂_map_right_iff]
      clear hv
      induction h with
      | nil => exact .nil
      | cons hxy _ ihrest =>
        rw [List.forall_mem_cons] at ih hitems
        exact .cons (ih.1 hitems.1 hxy) (ihrest ih.2 hitems.2)
    | _ => simp [Same, equalBy, scalarEq] at h
  | obj ms ih =>
    cases w with
    | obj ns =>
      obtain ⟨hms, hvalues⟩ := hv
      have hnames := names_perm_of_same hms h
      obtain ⟨-, hmembers⟩ := same_obj.mp h
      rw [without, without, same_obj]
      refine ⟨?_, ?_⟩
      · have hlength := (hnames.filter (· != name)).length_eq
        rwa [← map_fst_withoutMembers, ← map_fst_withoutMembers, List.length_map,
          List.length_map] at hlength
      · intro m hm
        rw [withoutMembers_eq_map, List.mem_map] at hm
        obtain ⟨m', hm', rfl⟩ := hm
        obtain ⟨hmem, hne⟩ := List.mem_filter.mp hm'
        obtain ⟨w, hw, hsame⟩ := hmembers m' hmem
        refine ⟨w.without name, ?_, ih m' hmem (membersDistinct_iff.mp hvalues m' hmem) hsame⟩
        rw [lookup_withoutMembers (by simpa using hne), hw, Option.map_some]
    | _ => simp [Same, equalBy, scalarEq] at h
  | _ => cases w <;> exact h

end Json

/-! ### Objects as functions -/

section Lookup

variable {N : Type}

/-- A name of an object has a value. -/
theorem Json.exists_lookup_of_mem {members : List (String × Json N)} {name : String}
    (h : name ∈ members.map Prod.fst) (hnodup : (members.map Prod.fst).Nodup) :
    ∃ v, (name, v) ∈ members ∧ members.lookup name = some v := by
  obtain ⟨m, hm, rfl⟩ := List.mem_map.mp h
  exact ⟨m.2, hm, Json.lookup_of_mem hnodup hm⟩

/-- Objects of distinct names are the same value exactly if they have the same values under every
name. -/
theorem Json.same_obj_iff_lookup [DecidableEq N] {ms ns : List (String × Json N)} (hms : (ms.map Prod.fst).Nodup)
    (hns : (ns.map Prod.fst).Nodup) :
    Same (.obj ms) (.obj ns) ↔ ∀ name, Option.Rel Same (ms.lookup name) (ns.lookup name) := by
  have hnone : ∀ {members : List (String × Json N)} {name : String},
      name ∉ members.map Prod.fst → members.lookup name = none := by
    intro members name h
    rw [List.lookup_eq_none_iff]
    intro m hm
    refine bne_iff_ne.mpr ?_
    rintro rfl
    exact h (List.mem_map_of_mem hm)
  constructor
  · intro h name
    have hperm := names_perm_of_same hms h
    obtain ⟨-, hmembers⟩ := same_obj.mp h
    by_cases hname : name ∈ ms.map Prod.fst
    · obtain ⟨v, hmem, hv⟩ := exists_lookup_of_mem hname hms
      obtain ⟨w, hw, hsame⟩ := hmembers _ hmem
      rw [hv, hw]
      exact .some hsame
    · rw [hnone hname, hnone (fun h => hname (hperm.mem_iff.mpr h))]
      exact .none
  · intro h
    have hmem : ∀ name, name ∈ ms.map Prod.fst ↔ name ∈ ns.map Prod.fst := by
      intro name
      have hrel := h name
      constructor
      · intro hname
        obtain ⟨v, -, hv⟩ := exists_lookup_of_mem hname hms
        by_contra hno
        rw [hv, hnone hno] at hrel
        cases hrel
      · intro hname
        obtain ⟨w, -, hw⟩ := exists_lookup_of_mem hname hns
        by_contra hno
        rw [hw, hnone hno] at hrel
        cases hrel
    refine same_obj.mpr ⟨?_, ?_⟩
    · have hlength := ((List.perm_ext_iff_of_nodup hms hns).mpr hmem).length_eq
      rwa [List.length_map, List.length_map] at hlength
    · intro m hm
      have hrel := h m.1
      rw [lookup_of_mem hms hm] at hrel
      generalize ns.lookup m.1 = w at hrel
      cases hrel with
      | some hsame => exact ⟨_, rfl, hsame⟩

end Lookup

/-- Replacing the numbers of the same values gives the same values. -/
theorem Json.same_map {N M : Type} [DecidableEq N] [DecidableEq M] (f : N → M) {v w : Json N}
    (h : Same v w) : Same (v.map f) (w.map f) := by
  induction v using Json.induction generalizing w with
  | num n =>
    cases w with
    | num n' =>
      have hn : n = n' := by simpa [Same, equalBy, scalarEq] using h
      simp [Same, equalBy, scalarEq, map, hn]
    | _ => simp [Same, equalBy, scalarEq] at h
  | arr items ih =>
    cases w with
    | arr ys =>
      rw [same_arr] at h
      rw [map, map, same_arr, mapItems_eq_map, mapItems_eq_map, List.forall₂_map_left_iff,
        List.forall₂_map_right_iff]
      induction h with
      | nil => exact .nil
      | cons hxy _ ihrest =>
        rw [List.forall_mem_cons] at ih
        exact .cons (ih.1 hxy) (ihrest ih.2)
    | _ => simp [Same, equalBy, scalarEq] at h
  | obj ms ih =>
    cases w with
    | obj ns =>
      obtain ⟨hlength, hmembers⟩ := same_obj.mp h
      rw [map, map, same_obj, mapMembers_eq_map]
      refine ⟨by simpa [mapMembers_eq_map] using hlength, ?_⟩
      intro m hm
      obtain ⟨m', hm', rfl⟩ := List.mem_map.mp hm
      obtain ⟨w, hw, hsame⟩ := hmembers m' hm'
      exact ⟨w.map f, by rw [lookup_mapMembers, hw, Option.map_some], ih m' hm' hsame⟩
    | _ => simp [Same, equalBy, scalarEq] at h
  | _ => cases w <;> exact h

/-! ### Parsed documents -/

namespace JsonText

variable {N : Type}

theorem mem_insertMember {members : List (String × Json N)} {key : String} {v : Json N}
    {m : String × Json N} (h : m ∈ insertMember members key v) : m ∈ members ∨ m.2 = v := by
  induction members with
  | nil =>
    obtain rfl := List.mem_singleton.mp h
    exact .inr rfl
  | cons first rest ih =>
    obtain ⟨k, w⟩ := first
    rw [insertMember] at h
    split_ifs at h with hk
    · rcases List.mem_cons.mp h with rfl | hrest
      · exact .inr rfl
      · exact .inl (List.mem_cons_of_mem _ hrest)
    · rcases List.mem_cons.mp h with rfl | hrest
      · exact .inl List.mem_cons_self
      · exact (ih hrest).imp_left (List.mem_cons_of_mem _)

theorem map_fst_insertMember (members : List (String × Json N)) (key : String) (v : Json N) :
    (insertMember members key v).map Prod.fst
      = if key ∈ members.map Prod.fst then members.map Prod.fst
        else members.map Prod.fst ++ [key] := by
  induction members with
  | nil => rfl
  | cons first rest ih =>
    obtain ⟨k, w⟩ := first
    rw [insertMember]
    by_cases hk : k = key
    · simp [hk]
    · rw [if_neg hk, List.map_cons, ih]
      have hiff : key ∈ k :: rest.map Prod.fst ↔ key ∈ rest.map Prod.fst := by
        rw [List.mem_cons, or_iff_right (Ne.symm hk)]
      simp only [List.map_cons, hiff]
      split_ifs <;> rfl

theorem nodup_insertMember {members : List (String × Json N)} {key : String} {v : Json N}
    (h : (members.map Prod.fst).Nodup) : ((insertMember members key v).map Prod.fst).Nodup := by
  rw [map_fst_insertMember]
  split_ifs with hkey
  · exact h
  · exact h.append (List.nodup_singleton key) (by simpa using hkey)

/-- A member that is set is found, and the others stay. -/
theorem lookup_insertMember (members : List (String × Json N)) (key : String) (v : Json N)
    (name : String) :
    (insertMember members key v).lookup name
      = if name = key then some v else members.lookup name := by
  induction members with
  | nil =>
    rw [insertMember]
    split_ifs with hname
    · rw [hname, List.lookup_cons_self]
    · rw [List.lookup_cons_of_ne hname]
  | cons first rest ih =>
    obtain ⟨k, w⟩ := first
    rw [insertMember]
    by_cases hk : k = key
    · rw [if_pos hk]
      split_ifs with hname
      · rw [hname, hk, List.lookup_cons_self]
      · rw [List.lookup_cons_of_ne (hk ▸ hname), List.lookup_cons_of_ne (hk ▸ hname)]
    · rw [if_neg hk]
      by_cases hkey : name = k
      · rw [hkey, List.lookup_cons_self, List.lookup_cons_self, if_neg hk]
      · rw [List.lookup_cons_of_ne hkey, List.lookup_cons_of_ne hkey, ih]

/-- The last member of a text is set last. -/
theorem collect_append_singleton (members : List (String × Json N)) (m : String × Json N) :
    collect (members ++ [m]) = insertMember (collect members) m.1 m.2 := by
  rw [collect, List.foldl_append]
  rfl

/-- An object keeps one member of each name. -/
theorem nodup_collect (members : List (String × Json N)) :
    ((collect members).map Prod.fst).Nodup := by
  induction members using List.reverseRecOn with
  | nil => exact List.nodup_nil
  | append_singleton members m ih =>
    rw [collect_append_singleton]
    exact nodup_insertMember ih

end JsonText

/-- Replacing the numbers keeps names distinct. -/
theorem Json.distinct_map {N M : Type} (f : N → M) {v : Json N} (h : v.Distinct) :
    (v.map f).Distinct := by
  induction v using Json.induction with
  | arr items ih =>
    rw [map, Distinct, itemsDistinct_iff, mapItems_eq_map]
    intro w hw
    obtain ⟨v, hv, rfl⟩ := List.mem_map.mp hw
    exact ih v hv (itemsDistinct_iff.mp h v hv)
  | obj members ih =>
    obtain ⟨hnodup, hvalues⟩ := h
    rw [map, Distinct, mapMembers_eq_map, membersDistinct_iff, List.map_map]
    refine ⟨hnodup, ?_⟩
    intro m hm
    obtain ⟨m', hm', rfl⟩ := List.mem_map.mp hm
    exact ih m' hm' (membersDistinct_iff.mp hvalues m' hm')
  | _ => trivial

/-- The numbers of the image. -/
theorem Json.mem_numbers_map {N M : Type} {f : N → M} {v : Json N} {n : N} (h : n ∈ v.numbers) :
    f n ∈ (v.map f).numbers := by
  induction v using Json.induction with
  | num n' =>
    obtain rfl := List.mem_singleton.mp h
    exact List.mem_singleton_self _
  | arr items ih =>
    rw [numbers, mem_itemNumbers] at h
    obtain ⟨v, hv, hn⟩ := h
    rw [map, numbers, mapItems_eq_map, mem_itemNumbers]
    exact ⟨_, List.mem_map_of_mem hv, ih v hv hn⟩
  | obj members ih =>
    rw [numbers, mem_memberNumbers] at h
    obtain ⟨m, hm, hn⟩ := h
    rw [map, numbers, mapMembers_eq_map, mem_memberNumbers]
    exact ⟨_, List.mem_map_of_mem hm, ih m hm hn⟩
  | _ => cases h

/-- Every number of the image is the image of a number. -/
theorem Json.exists_of_mem_numbers_map {N M : Type} {f : N → M} {v : Json N} {m : M}
    (h : m ∈ (v.map f).numbers) : ∃ n ∈ v.numbers, m = f n := by
  induction v using Json.induction with
  | num n => exact ⟨n, List.mem_singleton_self n, List.mem_singleton.mp h⟩
  | arr items ih =>
    rw [map, numbers, mapItems_eq_map, mem_itemNumbers] at h
    obtain ⟨w, hw, hm⟩ := h
    obtain ⟨v, hv, rfl⟩ := List.mem_map.mp hw
    obtain ⟨n, hn, hmn⟩ := ih v hv hm
    refine ⟨n, ?_, hmn⟩
    rw [numbers, mem_itemNumbers]
    exact ⟨v, hv, hn⟩
  | obj members ih =>
    rw [map, numbers, mapMembers_eq_map, mem_memberNumbers] at h
    obtain ⟨w, hw, hm⟩ := h
    obtain ⟨v, hv, rfl⟩ := List.mem_map.mp hw
    obtain ⟨n, hn, hmn⟩ := ih v hv hm
    refine ⟨n, ?_, hmn⟩
    rw [numbers, mem_memberNumbers]
    exact ⟨v, hv, hn⟩
  | _ => cases h

/-- Replacing the numbers twice. -/
theorem Json.map_map {N M L : Type} (f : N → M) (g : M → L) (v : Json N) :
    (v.map f).map g = v.map (g ∘ f) := by
  induction v using Json.induction with
  | arr items ih =>
    rw [map, map, map, mapItems_eq_map, mapItems_eq_map, mapItems_eq_map, List.map_map]
    exact congrArg arr (List.map_congr_left ih)
  | obj members ih =>
    rw [map, map, map, mapMembers_eq_map, mapMembers_eq_map, mapMembers_eq_map, List.map_map]
    exact congrArg obj (List.map_congr_left fun m hm => Prod.ext rfl (ih m hm))
  | _ => rfl

/-- The image depends on the images of the numbers alone. -/
theorem Json.map_congr {N M : Type} {f g : N → M} {v : Json N}
    (h : ∀ n ∈ v.numbers, f n = g n) : v.map f = v.map g := by
  induction v using Json.induction with
  | num n => rw [map, map, h n (by simp [numbers])]
  | arr items ih =>
    rw [map, map, mapItems_eq_map, mapItems_eq_map]
    refine congrArg arr (List.map_congr_left fun v hv => ih v hv fun n hn => h n ?_)
    rw [numbers, mem_itemNumbers]
    exact ⟨v, hv, hn⟩
  | obj members ih =>
    rw [map, map, mapMembers_eq_map, mapMembers_eq_map]
    refine congrArg obj (List.map_congr_left fun m hm =>
      Prod.ext rfl (ih m hm fun n hn => h n ?_))
    rw [numbers, mem_memberNumbers]
    exact ⟨m, hm, hn⟩
  | _ => rfl

/-- Replacing every number by itself changes nothing. -/
theorem Json.map_id {N : Type} (v : Json N) : v.map id = v := by
  induction v using Json.induction with
  | arr items ih =>
    rw [map, mapItems_eq_map]
    exact congrArg arr ((List.map_congr_left ih).trans (List.map_id _))
  | obj members ih =>
    rw [map, mapMembers_eq_map]
    have hmembers : (members.map fun m => (m.1, map id m.2)) = members.map id :=
      List.map_congr_left fun m hm => Prod.ext rfl (ih m hm)
    rw [hmembers, List.map_id]
  | _ => rfl

import Mathlib.Data.List.Basic

/-!
# JSON values

JSON documents over an arbitrary type `N` of numbers: a language that keeps the number
literals, one that keeps doubles and one that distinguishes integers from floats are the same
tree with different leaves. Members are an association list in document order; `member` is the
first one of a name.
-/

/-- A JSON value whose numbers are of type `N`. -/
inductive Json (N : Type) where
  | null
  | bool (b : Bool)
  | num (n : N)
  | str (s : String)
  | arr (items : List (Json N))
  | obj (members : List (String × Json N))
  deriving Repr, Inhabited

namespace Json

variable {N M : Type}

/-- Induction over a document: arrays assume the claim of their items, objects of the values of
their members. -/
@[elab_as_elim]
theorem induction {P : Json N → Prop} (null : P .null) (bool : ∀ b, P (.bool b))
    (num : ∀ n, P (.num n)) (str : ∀ s, P (.str s))
    (arr : ∀ items, (∀ v ∈ items, P v) → P (.arr items))
    (obj : ∀ members, (∀ m ∈ members, P m.2) → P (.obj members)) (v : Json N) : P v :=
  v.rec (motive_1 := P) (motive_2 := fun items => ∀ v ∈ items, P v)
    (motive_3 := fun members => ∀ m ∈ members, P m.2) (motive_4 := fun m => P m.2)
    null bool num str arr obj (by simp)
    (fun _ _ hv hrest => List.forall_mem_cons.mpr ⟨hv, hrest⟩) (by simp)
    (fun _ _ hm hrest => List.forall_mem_cons.mpr ⟨hm, hrest⟩) (fun _ _ hv => hv)

/-- The own member `key` of an object; every other value has none. -/
def member (v : Json N) (key : String) : Option (Json N) :=
  match v with
  | .obj members => members.lookup key
  | _ => none

@[simp] theorem member_obj (members : List (String × Json N)) (key : String) :
    (Json.obj members).member key = members.lookup key := rfl

/-- The members of an object. -/
def members? (v : Json N) : Option (List (String × Json N)) :=
  match v with
  | .obj members => some members
  | _ => none

@[simp] theorem members?_eq_some {v : Json N} {members : List (String × Json N)} :
    v.members? = some members ↔ v = .obj members := by
  cases v <;> simp [members?]

/-- The value of a string. -/
def string? (v : Json N) : Option String :=
  match v with
  | .str s => some s
  | _ => none

@[simp] theorem string?_eq_some {v : Json N} {s : String} :
    v.string? = some s ↔ v = .str s := by
  cases v <;> simp [string?]

/-! ### Equality up to a comparison of the other values -/

section BEq

variable [BEq N]

mutual

/-- Equality of documents, with the members in the same order. -/
def beq : Json N → Json N → Bool
  | .null, .null => true
  | .bool a, .bool b => a == b
  | .num m, .num n => m == n
  | .str s, .str t => s == t
  | .arr xs, .arr ys => beqItems xs ys
  | .obj ms, .obj ns => beqMembers ms ns
  | _, _ => false
termination_by structural v => v

/-- `beq` on every item. -/
def beqItems : List (Json N) → List (Json N) → Bool
  | [], ys => ys.isEmpty
  | x :: xs, ys =>
    match ys with
    | [] => false
    | y :: ys => beq x y && beqItems xs ys
termination_by structural xs => xs

/-- `beq` on every member. -/
def beqMembers : List (String × Json N) → List (String × Json N) → Bool
  | [], ns => ns.isEmpty
  | (key, v) :: rest, ns =>
    match ns with
    | [] => false
    | (key', w) :: ns => key == key' && beq v w && beqMembers rest ns
termination_by structural ms => ms

end

instance : BEq (Json N) := ⟨beq⟩

end BEq

mutual

/-- Arrays are equal item by item, objects member by member in any order; a pair of any other
two values is compared by `atom`. -/
def equalBy (atom : Json N → Json N → Bool) : Json N → Json N → Bool
  | .arr xs, .arr ys => equalItems atom xs ys
  | .obj ms, .obj ns => ms.length == ns.length && equalMembers atom ms ns
  | v, w => atom v w
termination_by structural v => v

/-- Two arrays of the same length, equal item by item. -/
def equalItems (atom : Json N → Json N → Bool) : List (Json N) → List (Json N) → Bool
  | [], ys => ys.isEmpty
  | x :: xs, ys =>
    match ys with
    | [] => false
    | y :: ys => equalBy atom x y && equalItems atom xs ys
termination_by structural xs => xs

/-- Each member is equal to the other object's of that name. -/
def equalMembers (atom : Json N → Json N → Bool) : List (String × Json N) →
    List (String × Json N) → Bool
  | [], _ => true
  | (key, v) :: rest, ns => (ns.lookup key).any (equalBy atom v) && equalMembers atom rest ns
termination_by structural ms => ms

end

/-- Equality up to a finer comparison implies equality up to a coarser one. -/
theorem equalBy_mono {p q : Json N → Json N → Bool} (hpq : ∀ v w, p v w = true → q v w = true)
    {v w : Json N} (h : equalBy p v w = true) : equalBy q v w = true := by
  induction v using Json.induction generalizing w with
  | arr items ih =>
    cases w with
    | arr ys =>
      have hitems : ∀ ys, equalItems p items ys = true → equalItems q items ys = true := by
        clear h
        induction items with
        | nil => exact fun ys hys => by simpa [equalItems] using hys
        | cons x rest ihrest =>
          obtain ⟨hx, hrest⟩ := List.forall_mem_cons.mp ih
          intro ys hys
          cases ys with
          | nil => simp [equalItems] at hys
          | cons y ys =>
            simp only [equalItems, Bool.and_eq_true] at hys ⊢
            exact ⟨hx hys.1, ihrest hrest ys hys.2⟩
      exact hitems ys h
    | _ => exact hpq _ _ h
  | obj members ih =>
    cases w with
    | obj ns =>
      have hmembers : ∀ ns, equalMembers p members ns = true → equalMembers q members ns = true := by
        clear h
        induction members with
        | nil => exact fun _ _ => rfl
        | cons m rest ihrest =>
          obtain ⟨hm, hrest⟩ := List.forall_mem_cons.mp ih
          intro ns hns
          simp only [equalMembers, Bool.and_eq_true, Option.any_eq_true] at hns ⊢
          obtain ⟨⟨w, hw, hmw⟩, hns⟩ := hns
          exact ⟨⟨w, hw, hm hmw⟩, ihrest hrest ns hns⟩
      simp only [equalBy, Bool.and_eq_true] at h ⊢
      exact ⟨h.1, hmembers ns h.2⟩
    | _ => exact hpq _ _ h
  | _ => exact hpq _ _ h

/-! ### The names of a document -/

mutual

/-- The names of all members of a document, at any depth. -/
def names : Json N → List String
  | .null => []
  | .bool _ => []
  | .num _ => []
  | .str _ => []
  | .arr items => itemNames items
  | .obj members => memberNames members
termination_by structural v => v

/-- The names in a list of documents. -/
def itemNames : List (Json N) → List String
  | [] => []
  | v :: rest => names v ++ itemNames rest
termination_by structural items => items

/-- The names of members and in their values. -/
def memberNames : List (String × Json N) → List String
  | [] => []
  | (key, v) :: rest => key :: (names v ++ memberNames rest)
termination_by structural members => members

end

theorem mem_itemNames {name : String} {items : List (Json N)} :
    name ∈ itemNames items ↔ ∃ v ∈ items, name ∈ names v := by
  induction items with
  | nil => simp [itemNames]
  | cons v rest ih => simp [itemNames, ih]

theorem mem_memberNames {name : String} {members : List (String × Json N)} :
    name ∈ memberNames members ↔ ∃ m ∈ members, name = m.1 ∨ name ∈ names m.2 := by
  induction members with
  | nil => simp [memberNames]
  | cons m rest ih => simp [memberNames, ih, or_assoc]

/-! ### Numbers and their images -/

mutual

/-- The document with every number replaced. -/
def map (f : N → M) : Json N → Json M
  | .null => .null
  | .bool b => .bool b
  | .num n => .num (f n)
  | .str s => .str s
  | .arr items => .arr (mapItems f items)
  | .obj members => .obj (mapMembers f members)
termination_by structural v => v

/-- `map` on every item. -/
def mapItems (f : N → M) : List (Json N) → List (Json M)
  | [] => []
  | v :: rest => map f v :: mapItems f rest
termination_by structural items => items

/-- `map` on every value. -/
def mapMembers (f : N → M) : List (String × Json N) → List (String × Json M)
  | [] => []
  | (key, v) :: rest => (key, map f v) :: mapMembers f rest
termination_by structural members => members

end

theorem mapItems_eq_map (f : N → M) (items : List (Json N)) :
    mapItems f items = items.map (map f) := by
  induction items with
  | nil => rfl
  | cons v rest ih => rw [mapItems, ih, List.map_cons]

theorem mapMembers_eq_map (f : N → M) (members : List (String × Json N)) :
    mapMembers f members = members.map fun m => (m.1, map f m.2) := by
  induction members with
  | nil => rfl
  | cons m rest ih => rw [mapMembers, ih, List.map_cons]

mutual

/-- The numbers of a document. -/
def numbers : Json N → List N
  | .null => []
  | .bool _ => []
  | .num n => [n]
  | .str _ => []
  | .arr items => itemNumbers items
  | .obj members => memberNumbers members
termination_by structural v => v

/-- The numbers of a list of documents. -/
def itemNumbers : List (Json N) → List N
  | [] => []
  | v :: rest => numbers v ++ itemNumbers rest
termination_by structural items => items

/-- The numbers in the values of members. -/
def memberNumbers : List (String × Json N) → List N
  | [] => []
  | (_, v) :: rest => numbers v ++ memberNumbers rest
termination_by structural members => members

end

theorem mem_itemNumbers {n : N} {items : List (Json N)} :
    n ∈ itemNumbers items ↔ ∃ v ∈ items, n ∈ numbers v := by
  induction items with
  | nil => simp [itemNumbers]
  | cons v rest ih => simp [itemNumbers, ih]

theorem mem_memberNumbers {n : N} {members : List (String × Json N)} :
    n ∈ memberNumbers members ↔ ∃ m ∈ members, n ∈ numbers m.2 := by
  induction members with
  | nil => simp [memberNumbers]
  | cons m rest ih => simp [memberNumbers, ih]

/-! ### Strings -/

mutual

/-- The strings of a document, without the names of its members. -/
def strings : Json N → List String
  | .null => []
  | .bool _ => []
  | .num _ => []
  | .str s => [s]
  | .arr items => itemStrings items
  | .obj members => memberStrings members
termination_by structural v => v

/-- The strings of a list of documents. -/
def itemStrings : List (Json N) → List String
  | [] => []
  | v :: rest => strings v ++ itemStrings rest
termination_by structural items => items

/-- The strings in the values of members. -/
def memberStrings : List (String × Json N) → List String
  | [] => []
  | (_, v) :: rest => strings v ++ memberStrings rest
termination_by structural members => members

end

theorem mem_itemStrings {s : String} {items : List (Json N)} :
    s ∈ itemStrings items ↔ ∃ v ∈ items, s ∈ strings v := by
  induction items with
  | nil => simp [itemStrings]
  | cons v rest ih => simp [itemStrings, ih]

theorem mem_memberStrings {s : String} {members : List (String × Json N)} :
    s ∈ memberStrings members ↔ ∃ m ∈ members, s ∈ strings m.2 := by
  induction members with
  | nil => simp [memberStrings]
  | cons m rest ih => simp [memberStrings, ih]

/-! ### Distinct names -/

mutual

/-- No object of the document has two members of one name. -/
def Distinct : Json N → Prop
  | .null => True
  | .bool _ => True
  | .num _ => True
  | .str _ => True
  | .arr items => ItemsDistinct items
  | .obj members => (members.map Prod.fst).Nodup ∧ MembersDistinct members
termination_by structural v => v

/-- Every item has distinct names. -/
def ItemsDistinct : List (Json N) → Prop
  | [] => True
  | v :: rest => Distinct v ∧ ItemsDistinct rest
termination_by structural items => items

/-- Every value has distinct names. -/
def MembersDistinct : List (String × Json N) → Prop
  | [] => True
  | (_, v) :: rest => Distinct v ∧ MembersDistinct rest
termination_by structural members => members

end

theorem itemsDistinct_iff {items : List (Json N)} :
    ItemsDistinct items ↔ ∀ v ∈ items, Distinct v := by
  induction items with
  | nil => simp [ItemsDistinct]
  | cons v rest ih => simp [ItemsDistinct, ih]

theorem membersDistinct_iff {members : List (String × Json N)} :
    MembersDistinct members ↔ ∀ m ∈ members, Distinct m.2 := by
  induction members with
  | nil => simp [MembersDistinct]
  | cons m rest ih => simp [MembersDistinct, ih]

end Json

/-- The first member of a name is one of the members. -/
theorem List.mem_of_lookup_eq_some {α β : Type} [BEq α] [LawfulBEq α] {key : α} {v : β} :
    ∀ {members : List (α × β)}, members.lookup key = some v → (key, v) ∈ members
  | [], h => by simp at h
  | (k, w) :: rest, h => by
    rw [List.lookup_cons] at h
    split at h
    next hk =>
      have hkey : key = k := by simpa using hk
      simp only [Option.some.injEq] at h
      simp [hkey, h]
    next => exact List.mem_cons_of_mem _ (List.mem_of_lookup_eq_some h)

/-- A member of another name is skipped. -/
theorem List.lookup_cons_of_ne {α β : Type} [BEq α] [LawfulBEq α] {key k : α} (h : key ≠ k) (v : β)
    (members : List (α × β)) : ((k, v) :: members).lookup key = members.lookup key := by
  rw [List.lookup_cons, beq_eq_false_iff_ne.mpr h]

/-- Members of other names do not matter to a lookup. -/
theorem List.lookup_filter_key {α β : Type} [BEq α] [LawfulBEq α] (test : α → Bool)
    (members : List (α × β)) (key : α) :
    (members.filter fun m => test m.1).lookup key
      = if test key then members.lookup key else none := by
  induction members with
  | nil =>
    rw [List.filter_nil, List.lookup_nil]
    exact (ite_self none).symm
  | cons m rest ih =>
    obtain ⟨k, v⟩ := m
    by_cases hkey : key = k
    · subst hkey
      by_cases htest : test key = true
      · rw [List.filter_cons, if_pos htest, List.lookup_cons_self, if_pos htest,
          List.lookup_cons_self]
      · rw [List.filter_cons, if_neg htest, ih, if_neg htest, if_neg htest]
    · rw [List.lookup_cons_of_ne hkey, ← ih]
      by_cases htest : test k = true
      · rw [List.filter_cons, if_pos htest, List.lookup_cons_of_ne hkey]
      · rw [List.filter_cons, if_neg htest]

/-- A member of the image is the image of the member. -/
theorem Json.lookup_mapMembers {N M : Type} (f : N → M) (members : List (String × Json N))
    (key : String) : (mapMembers f members).lookup key = (members.lookup key).map (map f) := by
  induction members with
  | nil => rfl
  | cons m rest ih =>
    obtain ⟨k, v⟩ := m
    rw [mapMembers]
    by_cases hkey : key = k
    · rw [hkey, List.lookup_cons_self, List.lookup_cons_self, Option.map_some]
    · rw [List.lookup_cons_of_ne hkey, List.lookup_cons_of_ne hkey, ih]

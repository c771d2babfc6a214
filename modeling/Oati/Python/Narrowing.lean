import Oati.Python.Value

/-!
# Narrowing in the Python SDK

`_narrow` and `_subset` of `evaluator.py`. The entry of a parent is compared with the child's by
the operator that Python has for the parent's type, whatever the child's type is: a boolean is a
number, a string or an object can be iterated like a list, and other pairs raise.

* `narrow`, with the two ways it can end: `Within` describes the entries it accepts, `Stops` the
  pairs on which it returns.
* `Narrowed`: what a narrower child is, type by type.
* `Plain`: the child's entry has the parent's type; then accepting it means that it is narrower
  (`narrowed_iff`).
* `narrow_sound_iff`: `_narrow` returns, and accepts only narrower children, exactly if it stops,
  and the entries are plain unless one is refused.
-/

namespace Oati.Python

open TypeScript (isDecimal Denotes decimalValue exists_denotes denotes_repr)

variable {python : Interpreter}

/-! ### The functions -/

/-- `_subset`, on a list `b`. -/
def subset (a : Value) (b : List Value) : Except Exception Bool :=
  match elements a with
  | some xs => .ok (xs.all fun x => b.any fun y => equal y x)
  | none => .error .typeError

/-- The entry of a string: compared as a decimal, or for equality if that raises. -/
def narrowText (python : Interpreter) (x : Value) (v : String) : Bool :=
  match decimalGreater python x (.str v) with
  | some exceeds => !exceeds
  | none => equal x (.str v)

mutual

/-- The loop of `_narrow` over the entries of the parent. -/
def narrowEntries (python : Interpreter) (c : Value) :
    List (String × Value) → Except Exception Bool
  | [] => .ok true
  | (key, v) :: rest => do
    match ← item c key with
    | none => return false
    | some x => if ← narrowEntry python x v then narrowEntries python c rest else return false
termination_by structural entries => entries

/-- One entry of `_narrow`. -/
def narrowEntry (python : Interpreter) (x : Value) : Value → Except Exception Bool
  | .bool b => Bool.not <$> greater x (if b then 1 else 0)
  | .num n => Bool.not <$> greater x n.value
  | .str s => .ok (narrowText python x s)
  | .arr items => subset x items
  | .obj members =>
    match x with
    | .null => .ok false
    | x => narrowEntries python x members
  | .null => .ok (equal x .null)
termination_by structural v => v

end

/-- `_narrow`. -/
def narrow (python : Interpreter) (c p : Option Dict) : Except Exception Bool :=
  match p, c with
  | none, _ => .ok true
  | some _, none => .ok false
  | some p, some c => narrowEntries python (.obj c) p

/-! ### What narrower means -/

mutual

/-- The child has an entry that is narrower than the parent's: the same boolean, a number or a
decimal string that is at most the parent's, the same string or null, a list of elements of the
parent's, or an object that is narrower in turn. -/
def Narrowed (x : Option Value) : Value → Prop
  | .bool b => x = some (.bool b)
  | .num n => ∃ m : Number, x = some (.num m) ∧ m.value ≤ n.value
  | .str s =>
    if isDecimal s then
      ∃ t p q, x = some (.str t) ∧ Denotes t p ∧ Denotes s q ∧ p ≤ q
    else x = some (.str s)
  | .arr items => ∃ xs, x = some (.arr xs) ∧ ∀ e ∈ xs, ∃ i ∈ items, same i e = true
  | .obj members => ∃ c, x = some (.obj c) ∧ NarrowedMembers c members
  | .null => x = some .null
termination_by structural v => v

/-- Every entry of the parent is narrowed by the child's. -/
def NarrowedMembers (c : Dict) : List (String × Value) → Prop
  | [] => True
  | (key, v) :: rest => Narrowed (c.lookup key) v ∧ NarrowedMembers c rest
termination_by structural entries => entries

end

/-! ### What is accepted -/

mutual

/-- The entries that `_narrow` accepts: at most the parent's in Python's order. -/
def Within (python : Interpreter) (x : Value) : Value → Prop
  | .bool b => ∃ q, numeric x = some q ∧ q ≤ if b then 1 else 0
  | .num n => ∃ q, numeric x = some q ∧ q ≤ n.value
  | .str s => decimalGreater python x (.str s) = some false ∨
    decimalGreater python x (.str s) = none ∧ x = .str s
  | .arr items => ∃ xs, elements x = some xs ∧ ∀ e ∈ xs, ∃ i ∈ items, equal i e = true
  | .obj members => (∃ c, x = .obj c ∧ WithinMembers python c members) ∨
    members = [] ∧ x ≠ .null ∧ ∀ c, x ≠ .obj c
  | .null => x = .null
termination_by structural v => v

/-- The child has an entry within each of the parent's. -/
def WithinMembers (python : Interpreter) (c : Dict) : List (String × Value) → Prop
  | [] => True
  | (key, v) :: rest => (∃ x, c.lookup key = some x ∧ Within python x v) ∧
    WithinMembers python c rest
termination_by structural entries => entries

end

/-- An entry within a string is not greater as a decimal, or equal. -/
theorem narrowText_eq_true {x : Value} {s : String} : narrowText python x s = true ↔
    decimalGreater python x (.str s) = some false ∨
      decimalGreater python x (.str s) = none ∧ x = .str s := by
  unfold narrowText
  cases decimalGreater python x (.str s) with
  | none => simp
  | some exceeds => cases exceeds <;> simp

theorem map_not_greater_eq_true {x : Value} {bound : ℚ} :
    (Bool.not <$> greater x bound : Except Exception Bool) = .ok true ↔
      ∃ q, numeric x = some q ∧ q ≤ bound := by
  unfold greater
  cases numeric x <;> simp [Functor.map, Except.map]

theorem subset_eq_true {a : Value} {b : List Value} : subset a b = .ok true ↔
    ∃ xs, elements a = some xs ∧ ∀ x ∈ xs, ∃ y ∈ b, equal y x = true := by
  unfold subset
  cases elements a <;> simp

/-- The loop over the entries of a parent that is not empty finds none of them in a value that
is no object. -/
theorem narrowEntries_eq_true_of_not_obj {x : Value} (hx : ∀ c, x ≠ .obj c)
    {entries : List (String × Value)} : narrowEntries python x entries = .ok true ↔ entries = [] := by
  cases entries with
  | nil => simp [narrowEntries]
  | cons entry rest =>
    obtain ⟨key, v⟩ := entry
    have hitem : item x key = .ok none ∨ item x key = .error .typeError := by
      cases x with
      | obj c => exact absurd rfl (hx c)
      | arr items => simp only [item]; split_ifs <;> simp
      | str s => simp only [item]; split_ifs <;> simp
      | _ => exact .inr rfl
    simp only [reduceCtorEq, iff_false]
    rcases hitem with h | h <;>
      simp [narrowEntries, h, bind, Except.bind, pure, Except.pure]

theorem narrowEntries_cons_eq_true {c : Dict} {key : String} {v : Value}
    {rest : List (String × Value)} :
    narrowEntries python (.obj c) ((key, v) :: rest) = .ok true ↔
      (∃ x, c.lookup key = some x ∧ narrowEntry python x v = .ok true) ∧
        narrowEntries python (.obj c) rest = .ok true := by
  cases hlookup : c.lookup key with
  | none => simp [narrowEntries, item, hlookup, bind, Except.bind, pure, Except.pure]
  | some x =>
    simp only [narrowEntries, item, hlookup, bind, Except.bind, Option.some.injEq,
      exists_eq_left']
    rcases narrowEntry python x v with e | _ | _ <;> simp [pure, Except.pure]

/-- An entry is accepted exactly if it is within the parent's. -/
theorem narrowEntry_eq_true {x v : Value} : narrowEntry python x v = .ok true ↔
    Within python x v := by
  induction v using Json.induction generalizing x with
  | null => cases x <;> simp [narrowEntry, Within, equal, Json.equalBy, atomEqual, numeric]
  | bool b => exact map_not_greater_eq_true
  | num n => exact map_not_greater_eq_true
  | str s => simp only [narrowEntry, Within, Except.ok.injEq, narrowText_eq_true]
  | arr items _ => exact subset_eq_true
  | obj members ih =>
    have hmembers : ∀ c, narrowEntries python (.obj c) members = .ok true ↔
        WithinMembers python c members := by
      intro c
      induction members with
      | nil => simp [narrowEntries, WithinMembers]
      | cons entry rest ihrest =>
        obtain ⟨hentry, hrest⟩ := List.forall_mem_cons.mp ih
        rw [narrowEntries_cons_eq_true, WithinMembers, ihrest hrest]
        simp only [hentry]
    cases x with
    | null => simp [narrowEntry, Within]
    | obj c => simp [narrowEntry, Within, hmembers]
    | _ => simp [narrowEntry, Within, narrowEntries_eq_true_of_not_obj]

theorem narrowEntries_eq_true {c : Dict} {entries : List (String × Value)} :
    narrowEntries python (.obj c) entries = .ok true ↔ WithinMembers python c entries := by
  have h := @narrowEntry_eq_true python (.obj c) (.obj entries)
  simpa [narrowEntry, Within] using h

/-! ### Entries of the parent's type -/

mutual

/-- The child's entry has the parent's type: the same boolean, a number, a decimal string for a
decimal string and the same string for any other, a list in which no boolean stands for a number
of the parent's list, an object of such entries. -/
def Plain (x : Value) : Value → Prop
  | .bool b => x = .bool b
  | .num _ => ∃ m, x = .num m
  | .str s => if isDecimal s then ∃ t, x = .str t ∧ isDecimal t = true else x = .str s
  | .arr items => ∃ xs, x = .arr xs ∧
    ∀ e ∈ xs, (∃ i ∈ items, equal i e = true) → ∃ i ∈ items, same i e = true
  | .obj members => ∃ c, x = .obj c ∧ PlainMembers c members
  | .null => True
termination_by structural v => v

/-- The entries that the child has are of the parent's types. -/
def PlainMembers (c : Dict) : List (String × Value) → Prop
  | [] => True
  | (key, v) :: rest => (∀ x, c.lookup key = some x → Plain x v) ∧ PlainMembers c rest
termination_by structural entries => entries

end

/-- A decimal string is narrowed by the decimal strings within it. -/
theorem narrowed_text_iff {x : Value} {s : String} (hs : isDecimal s = true) :
    (∃ t p q, x = .str t ∧ Denotes t p ∧ Denotes s q ∧ p ≤ q) ↔
      (decimalGreater python x (.str s) = some false ∨
        decimalGreater python x (.str s) = none ∧ x = .str s) ∧
      ∃ t, x = .str t ∧ isDecimal t = true := by
  obtain ⟨q, hq, -⟩ := exists_denotes hs
  constructor
  · rintro ⟨t, p, q', rfl, hp, hq', hle⟩
    refine ⟨.inl ?_, t, rfl, hp.isDecimal⟩
    rw [decimalGreater_of_denotes hp hq']
    simpa using hle
  · rintro ⟨hwithin, t, rfl, ht⟩
    obtain ⟨p, hp, -⟩ := exists_denotes ht
    rw [decimalGreater_of_denotes hp hq] at hwithin
    exact ⟨t, p, q, rfl, hp, hq, by simpa using hwithin⟩

/-- The same string is within any string. -/
theorem within_self (s : String) : Within python (.str s) (.str s) := by
  have hself := decimalGreater_self python (.str s)
  cases h : decimalGreater python (.str s) (.str s) with
  | none => exact .inr ⟨h, rfl⟩
  | some exceeds =>
    cases exceeds with
    | false => exact .inl h
    | true => exact absurd h hself

/-- A narrower entry is one that is accepted and has the parent's type. -/
theorem narrowed_iff {x v : Value} : Narrowed (some x) v ↔ Within python x v ∧ Plain x v := by
  induction v using Json.induction generalizing x with
  | null => simp [Narrowed, Within, Plain]
  | bool b =>
    simp only [Narrowed, Within, Plain, Option.some.injEq]
    constructor
    · rintro rfl
      exact ⟨⟨_, rfl, le_rfl⟩, rfl⟩
    · exact And.right
  | num n =>
    simp only [Narrowed, Within, Plain, Option.some.injEq]
    constructor
    · rintro ⟨m, rfl, hle⟩
      exact ⟨⟨_, rfl, hle⟩, m, rfl⟩
    · rintro ⟨⟨q, hq, hle⟩, m, rfl⟩
      cases hq
      exact ⟨m, rfl, hle⟩
  | str s =>
    simp only [Narrowed, Within, Plain, Option.some.injEq]
    split_ifs with hs
    · exact narrowed_text_iff hs
    · constructor
      · rintro rfl
        exact ⟨within_self s, rfl⟩
      · exact And.right
  | arr items _ =>
    simp only [Narrowed, Within, Plain, Option.some.injEq]
    constructor
    · rintro ⟨xs, rfl, hsame⟩
      exact ⟨⟨xs, rfl, fun e he => (hsame e he).imp fun i hi => ⟨hi.1, equal_of_same hi.2⟩⟩,
        xs, rfl, fun e he _ => hsame e he⟩
    · rintro ⟨⟨xs, hxs, hequal⟩, xs', rfl, hsame⟩
      cases hxs
      exact ⟨_, rfl, fun e he => hsame e he (hequal e he)⟩
  | obj members ih =>
    have hmembers : ∀ c : Dict, NarrowedMembers c members ↔
        WithinMembers python c members ∧ PlainMembers c members := by
      intro c
      induction members with
      | nil => simp [NarrowedMembers, WithinMembers, PlainMembers]
      | cons entry rest ihrest =>
        obtain ⟨hentry, hrest⟩ := List.forall_mem_cons.mp ih
        obtain ⟨key, v⟩ := entry
        rw [NarrowedMembers, WithinMembers, PlainMembers, ihrest hrest]
        cases hlookup : c.lookup key with
        | none =>
          have hnone : ¬ Narrowed none v := by
            cases v <;> simp [Narrowed]
          simp [hnone]
        | some x =>
          rw [hentry]
          simp only [Option.some.injEq, exists_eq_left', forall_eq']
          exact and_and_and_comm
    simp only [Narrowed, Within, Plain, Option.some.injEq]
    constructor
    · rintro ⟨c, rfl, hc⟩
      obtain ⟨hwithin, hplain⟩ := (hmembers c).mp hc
      exact ⟨.inl ⟨c, rfl, hwithin⟩, c, rfl, hplain⟩
    · rintro ⟨hwithin, c, rfl, hplain⟩
      obtain ⟨c', hc', hc⟩ | ⟨-, -, hnot⟩ := hwithin
      · cases hc'
        exact ⟨c, rfl, (hmembers c).mpr ⟨hc, hplain⟩⟩
      · exact absurd rfl (hnot c)

theorem narrowedMembers_iff {c : Dict} {members : List (String × Value)} :
    NarrowedMembers c members ↔ WithinMembers python c members ∧ PlainMembers c members := by
  have h := @narrowed_iff python (.obj c) (.obj members)
  simpa [Narrowed, Within, Plain] using h

/-! ### What raises -/

mutual

/-- Comparing the child's entry returns: a number or a boolean needs one of them, a list a list,
a string or an object, and an object an object of entries that return, null, or a list or string
in which its first key does not occur. -/
def Stops (python : Interpreter) (x : Value) : Value → Prop
  | .bool _ => (numeric x).isSome = true
  | .num _ => (numeric x).isSome = true
  | .str _ => True
  | .arr _ => (elements x).isSome = true
  | .obj members =>
    match x with
    | .null => True
    | .obj c => StopsMembers python c members
    | .arr items => ∀ m ∈ members.head?, Json.str m.1 ∉ items
    | .str s => ∀ m ∈ members.head?, ¬ m.1.toList <:+: s.toList
    | .bool _ => members = []
    | .num _ => members = []
  | .null => True
termination_by structural v => v

/-- Every comparison returns up to the first entry that is refused. -/
def StopsMembers (python : Interpreter) (c : Dict) : List (String × Value) → Prop
  | [] => True
  | (key, v) :: rest => ∀ x, c.lookup key = some x →
    Stops python x v ∧ (Within python x v → StopsMembers python c rest)
termination_by structural entries => entries

end

/-- The computation does not raise. -/
def Returns {α : Type} (x : Except Exception α) : Prop := ∃ a, x = .ok a

theorem returns_map_not_greater {x : Value} {bound : ℚ} :
    Returns (Bool.not <$> greater x bound) ↔ (numeric x).isSome = true := by
  unfold greater
  cases numeric x with
  | none => simp [Returns, Functor.map, Except.map]
  | some q => exact iff_of_true ⟨_, rfl⟩ rfl

theorem returns_subset {a : Value} {b : List Value} :
    Returns (subset a b) ↔ (elements a).isSome = true := by
  unfold subset Returns
  cases elements a <;> simp

/-- The first key decides what becomes of a value that is no object. -/
theorem returns_narrowEntries_of_item {x : Value} {members : List (String × Value)}
    {P : String → Prop}
    (h : ∀ key, P key ∧ item x key = .ok none ∨ ¬ P key ∧ item x key = .error .typeError) :
    Returns (narrowEntries python x members) ↔ ∀ m ∈ members.head?, P m.1 := by
  cases members with
  | nil => simp [narrowEntries, Returns]
  | cons entry rest =>
    obtain ⟨key, v⟩ := entry
    simp only [List.head?_cons, Option.mem_def, Option.some.injEq, forall_eq', Returns]
    rcases h key with ⟨hp, hitem⟩ | ⟨hp, hitem⟩
    · simp [narrowEntries, hitem, bind, Except.bind, pure, Except.pure, hp]
    · simp [narrowEntries, hitem, bind, Except.bind, hp]

theorem returns_narrowEntries_cons {c : Dict} {key : String} {v : Value}
    {rest : List (String × Value)} :
    Returns (narrowEntries python (.obj c) ((key, v) :: rest)) ↔
      ∀ x, c.lookup key = some x → Returns (narrowEntry python x v) ∧
        (narrowEntry python x v = .ok true → Returns (narrowEntries python (.obj c) rest)) := by
  cases hlookup : c.lookup key with
  | none => simp [narrowEntries, item, hlookup, Returns, bind, Except.bind, pure, Except.pure]
  | some x =>
    simp only [narrowEntries, item, hlookup, Returns, bind, Except.bind, Option.some.injEq,
      forall_eq']
    rcases narrowEntry python x v with e | _ | _ <;> simp [pure, Except.pure]

/-- An entry is compared without an exception exactly if it stops. -/
theorem returns_narrowEntry {x v : Value} : Returns (narrowEntry python x v) ↔ Stops python x v := by
  induction v using Json.induction generalizing x with
  | null => simp [narrowEntry, Stops, Returns]
  | bool b => exact returns_map_not_greater
  | num n => exact returns_map_not_greater
  | str s => simp [narrowEntry, Stops, Returns]
  | arr items _ => exact returns_subset
  | obj members ih =>
    have hmembers : ∀ c, Returns (narrowEntries python (.obj c) members) ↔
        StopsMembers python c members := by
      intro c
      induction members with
      | nil => simp [narrowEntries, StopsMembers, Returns]
      | cons entry rest ihrest =>
        obtain ⟨hentry, hrest⟩ := List.forall_mem_cons.mp ih
        rw [returns_narrowEntries_cons, StopsMembers, ihrest hrest]
        simp only [hentry, narrowEntry_eq_true]
    have hnone : ∀ {x : Value}, (∀ key, item x key = .error .typeError) →
        (Returns (narrowEntries python x members) ↔ members = []) := by
      intro x hitem
      rw [returns_narrowEntries_of_item fun key => .inr ⟨not_false, hitem key⟩]
      cases members <;> simp
    cases x with
    | null => simp [narrowEntry, Stops, Returns]
    | bool b => exact hnone fun _ => rfl
    | num n => exact hnone fun _ => rfl
    | obj c => exact hmembers c
    | arr items =>
      refine returns_narrowEntries_of_item (P := fun key => Json.str key ∉ items) fun key => ?_
      by_cases hmem : Json.str key ∈ items
      · exact .inr ⟨not_not_intro hmem, by simp [item, hmem]⟩
      · exact .inl ⟨hmem, by simp [item, hmem]⟩
    | str s =>
      refine returns_narrowEntries_of_item (P := fun key => ¬ key.toList <:+: s.toList)
        fun key => ?_
      by_cases hmem : key.toList <:+: s.toList
      · exact .inr ⟨not_not_intro hmem, by simp [item, hmem]⟩
      · exact .inl ⟨hmem, by simp [item, hmem]⟩

theorem returns_narrowEntries {c : Dict} {entries : List (String × Value)} :
    Returns (narrowEntries python (.obj c) entries) ↔ StopsMembers python c entries :=
  @returns_narrowEntry python (.obj c) (.obj entries)

/-! ### Soundness -/

/-- `_narrow` returns on two objects, and if it accepts the child then the child is narrower,
exactly if no comparison raises before an entry is refused, and the entries of the child are of
the parent's types unless one is refused. -/
theorem narrow_sound_iff {child parent : Dict} :
    ((∃ b, narrow python (some child) (some parent) = .ok b) ∧
      (narrow python (some child) (some parent) = .ok true → NarrowedMembers child parent)) ↔
    StopsMembers python child parent ∧
      (WithinMembers python child parent → PlainMembers child parent) := by
  simp only [narrow, narrowEntries_eq_true]
  refine and_congr returns_narrowEntries (imp_congr_right fun hwithin => ?_)
  exact (@narrowedMembers_iff python _ _).trans (and_iff_right hwithin)

/-- A mandate that may be used once. -/
def oneTimeLimits : Dict := [("one_time", .bool true)]

/-- The restriction is lifted, and a text is given where the parent has a number. -/
theorem narrow_lifts_one_time :
    narrow plainInterpreter (some [("one_time", .bool false)]) (some oneTimeLimits) = .ok true ∧
      ¬ NarrowedMembers [("one_time", .bool false)] oneTimeLimits ∧
      narrow plainInterpreter (some [("max_calls", .str "1")]) (some [("max_calls", .num (.int 5))])
        = .error .typeError := by
  refine ⟨by decide, ?_, by decide⟩
  rintro ⟨h, -⟩
  simp [Narrowed, List.lookup_cons_self] at h

end Oati.Python

import Mathlib.Data.List.Nodup
import Oati.Library.Json

/-!
# Maps in insertion order

A map that remembers the order in which its keys were added. A key that is set again keeps its
place; one that is deleted and set again is the last.

* `InsertionMap`: the entries, no key twice.
* `keep`, `trim`: the entries whose keys satisfy a test, and as many of the last ones as a bound
  admits.
* `get`, `delete`, `set`: one entry is read, deleted or replaced.
* `mem_keep`, `mem_set`, …: which entries there are after an operation.
-/

/-- A map whose entries are in the order of insertion. -/
structure InsertionMap (K V : Type) where
  entries : List (K × V)
  nodup : (entries.map Prod.fst).Nodup

namespace InsertionMap

variable {K V : Type} {m : InsertionMap K V} {entry : K × V}

instance : Membership (K × V) (InsertionMap K V) := ⟨fun m entry => entry ∈ m.entries⟩

def empty : InsertionMap K V := ⟨[], List.nodup_nil⟩

def size (m : InsertionMap K V) : ℕ := m.entries.length

/-! ### Tests and bounds -/

/-- Only the keys that satisfy a test are kept. -/
def keep (m : InsertionMap K V) (test : K → Bool) : InsertionMap K V where
  entries := m.entries.filter fun entry => test entry.1
  nodup := m.nodup.sublist (List.filter_sublist.map Prod.fst)

/-- While there are more than `bound` entries, the first is deleted. -/
def trimEntries (bound : ℕ) : List (K × V) → List (K × V)
  | [] => []
  | entry :: rest =>
    if bound < (entry :: rest).length then trimEntries bound rest else entry :: rest

theorem trimEntries_suffix (bound : ℕ) (entries : List (K × V)) :
    trimEntries bound entries <:+ entries := by
  induction entries with
  | nil => exact List.suffix_rfl
  | cons entry rest ih =>
    rw [trimEntries]
    split_ifs
    · exact ih.trans (List.suffix_cons entry rest)
    · exact List.suffix_rfl

theorem length_trimEntries_le (bound : ℕ) (entries : List (K × V)) :
    (trimEntries bound entries).length ≤ bound := by
  induction entries with
  | nil => exact Nat.zero_le bound
  | cons entry rest ih =>
    rw [trimEntries]
    split_ifs with hlength
    · exact ih
    · exact Nat.not_lt.mp hlength

def trim (m : InsertionMap K V) (bound : ℕ) : InsertionMap K V where
  entries := trimEntries bound m.entries
  nodup := m.nodup.sublist ((trimEntries_suffix bound m.entries).sublist.map Prod.fst)

theorem mem_keep {test : K → Bool} : entry ∈ m.keep test ↔ entry ∈ m ∧ test entry.1 = true :=
  List.mem_filter

theorem size_keep_le (m : InsertionMap K V) (test : K → Bool) : (m.keep test).size ≤ m.size :=
  List.length_filter_le _ m.entries

theorem mem_trim {bound : ℕ} (h : entry ∈ m.trim bound) : entry ∈ m :=
  (trimEntries_suffix bound m.entries).subset h

theorem size_trim_le (m : InsertionMap K V) (bound : ℕ) : (m.trim bound).size ≤ bound :=
  length_trimEntries_le bound m.entries

/-! ### Single keys -/

section Keys

variable [DecidableEq K] {key k : K} {value : V}

def get (m : InsertionMap K V) (key : K) : Option V := m.entries.lookup key

def delete (m : InsertionMap K V) (key : K) : InsertionMap K V := m.keep (· != key)

/-- The value of a key replaced, or the key added at the end. -/
def setEntry (key : K) (value : V) : List (K × V) → List (K × V)
  | [] => [(key, value)]
  | entry :: rest => if entry.1 = key then (key, value) :: rest else entry :: setEntry key value rest

theorem mem_map_fst_setEntry {entries : List (K × V)} :
    k ∈ (setEntry key value entries).map Prod.fst ↔ k = key ∨ k ∈ entries.map Prod.fst := by
  induction entries with
  | nil => simp [setEntry]
  | cons entry rest ih =>
    rw [setEntry]
    split_ifs with hkey
    · simp [hkey]
    · simp only [List.map_cons, List.mem_cons, ih]
      exact or_left_comm

theorem nodup_setEntry {entries : List (K × V)} (h : (entries.map Prod.fst).Nodup) :
    ((setEntry key value entries).map Prod.fst).Nodup := by
  induction entries with
  | nil => exact List.nodup_singleton key
  | cons entry rest ih =>
    rw [List.map_cons, List.nodup_cons] at h
    rw [setEntry]
    split_ifs with hkey
    · rw [List.map_cons, List.nodup_cons]
      exact ⟨hkey ▸ h.1, h.2⟩
    · rw [List.map_cons, List.nodup_cons, mem_map_fst_setEntry, not_or]
      exact ⟨⟨hkey, h.1⟩, ih h.2⟩

def set (m : InsertionMap K V) (key : K) (value : V) : InsertionMap K V :=
  ⟨setEntry key value m.entries, nodup_setEntry m.nodup⟩

theorem mem_of_get (h : m.get key = some value) : (key, value) ∈ m :=
  List.mem_of_lookup_eq_some h

/-- A key has one value. -/
theorem mem_unique {other : V} (h : (key, value) ∈ m) (h' : (key, other) ∈ m) : value = other :=
  (Prod.mk.inj (List.inj_on_of_nodup_map m.nodup h h' rfl)).2

theorem mem_delete : entry ∈ m.delete key ↔ entry ∈ m ∧ entry.1 ≠ key := by
  rw [delete, mem_keep, bne_iff_ne]

theorem mem_setEntry {entries : List (K × V)} (h : entry ∈ setEntry key value entries) :
    entry = (key, value) ∨ entry ∈ entries := by
  induction entries with
  | nil => exact .inl (List.mem_singleton.mp h)
  | cons first rest ih =>
    rw [setEntry] at h
    split_ifs at h
    · exact (List.mem_cons.mp h).imp_right fun hrest => List.mem_cons_of_mem _ hrest
    · obtain rfl | hrest := List.mem_cons.mp h
      · exact .inr List.mem_cons_self
      · exact (ih hrest).imp_right fun hmem => List.mem_cons_of_mem _ hmem

theorem mem_set (h : entry ∈ m.set key value) : entry = (key, value) ∨ entry ∈ m :=
  mem_setEntry h

theorem length_setEntry {entries : List (K × V)} (h : key ∉ entries.map Prod.fst) :
    (setEntry key value entries).length = entries.length + 1 := by
  induction entries with
  | nil => rfl
  | cons first rest ih =>
    rw [List.map_cons, List.mem_cons, not_or] at h
    rw [setEntry, if_neg (Ne.symm h.1), List.length_cons, ih h.2, List.length_cons]

/-- The place of a key that is set again after it was deleted is filled. -/
theorem size_set_delete_le (h : m.get key = some value) (other : V) :
    ((m.delete key).set key other).size ≤ m.size := by
  have habsent : key ∉ (m.delete key).entries.map Prod.fst := by
    intro hmem
    obtain ⟨entry, hentry, hkey⟩ := List.mem_map.mp hmem
    exact (mem_delete.mp hentry).2 hkey
  have hlost : (m.delete key).entries.length < m.entries.length :=
    List.length_filter_lt_length_iff_exists.mpr ⟨(key, value), mem_of_get h, by simp⟩
  have hset := @length_setEntry K V _ key other (m.delete key).entries habsent
  calc ((m.delete key).set key other).size
      = (m.delete key).entries.length + 1 := hset
    _ ≤ m.size := hlost

end Keys

end InsertionMap

import Oati.Go.Canonical
import Oati.Python.Canonical

/-!
# One canonical form

The three SDKs write one text for one JSON value. The values they hold are documents over three
kinds of numbers, with the members of an object in any order; what they have in common is the
document of doubles.

The digits of a number are those of the runtimes: any function that finds shortest digits, as
long as it is the same one in all three.
-/

namespace Oati

open Double (Digits IsShortest)
open TypeScript (utf16 utf16_injective Engine PrintsShortest ShortestIn PROTO shortestLiteral)

/-- A JSON value as the SDKs hold it: the members of an object have distinct names, and the
numbers are the same doubles. -/
structure SameDocument (doc : TypeScript.Value) (goDoc : Json Go.Number)
    (pythonDoc : Python.Value) : Prop where
  distinct : doc.Distinct
  goDistinct : goDoc.Distinct
  pythonDistinct : pythonDoc.Distinct
  go : Json.Same (goDoc.map Go.Number.double) doc
  python : Json.Same (pythonDoc.map Python.Number.double) doc

/-- The numbers of an image that is the document are numbers of the document. -/
theorem mem_numbers_of_same {N : Type} {double : N → ℚ} {v : Json N} {doc : TypeScript.Value}
    (hv : v.Distinct) (hdoc : doc.Distinct) (h : Json.Same (v.map double) doc) {n : N}
    (hn : n ∈ v.numbers) : double n ∈ doc.numbers := by
  have hsorted := (Json.sorted_eq_sorted_iff utf16_injective (Json.distinct_map _ hv) hdoc).mpr h
  have hmem := (Json.mem_numbers_sorted utf16).mpr (Json.mem_numbers_map (f := double) hn)
  rw [hsorted] at hmem
  exact Json.numbers_sorted utf16 hmem

/-- The three canonical texts of a JSON value are one text. -/
theorem canonicalJson_agree {digits : ℚ → Digits} {engine : Engine}
    (hprints : PrintsShortest engine digits) {doc : TypeScript.Value} {goDoc : Json Go.Number}
    {pythonDoc : Python.Value} (hsame : SameDocument doc goDoc pythonDoc)
    (hfinite : ∀ q ∈ doc.numbers, Double.IsFinite q) (hshortest : ShortestIn digits doc)
    (hdepth : doc.depth ≤ 256) (hproto : PROTO ∉ doc.names) :
    ∃ text, TypeScript.canonicalJson engine doc = .ok text ∧
      Go.canonicalJSON digits goDoc = .ok text ∧
      Python.canonicalJson digits pythonDoc = .ok text := by
  refine ⟨_, TypeScript.canonicalJson_eq hprints hshortest hdepth hproto, ?_, ?_⟩
  · have hnumbers := fun n hn =>
      mem_numbers_of_same (n := n) hsame.goDistinct hsame.distinct hsame.go hn
    have hsorted := (Json.sorted_eq_sorted_iff utf16_injective
      (Json.distinct_map _ hsame.goDistinct) hsame.distinct).mpr hsame.go
    rw [← hsorted]
    exact Go.canonicalJSON_eq (fun n hn => hfinite _ (hnumbers n hn))
      fun n hn => hshortest _ (hnumbers n hn)
  · have hnumbers := fun n hn =>
      mem_numbers_of_same (n := n) hsame.pythonDistinct hsame.distinct hsame.python hn
    have hsorted := (Json.sorted_eq_sorted_iff utf16_injective
      (Json.distinct_map _ hsame.pythonDistinct) hsame.distinct).mpr hsame.python
    rw [← hsorted]
    exact Python.canonicalJson_eq (fun n hn => hfinite _ (hnumbers n hn))
      fun n hn => hshortest _ (hnumbers n hn)

/-! ### A document that the orders and notations of the languages differ on -/

/-- Shortest digits of a thousand trillion millions and of a half. -/
def sampleDigits (q : ℚ) : Digits := if q = 1 / 2 then ⟨5, 0⟩ else ⟨1, 22⟩

/-- An engine that prints them. -/
def sampleEngine : Engine :=
  { TypeScript.plainEngine with numberToString := TypeScript.numberString sampleDigits }

def sampleLiteral : JsonText.Literal := ⟨"1E+21", by decide⟩

/-- The first name is the larger one in code units, and the smaller one in code points. -/
def sampleDocument : TypeScript.Value :=
  .obj [("\uffee", .num (-1 / 2)), ("😀", .arr [.num (10 ^ 21), .str "\x1b"])]

def sampleGoDocument : Json Go.Number :=
  .obj [("😀", .arr [.num (.number sampleLiteral), .str "\x1b"]),
    ("\uffee", .num (.float64 (-1 / 2)))]

def samplePythonDocument : Python.Value :=
  .obj [("😀", .arr [.num (.int (10 ^ 21)), .str "\x1b"]), ("\uffee", .num (.float (-1 / 2)))]

theorem isShortest_half : IsShortest (1 / 2) ⟨5, 0⟩ where
  pos := by norm_num
  round_value := by
    have hvalue : (⟨5, 0⟩ : Digits).value = (1 : ℕ) * 2 ^ (-1 : ℤ) := by
      decide +kernel
    have hround := @Double.round_dyadic 1 (-1) (by norm_num) (by norm_num)
    rw [hvalue, hround]
    norm_num
  minimal := fun e _ _ => e.length_pos

theorem isShortest_sextillion : IsShortest (10 ^ 21) ⟨1, 22⟩ where
  pos := Nat.one_pos
  round_value := by
    have hvalue : (⟨1, 22⟩ : Digits).value = 10 ^ (21 : ℤ) := by
      decide +kernel
    rw [hvalue, Double.round_sextillion]
    norm_num
  minimal := fun e _ _ => e.length_pos

theorem sampleDocument_numbers : sampleDocument.numbers = [-1 / 2, 10 ^ 21] := by
  decide +kernel

theorem sampleDocument_same : SameDocument sampleDocument sampleGoDocument samplePythonDocument where
  distinct := ⟨by decide, trivial, ⟨trivial, trivial, trivial⟩, trivial⟩
  goDistinct := ⟨by decide, ⟨trivial, trivial, trivial⟩, trivial, trivial⟩
  pythonDistinct := ⟨by decide, ⟨trivial, trivial, trivial⟩, trivial, trivial⟩
  go := by decide +kernel
  python := by decide +kernel

theorem canonicalJson_agree_sample :
    ∃ text, TypeScript.canonicalJson sampleEngine sampleDocument = .ok text ∧
      Go.canonicalJSON sampleDigits sampleGoDocument = .ok text ∧
      Python.canonicalJson sampleDigits samplePythonDocument = .ok text := by
  have hprints : PrintsShortest sampleEngine sampleDigits := fun q _ => rfl
  have hhalf : Double.IsFinite (-1 / 2) := by decide +kernel
  have hlarge : Double.IsFinite (10 ^ 21) := by decide +kernel
  have hfinite : ∀ q ∈ sampleDocument.numbers, Double.IsFinite q := by
    rw [sampleDocument_numbers]
    exact List.forall_mem_cons.mpr ⟨hhalf, List.forall_mem_singleton.mpr hlarge⟩
  have hshortest : ShortestIn sampleDigits sampleDocument := by
    rw [ShortestIn, sampleDocument_numbers]
    refine List.forall_mem_cons.mpr ⟨fun _ => ?_, List.forall_mem_singleton.mpr fun _ => ?_⟩
    · have habs : |(-1 / 2 : ℚ)| = 1 / 2 := by norm_num
      rw [habs, sampleDigits, if_pos rfl]
      exact isShortest_half
    · have habs : |(10 ^ 21 : ℚ)| = 10 ^ 21 := by norm_num
      rw [habs, sampleDigits, if_neg (by norm_num)]
      exact isShortest_sextillion
  exact canonicalJson_agree hprints sampleDocument_same hfinite hshortest (by decide)
    (by decide +kernel)

end Oati

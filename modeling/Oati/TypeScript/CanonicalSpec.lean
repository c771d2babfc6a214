import Oati.Library.JsonSyntax
import Oati.TypeScript.Canonical

/-!
# What the canonical text says about a document

The canonical text is read back to the sorted document, so it determines the document up to the
order of members, except for what is lost on the way to it: the members called `__proto__`.

* `canonicalValue_eq`: the copy is the sorted document without those members.
* `canonicalJson_eq_iff`: two texts are equal exactly if the documents are the same JSON value
  once those members are left out.
* `canonicalJson_determines_iff`: the texts say whether two documents are the same exactly if
  the documents do not differ in those members alone.
-/

namespace Oati.TypeScript

open JsonText

variable {engine : Engine}

/-! ### The order of names -/

/-- The code units of a character. -/
def units (c : Char) : List ℕ :=
  if c.toNat < 0x10000 then [c.toNat]
  else [0xd800 + (c.toNat - 0x10000) / 0x400, 0xdc00 + (c.toNat - 0x10000) % 0x400]

theorem utf16_eq_flatMap (s : String) : utf16 s = s.toList.flatMap units := rfl

/-- The code units of a character, with any text after them, determine it. -/
theorem units_append_inj {c d : Char} {cs ds : List ℕ} (h : units c ++ cs = units d ++ ds) :
    c = d ∧ cs = ds := by
  have hc : c.toNat < 0xd800 ∨ 0xdfff < c.toNat ∧ c.toNat < 0x110000 := c.valid
  have hd : d.toNat < 0xd800 ∨ 0xdfff < d.toNat ∧ d.toNat < 0x110000 := d.valid
  unfold units at h
  -- one unit is no surrogate, so it is never the first of two
  split_ifs at h with hsmall hsmall'
  · obtain ⟨hunit, hrest⟩ := List.cons.inj h
    exact ⟨Char.toNat_inj.mp hunit, hrest⟩
  · obtain ⟨hunit, -⟩ := List.cons.inj h
    omega
  · obtain ⟨hunit, -⟩ := List.cons.inj h
    omega
  · obtain ⟨hhigh, hlow, hrest⟩ : _ ∧ _ ∧ cs = ds := by simpa using h
    exact ⟨Char.toNat_inj.mp (by omega), hrest⟩

theorem units_ne_nil (c : Char) : units c ≠ [] := by
  unfold units
  split_ifs <;> simp

/-- The code units determine the string. -/
theorem utf16_injective : Function.Injective utf16 := by
  have hlist : ∀ xs ys : List Char, xs.flatMap units = ys.flatMap units → xs = ys := by
    intro xs
    induction xs with
    | nil =>
      intro ys h
      cases ys with
      | nil => rfl
      | cons d ds => exact absurd h.symm (by simp [units_ne_nil])
    | cons c cs ih =>
      intro ys h
      cases ys with
      | nil => exact absurd h (by simp [units_ne_nil])
      | cons d ds =>
        rw [List.flatMap_cons, List.flatMap_cons] at h
        obtain ⟨rfl, hrest⟩ := units_append_inj h
        rw [ih ds hrest]
  intro s t h
  exact String.toList_injective (hlist _ _ h)

/-! ### The copy -/

/-- A name the copy loses. -/
def PROTO : String := "__proto__"

theorem canonicalMembers_sorted (members : Record) :
    canonicalMembers (Json.sortedMembers utf16 (Json.withoutMembers PROTO members))
      = (Json.sortedMembers utf16 (Json.withoutMembers PROTO members)).insertionSort
          fun a b => utf16 a.1 ≤ utf16 b.1 := by
  have hnames : ∀ m ∈ Json.sortedMembers utf16 (Json.withoutMembers PROTO members),
      (m.1 != "__proto__") = true := by
    intro m hm
    have hmem := List.mem_map_of_mem (f := Prod.fst) hm
    rw [Json.map_fst_sortedMembers, Json.map_fst_withoutMembers] at hmem
    exact (List.mem_filter.mp hmem).2
  rw [canonicalMembers, List.filter_eq_self.mpr hnames]

theorem withinDepth_eq_ok {depth : ℕ} {result : Except JsError Value} {v : Value} :
    withinDepth depth result = .ok v ↔ depth ≤ 256 ∧ result = .ok v := by
  unfold withinDepth
  split_ifs with hdepth
  · simp [hdepth]
  · simp [Nat.le_of_not_lt hdepth]

/-- The copy of a document is sorted and lacks the members called `__proto__`. Induction on the
document; the depth only decides whether there is a copy. -/
theorem canonicalValue_eq {v w : Value} {depth : ℕ} (h : canonicalValue depth v = .ok w) :
    w = (v.without PROTO).sorted utf16 := by
  induction v using Json.induction generalizing depth w with
  | arr items ih =>
    rw [canonicalValue, withinDepth_eq_ok, map_eq_ok] at h
    obtain ⟨-, copies, hcopies, rfl⟩ := h
    rw [Json.without, Json.sorted]
    refine congrArg Json.arr ?_
    generalize depth + 1 = next at hcopies
    induction items generalizing copies with
    | nil =>
      cases hcopies
      rfl
    | cons x rest ihrest =>
      rw [List.forall_mem_cons] at ih
      simp only [canonicalItems, bind_eq_ok, pure_eq_ok] at hcopies
      obtain ⟨copy, hcopy, copies, hcopies, rfl⟩ := hcopies
      rw [Json.withoutItems, Json.sortedItems, ← ih.1 hcopy, ← ihrest ih.2 _ hcopies]
  | obj members ih =>
    rw [canonicalValue, withinDepth_eq_ok, map_eq_ok] at h
    obtain ⟨-, copies, hcopies, rfl⟩ := h
    have hfilter : copies.filter (fun m => m.1 != "__proto__")
        = Json.sortedMembers utf16 (Json.withoutMembers PROTO members) := by
      generalize depth + 1 = next at hcopies
      induction members generalizing copies with
      | nil =>
        cases hcopies
        rfl
      | cons m rest ihrest =>
        obtain ⟨name, x⟩ := m
        rw [List.forall_mem_cons] at ih
        simp only [canonicalEntries, bind_eq_ok, pure_eq_ok] at hcopies
        obtain ⟨copy, hcopy, copies, hcopies, rfl⟩ := hcopies
        have hrest := ihrest ih.2 _ hcopies
        by_cases hname : name = PROTO
        · have hkept : (name != "__proto__") = false := by simp [hname, PROTO]
          rw [Json.withoutMembers, if_pos hname, ← hrest, List.filter_cons_of_neg (by simp [hkept])]
        · have hkept : (name != "__proto__") = true := bne_iff_ne.mpr hname
          rw [Json.withoutMembers, if_neg hname, Json.sortedMembers, ← hrest,
            List.filter_cons, if_pos hkept, ih.1 hcopy]
    rw [Json.without, Json.sorted, ← canonicalMembers_sorted, ← hfilter, canonicalMembers,
      canonicalMembers, List.filter_filter]
    simp
  | _ =>
    rw [canonicalValue, withinDepth_eq_ok] at h
    obtain ⟨-, h⟩ := h
    cases h
    rfl

/-! ### The text -/

/-- What ECMAScript promises of the text of a number: it is a JSON literal, and reading it gives
the number back. -/
def PrintsNumbers (engine : Engine) (v : Value) : Prop :=
  ∀ q ∈ v.numbers, isNumber (numberText engine q).toList = true ∧
    literalNumber engine (numberText engine q) = q

theorem canonicalJson_eq_ok {v : Value} {x : String} (h : canonicalJson engine v = .ok x) :
    x = stringify engine ((v.without PROTO).sorted utf16) := by
  rw [canonicalJson, map_eq_ok] at h
  obtain ⟨w, hw, rfl⟩ := h
  rw [canonicalValue_eq hw]
  rfl

/-- The text of a document determines it. -/
theorem stringify_injective {v w : Value} (hv : v.Distinct) (hw : w.Distinct)
    (hnv : PrintsNumbers engine v) (hnw : PrintsNumbers engine w)
    (h : stringify engine v = stringify engine w) : v = w := by
  have htext : asText (fun q => (numberText engine q).toList) v
      = asText (fun q => (numberText engine q).toList) w :=
    render_injective (fun q hq => (hnv q hq).1) (fun q hq => (hnw q hq).1) hv hw
      (String.ofList_injective h)
  have hread : ∀ {u : Value}, PrintsNumbers engine u →
      (asText (fun q => (numberText engine q).toList) u).map (literalNumber engine) = u := by
    intro u hu
    rw [asText, Json.map_map]
    refine Eq.trans (Json.map_congr fun q hq => ?_) (Json.map_id u)
    rw [Function.comp_apply, String.ofList_toList]
    exact (hu q hq).2
  rw [← hread hnv, ← hread hnw, htext]

/-- Two canonical texts are equal exactly if the documents are the same JSON value once the
members called `__proto__` are left out. -/
theorem canonicalJson_eq_iff {a b : Value} {x y : String} (ha : a.Distinct) (hb : b.Distinct)
    (hna : PrintsNumbers engine a) (hnb : PrintsNumbers engine b)
    (hx : canonicalJson engine a = .ok x) (hy : canonicalJson engine b = .ok y) :
    x = y ↔ Json.Same (a.without PROTO) (b.without PROTO) := by
  have ha' := Json.distinct_without PROTO ha
  have hb' := Json.distinct_without PROTO hb
  rw [← Json.sorted_eq_sorted_iff utf16_injective ha' hb', canonicalJson_eq_ok hx,
    canonicalJson_eq_ok hy]
  constructor
  · intro h
    refine stringify_injective (Json.distinct_sorted utf16 ha') (Json.distinct_sorted utf16 hb') ?_ ?_ h
    · exact fun q hq => hna q (Json.numbers_without PROTO (Json.numbers_sorted utf16 hq))
    · exact fun q hq => hnb q (Json.numbers_without PROTO (Json.numbers_sorted utf16 hq))
  · intro h
    rw [h]

theorem distinct_of_jsonParse {cs : List Char} {v : Value} (h : jsonParse engine cs = .ok v) :
    v.Distinct := by
  unfold jsonParse at h
  split at h
  next w hw =>
    cases h
    exact Json.distinct_map _ (distinct_of_parse hw)
  next => cases h

/-- The canonical texts of two parsed documents say whether they are the same JSON value exactly
if the documents do not differ in members called `__proto__` alone. -/
theorem canonicalJson_determines_iff {a b : Value} {cs ds : List Char} {x y : String}
    (ha : jsonParse engine cs = .ok a) (hb : jsonParse engine ds = .ok b)
    (hna : PrintsNumbers engine a) (hnb : PrintsNumbers engine b)
    (hx : canonicalJson engine a = .ok x) (hy : canonicalJson engine b = .ok y) :
    (x = y ↔ Json.Same a b) ↔
      (Json.Same (a.without PROTO) (b.without PROTO) → Json.Same a b) := by
  have hda := distinct_of_jsonParse ha
  have hdb := distinct_of_jsonParse hb
  rw [canonicalJson_eq_iff hda hdb hna hnb hx hy]
  exact ⟨Iff.mp, fun h => ⟨h, Json.same_without PROTO hda⟩⟩

/-! ### A lost member -/

/-- A mandate with a member of that name, and the mandate without it. -/
def protoDocument : Value := .obj [("id", .str "oati:mandate:1"), ("__proto__", .bool true)]
def plainDocument : Value := .obj [("id", .str "oati:mandate:1")]

/-- A rendered document without numbers is parsed back to itself. -/
theorem jsonParse_stringify {v : Value} (hv : v.Distinct) (hn : v.numbers = []) :
    jsonParse engine (stringify engine v).toList = .ok v := by
  have hread := @parse_render ℚ (fun q => (numberText engine q).toList) v
    (fun q hq => by rw [hn] at hq; cases hq) hv
  rw [jsonParse, stringify, String.toList_ofList, hread]
  refine congrArg Except.ok ?_
  rw [asText, Json.map_map]
  exact (Json.map_congr fun q hq => by rw [hn] at hq; cases hq).trans (Json.map_id v)

theorem distinct_protoDocument : protoDocument.Distinct := ⟨by decide, trivial, trivial, trivial⟩

theorem distinct_plainDocument : plainDocument.Distinct := ⟨by decide, trivial, trivial⟩

/-- The two documents are parsed from different texts and have one canonical text. -/
theorem protoDocument_lost :
    jsonParse plainEngine "\x7b\"id\":\"oati:mandate:1\",\"__proto__\":true\x7d".toList
        = .ok protoDocument ∧
      jsonParse plainEngine "\x7b\"id\":\"oati:mandate:1\"\x7d".toList = .ok plainDocument ∧
      canonicalJson plainEngine protoDocument = .ok "\x7b\"id\":\"oati:mandate:1\"\x7d" ∧
      canonicalJson plainEngine plainDocument = .ok "\x7b\"id\":\"oati:mandate:1\"\x7d" ∧
      ¬ Json.Same protoDocument plainDocument := by
  have hproto : stringify plainEngine protoDocument
      = "\x7b\"id\":\"oati:mandate:1\",\"__proto__\":true\x7d" := by
    decide +kernel
  have hplain : stringify plainEngine plainDocument = "\x7b\"id\":\"oati:mandate:1\"\x7d" := by
    decide +kernel
  refine ⟨?_, ?_, by decide +kernel, by decide +kernel, by decide +kernel⟩
  · rw [← hproto]
    exact jsonParse_stringify distinct_protoDocument rfl
  · rw [← hplain]
    exact jsonParse_stringify distinct_plainDocument rfl

theorem canonicalJson_determines_iff_plainDocument :
    ("\x7b\"id\":\"oati:mandate:1\"\x7d" = "\x7b\"id\":\"oati:mandate:1\"\x7d" ↔
        Json.Same plainDocument plainDocument) ↔
      (Json.Same (plainDocument.without PROTO) (plainDocument.without PROTO) →
        Json.Same plainDocument plainDocument) := by
  have hparse := @jsonParse_stringify plainEngine _ distinct_plainDocument rfl
  have hnumbers : PrintsNumbers plainEngine plainDocument := by
    intro q hq
    cases hq
  have htext : canonicalJson plainEngine plainDocument = .ok "\x7b\"id\":\"oati:mandate:1\"\x7d" := by
    decide +kernel
  exact canonicalJson_determines_iff hparse hparse hnumbers hnumbers htext htext

end Oati.TypeScript

import Oati.Library.JsonOrder
import Oati.TypeScript.CryptoSpec
import Oati.TypeScript.Middleware
import Oati.TypeScript.Numbers

/-!
# Documents in headers

Receipts and mandates travel as base64url of their canonical text. The canonical text sorts the
members of a document, so what is decoded is the same JSON value and in general not the same
listing of its members.

* `jsonParse_stringify_of_numbers`: the text of a document is read back if its numbers are.
* `decodeHeader_headerOf`: a header with the text of a document is decoded to the document.
* `headerCodec_roundTrips`: what is encoded is decoded to the same value, also when it was itself
  decoded from another header.
* `deepHeader_not_encoded`: a header can carry a document that is too deep for the canonical text.
-/

namespace Oati.TypeScript

open JsonText (isNumber head_of_isNumber)

variable {engine : Engine}

/-! ### The text of a document -/

/-- The characters of a header: `A`-`Z`, `a`-`z`, `0`-`9`, `-` and `_`. -/
def isHeaderChar (c : Char) : Bool :=
  ('A' ≤ c ∧ c ≤ 'Z') || ('a' ≤ c ∧ c ≤ 'z') || ('0' ≤ c ∧ c ≤ '9') || c = '-' || c = '_'

theorem isHeaderChar_eq (c : Char) : isHeaderChar c = Base64.isDigit c := by
  rw [isHeaderChar, Base64.isDigit, Base64.digitValue]
  split_ifs <;> simp_all

/-- A document whose numbers are printed as literals that give them back is read back from its
text. -/
theorem jsonParse_stringify_of_numbers {v : Value} (hv : v.Distinct)
    (hnumbers : PrintsNumbers engine v) :
    jsonParse engine (stringify engine v).toList = .ok v := by
  have hread := @JsonText.parse_render ℚ (fun q => (numberText engine q).toList) v
    (fun q hq => (hnumbers q hq).1) hv
  rw [jsonParse, stringify, String.toList_ofList, hread]
  refine congrArg Except.ok ?_
  rw [JsonText.asText, Json.map_map]
  refine (Json.map_congr fun q hq => ?_).trans (Json.map_id v)
  rw [Function.comp_apply, String.ofList_toList]
  exact (hnumbers q hq).2

/-- A text starts with an ASCII character, so with no byte order mark. -/
theorem stringify_head {v : Value} (hnumbers : PrintsNumbers engine v) :
    ∃ c cs, (stringify engine v).toList = c :: cs ∧ c.toNat ≠ 0xfeff := by
  rw [stringify, String.toList_ofList]
  cases v with
  | null => exact ⟨_, _, rfl, by decide⟩
  | bool b => cases b <;> exact ⟨_, _, rfl, by decide⟩
  | num q =>
    obtain ⟨c, cs, hcs, hc⟩ := head_of_isNumber (hnumbers q (by simp [Json.numbers])).1
    refine ⟨c, cs, by rw [JsonText.render, hcs], ?_⟩
    intro hmark
    rcases hc with hdigit | rfl
    · simp only [Char.isDigit, Bool.and_eq_true, decide_eq_true_eq, UInt32.le_iff_toNat_le]
        at hdigit
      have hbound : c.toNat ≤ 57 := hdigit.2
      omega
    · exact absurd hmark (by decide)
  | str s => exact ⟨_, _, rfl, by decide⟩
  | arr items => cases items <;> exact ⟨_, _, rfl, by decide⟩
  | obj members =>
    cases members with
    | nil => exact ⟨_, _, rfl, by decide⟩
    | cons m rest => exact ⟨_, _, rfl, by decide⟩

/-- Decoding drops nothing of the text. -/
theorem decodeText_encodeText_stringify {v : Value} (hnumbers : PrintsNumbers engine v) :
    decodeText (encodeText (stringify engine v)) = (stringify engine v).toList := by
  obtain ⟨c, cs, hcs, hc⟩ := stringify_head hnumbers
  rw [decodeText, encodeText, Utf8.decode_encode, hcs]
  simp only [if_neg hc]

theorem encodeText_stringify_ne_nil {v : Value} (hnumbers : PrintsNumbers engine v) :
    encodeText (stringify engine v) ≠ [] := by
  obtain ⟨c, cs, hcs, -⟩ := stringify_head hnumbers
  rw [encodeText, hcs]
  intro h
  have hdecode := Utf8.decode_encode (c :: cs)
  rw [h] at hdecode
  cases hdecode

/-- The base64url of a text is read back to the document. -/
theorem read_encoded {v : Value} (hv : v.Distinct) (hnumbers : PrintsNumbers engine v) :
    (do jsonParse engine (decodeText
        (← fromBase64url (Base64.encode (encodeText (stringify engine v)))))) = .ok v := by
  rw [fromBase64url_encode (encodeText_stringify_ne_nil hnumbers)]
  change jsonParse engine (decodeText (encodeText (stringify engine v))) = .ok v
  rw [decodeText_encodeText_stringify hnumbers]
  exact jsonParse_stringify_of_numbers hv hnumbers

/-! ### The codec -/

/-- The header that carries the text of a document as it is. -/
def headerOf (engine : Engine) (v : Value) : String :=
  String.ofList (Base64.encode (encodeText (stringify engine v)))

/-- A header with the text of a document is decoded to the document. -/
theorem decodeHeader_headerOf {v : Value} {name : String} {maxBytes : ℚ} (hv : v.Distinct)
    (hnumbers : PrintsNumbers engine v)
    (hsize : ((utf16 (headerOf engine v)).length : ℚ) ≤ maxBytes) :
    decodeHeader engine (some (headerOf engine v)) name maxBytes = .ok v := by
  have hbytes := encodeText_stringify_ne_nil hnumbers
  have hheader : headerOf engine v ≠ "" := by
    intro h
    have hempty := congrArg String.toList h
    rw [headerOf, String.toList_ofList] at hempty
    exact hbytes (Base64.encode_eq_nil.mp hempty)
  have hpresent : nonEmpty (some (headerOf engine v)) = some (headerOf engine v) := by
    simp [nonEmpty, Option.filter, hheader]
  have hread : (do jsonParse engine (decodeText (← fromBase64url (headerOf engine v).toList)))
      = .ok v := by
    rw [headerOf, String.toList_ofList]
    exact read_encoded hv hnumbers
  rw [decodeHeader, hpresent]
  simp only [if_neg (not_lt.mpr hsize), hread]

/-- Without a member called `__proto__`, the header carries the text of the sorted document. -/
theorem encodeOatiHeader_eq_ok {v : Value} {header : String} (hproto : PROTO ∉ v.names)
    (h : encodeOatiHeader engine v = .ok header) : header = headerOf engine (v.sorted utf16) := by
  simp only [encodeOatiHeader, bind_eq_ok, pure_eq_ok] at h
  obtain ⟨x, hx, rfl⟩ := h
  rw [canonicalJson_eq_ok hx, Json.without_of_notMem hproto, headerOf]

/-- A header that is encoded is made of characters of the alphabet, and decoding it gives the same
JSON value. -/
theorem decodeHeader_encoded {v : Value} {header name : String} {maxBytes : ℚ}
    (hdistinct : v.Distinct) (hproto : PROTO ∉ v.names) (hnumbers : PrintsNumbers engine v)
    (hencode : encodeOatiHeader engine v = .ok header)
    (hsize : ((utf16 header).length : ℚ) ≤ maxBytes) :
    (∀ c ∈ header.toList, isHeaderChar c = true) ∧
      ∃ w, decodeHeader engine (some header) name maxBytes = .ok w ∧ Json.Same v w := by
  obtain rfl := encodeOatiHeader_eq_ok hproto hencode
  have hsorted := Json.distinct_sorted utf16 hdistinct
  constructor
  · intro c hc
    rw [headerOf, String.toList_ofList] at hc
    rw [isHeaderChar_eq]
    exact Base64.isDigit_of_mem_encode hc
  · refine ⟨v.sorted utf16, decodeHeader_headerOf hsorted ?_ hsize, ?_⟩
    · exact fun q hq => hnumbers q (Json.numbers_sorted utf16 hq)
    · rw [← Json.sorted_eq_sorted_iff utf16_injective hdistinct hsorted]
      exact (Json.sorted_sorted utf16 utf16_injective hdistinct).symm

/-- What a header is decoded to has members of distinct names. -/
theorem distinct_of_decodeHeader {v : Value} {header : Option String} {name : String}
    {maxBytes : ℚ} (h : decodeHeader engine header name maxBytes = .ok v) : v.Distinct := by
  rcases hvalue : nonEmpty header with _ | text
  · rw [decodeHeader, hvalue] at h
    cases h
  · rw [decodeHeader, hvalue] at h
    simp only at h
    split_ifs at h
    rcases hread : (do jsonParse engine (decodeText (← fromBase64url text.toList))) with e | w
    · rw [hread] at h
      cases h
    · rw [hread] at h
      cases h
      rw [bind_eq_ok] at hread
      obtain ⟨bytes, -, hparse⟩ := hread
      exact distinct_of_jsonParse hparse

/-- Encoding and decoding are inverse: on byte strings, on documents without a member called
`__proto__`, and on documents that were decoded from a header, if they can be encoded within the
limit. The canonical text fails on a document that is too deep, and it may be longer than the text
the document was read from. -/
theorem headerCodec_roundTrips {v : Value} {header name : String} {maxBytes : ℚ}
    (hproto : PROTO ∉ v.names) (hnumbers : PrintsNumbers engine v)
    (hencode : encodeOatiHeader engine v = .ok header)
    (hsize : ((utf16 header).length : ℚ) ≤ maxBytes) :
    (v.Distinct → (∀ c ∈ header.toList, isHeaderChar c = true) ∧
        ∃ w, decodeHeader engine (some header) name maxBytes = .ok w ∧ Json.Same v w)
      ∧ (∀ received, decodeHeader engine (some received) name maxBytes = .ok v →
        ∃ w, decodeHeader engine (some header) name maxBytes = .ok w ∧ Json.Same v w)
      ∧ ∀ bytes, bytes ≠ [] → fromBase64url (Base64.encode bytes) = .ok bytes
        ∧ ∀ decoded, fromBase64url (Base64.encode bytes) = .ok decoded →
          Base64.encode decoded = Base64.encode bytes := by
  refine ⟨fun hdistinct => decodeHeader_encoded hdistinct hproto hnumbers hencode hsize,
    fun received hreceived => ?_, fun bytes hbytes => ⟨fromBase64url_encode hbytes, ?_⟩⟩
  · have hdistinct := distinct_of_decodeHeader hreceived
    exact (decodeHeader_encoded hdistinct hproto hnumbers hencode hsize).2
  · intro decoded hdecoded
    rw [fromBase64url_encode hbytes] at hdecoded
    rw [Except.ok.inj hdecoded]

theorem headerCodec_roundTrips_plainDocument :
    ∃ header w, decodeHeader plainEngine (some header) OATI_HTTP_HEADERS.mandate 65536 = .ok w
      ∧ Json.Same plainDocument w := by
  have htext : canonicalJson plainEngine plainDocument = .ok "\x7b\"id\":\"oati:mandate:1\"\x7d" := by
    decide
  have hencode : encodeOatiHeader plainEngine plainDocument
      = .ok "eyJpZCI6Im9hdGk6bWFuZGF0ZToxIn0" := by
    rw [encodeOatiHeader, htext]
    decide
  have hsize : ((utf16 "eyJpZCI6Im9hdGk6bWFuZGF0ZToxIn0").length : ℚ) ≤ 65536 := by
    decide
  have hnumbers : PrintsNumbers plainEngine plainDocument := by
    intro q hq
    cases hq
  obtain ⟨w, hw, hsame⟩ :=
    ((headerCodec_roundTrips (by decide) hnumbers hencode hsize).1
      distinct_plainDocument).2
  exact ⟨_, w, hw, hsame⟩

/-! ### Documents that are too deep -/

/-- Arrays in arrays. -/
def nested : ℕ → Value
  | 0 => .null
  | n + 1 => .arr [nested n]

theorem distinct_nested (n : ℕ) : (nested n).Distinct := by
  induction n with
  | zero => trivial
  | succ n ih => exact ⟨ih, trivial⟩

theorem numbers_nested (n : ℕ) : (nested n).numbers = [] := by
  induction n with
  | zero => rfl
  | succ n ih => rw [nested, Json.numbers, Json.itemNumbers, ih]; rfl

theorem printsNumbers_nested (n : ℕ) : PrintsNumbers engine (nested n) := by
  intro q hq
  rw [numbers_nested] at hq
  cases hq

theorem canonicalValue_nested {n depth : ℕ} (h : 256 < depth + n) :
    canonicalValue depth (nested n)
      = .error (invalid "JSON nesting exceeds the canonicalization limit") := by
  induction n generalizing depth with
  | zero => rw [nested, canonicalValue, withinDepth, if_pos (by omega)]
  | succ n ih =>
    rw [nested, canonicalValue, canonicalItems, ih (by omega), withinDepth]
    split_ifs <;> rfl

theorem length_render_nested (literal : ℚ → List Char) (n : ℕ) :
    (JsonText.render literal (nested n)).length = 2 * n + 4 := by
  induction n with
  | zero => rfl
  | succ n ih =>
    rw [nested, JsonText.render, JsonText.renderItems, List.length_append, List.length_cons, ih,
      List.length_singleton]
    omega

/-- A character takes at most two code units. -/
theorem length_utf16_le (s : String) : (utf16 s).length ≤ 2 * s.toList.length := by
  rw [utf16_eq_flatMap]
  induction s.toList with
  | nil => exact le_rfl
  | cons c cs ih =>
    have hunits : (units c).length ≤ 2 := by
      rw [units]
      split_ifs <;> simp
    rw [List.flatMap_cons, List.length_append, List.length_cons]
    omega

/-- The header is at most sixteen times as long as the text. -/
theorem length_headerOf_nested (n : ℕ) :
    (utf16 (headerOf engine (nested n))).length ≤ 16 * (2 * n + 4) := by
  have hunits := length_utf16_le (headerOf engine (nested n))
  have hdigits := Base64.length_encode_le (encodeText (stringify engine (nested n)))
  have hbytes := Utf8.length_encode_le (stringify engine (nested n)).toList
  have htext := length_render_nested (fun q => (numberText engine q).toList) n
  rw [headerOf, String.toList_ofList] at hunits
  rw [encodeText] at hdigits hunits
  rw [stringify, String.toList_ofList] at hbytes hdigits hunits
  rw [headerOf, encodeText, stringify, String.toList_ofList]
  omega

/-- Such a document is decoded from its header, and has no canonical text. -/
theorem deepHeader_not_encoded :
    decodeHeader plainEngine (some (headerOf plainEngine (nested 257)))
        OATI_HTTP_HEADERS.envelope 65536 = .ok (nested 257)
      ∧ encodeOatiHeader plainEngine (nested 257)
        = .error (invalid "JSON nesting exceeds the canonicalization limit") := by
  constructor
  · exact decodeHeader_headerOf (distinct_nested 257) (printsNumbers_nested 257)
      (by exact_mod_cast (length_headerOf_nested 257).trans (by norm_num))
  · rw [encodeOatiHeader, canonicalJson, canonicalValue_nested (by omega)]
    rfl

end Oati.TypeScript

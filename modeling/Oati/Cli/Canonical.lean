import Oati.Go.Canonical
import Oati.Library.JsonOrder

/-!
# Canonical JSON of the command line

The command-line tool takes the encoder of the standard library for the canonical form, without
the escapes for HTML. The encoder keeps number literals as they are, escapes the two line
separators of Unicode, and sorts the names of an object by their bytes.

* `canonicalJSON`: the text of a document that was decoded with its literals;
* `canonicalJSON_eq_iff`: it is that of the SDK exactly if every number is spelled as the
  canonical form spells it, no string has a line separator, and the names of every object are
  in the order of code units when they are in the order of code points.
* `same_of_canonicalJSON`: documents with one text are the same JSON value.
-/

namespace Oati.Cli

open JsonText (Literal TextWriter write render quote escapeChar Literals)
open Double (Digits IsShortest)
open Go (Value codePoints)
open TypeScript (utf16 utf16_injective shortestLiteral)

/-! ### The encoder -/

/-- What the encoder writes for a character. -/
def encodeChar (character : Char) : List Char :=
  match character with
  | '"' | '\\' => ['\\', character]
  | '\x08' => ['\\', 'b']
  | '\x0c' => ['\\', 'f']
  | '\n' => ['\\', 'n']
  | '\r' => ['\\', 'r']
  | '\t' => ['\\', 't']
  | '\u2028' => ['\\', 'u', '2', '0', '2', '8']
  | '\u2029' => ['\\', 'u', '2', '0', '2', '9']
  | _ =>
    if character.toNat < 0x20 then
      ['\\', 'u', '0', '0', JsonText.hexDigit (character.toNat / 16),
        JsonText.hexDigit (character.toNat % 16)]
    else [character]

/-- A string in quotes. -/
def encodeString (s : String) : List Char := '"' :: s.toList.flatMap encodeChar ++ ['"']

/-- `json.NewEncoder` with `SetEscapeHTML(false)`. -/
def encoder : TextWriter Literal String where
  number := fun literal => .ok literal.text.toList
  string := encodeString
  less := fun a b => decide (codePoints a < codePoints b)

/-- `canonicalJSON`. -/
def canonicalJSON (value : Value) : Except String String := String.ofList <$> write encoder value

/-- The document as the SDK takes it. -/
def decoded (value : Value) : Json Go.Number := value.map .number

/-! ### Line separators -/

/-- The characters that the encoder escapes and the canonical form does not. -/
def separators : List Char := ['\u2028', '\u2029']

/-- No string and no name has a line separator. -/
def NoSeparators (v : Value) : Prop :=
  ∀ s, s ∈ v.strings ∨ s ∈ v.names → ∀ c ∈ separators, c ∉ s.toList

theorem hexDigit_ne : ∀ d < 16, JsonText.hexDigit d ≠ '\u2028' ∧ JsonText.hexDigit d ≠ '\u2029' := by
  decide

/-- The encoder never writes a line separator. -/
theorem notMem_encodeChar {c : Char} (hc : c ∈ separators) (x : Char) : c ∉ encodeChar x := by
  have hc : c = '\u2028' ∨ c = '\u2029' := by simpa [separators] using hc
  unfold encodeChar
  split
  case h_9 => rcases hc with rfl | rfl <;> decide
  case h_10 h1 h2 h3 h4 h5 h6 h7 h8 h9 =>
    split_ifs with hcontrol
    · have hhigh := hexDigit_ne (x.toNat / 16) (by omega)
      have hlow := hexDigit_ne (x.toNat % 16) (by omega)
      rcases hc with rfl | rfl
      · simp [hhigh.1.symm, hlow.1.symm]
      · simp [hhigh.2.symm, hlow.2.symm]
    · rw [List.mem_singleton]
      rintro rfl
      exact hc.elim h8 h9
  all_goals rcases hc with rfl | rfl <;> decide

theorem notMem_encodeString {c : Char} (hc : c ∈ separators) (s : String) : c ∉ encodeString s := by
  have hquote : c ≠ '"' := by
    rintro rfl
    exact absurd hc (by decide)
  rw [encodeString, List.mem_append, List.mem_cons, List.mem_flatMap, List.mem_singleton, not_or,
    not_or]
  exact ⟨⟨hquote, fun ⟨x, _, hx⟩ => notMem_encodeChar hc x hx⟩, hquote⟩

/-- A line separator is not escaped in the canonical form. -/
theorem mem_quote {c : Char} (hc : c ∈ separators) {s : String} (h : c ∈ s.toList) :
    c ∈ quote s := by
  have hescape : ∀ c ∈ separators, escapeChar c = [c] := by simp [separators, escapeChar]
  rw [quote, List.mem_append, List.mem_cons, List.mem_flatMap]
  refine .inl (.inr ⟨c, h, ?_⟩)
  rw [hescape c hc]
  exact List.mem_singleton_self c

/-- Other characters are written alike. -/
theorem encodeChar_eq {c : Char} (hc : c ∉ separators) : encodeChar c = escapeChar c := by
  have hc : c ≠ '\u2028' ∧ c ≠ '\u2029' := by simpa [separators] using hc
  unfold encodeChar
  split
  case h_8 => exact absurd rfl hc.1
  case h_9 => exact absurd rfl hc.2
  case h_10 h1 h2 h3 h4 h5 h6 h7 h8 h9 =>
    rw [escapeChar, if_neg h1, if_neg h2, if_neg h3, if_neg h7, if_neg h5, if_neg h4, if_neg h6]
  all_goals rfl

theorem encodeString_eq {s : String} (h : ∀ c ∈ separators, c ∉ s.toList) :
    encodeString s = quote s := by
  have hchars : s.toList.flatMap encodeChar = s.toList.flatMap escapeChar :=
    List.flatMap_congr fun c hc => encodeChar_eq fun hmem => h c hmem hc
  rw [encodeString, quote, hchars]

/-! ### The two texts -/

variable {digits : ℚ → Digits} {v : Value} {text : String}

/-- The digits are shortest digits of the numbers of the document. -/
def ShortestIn (digits : ℚ → Digits) (v : Value) : Prop :=
  ∀ n ∈ v.numbers, Double.round n.value ≠ 0 →
    IsShortest |Double.round n.value| (digits |Double.round n.value|)

/-- The number is spelled as the canonical form spells it. -/
def Canonical (digits : ℚ → Digits) (n : Literal) : Prop :=
  n.text.toList = shortestLiteral digits (Double.round n.value)

theorem codePoints_injective : Function.Injective codePoints := by
  intro s t h
  exact String.toList_injective (List.map_injective_iff.mpr (fun _ _ => Char.toNat_inj.mp) h)

/-- A text starts from the text of its characters. -/
theorem write_eq_of_map {N ε : Type} {w : TextWriter N ε} {v : Json N}
    (h : String.ofList <$> write w v = .ok text) : write w v = .ok text.toList := by
  cases hw : write w v with
  | error e =>
    rw [hw] at h
    cases h
  | ok cs =>
    rw [hw] at h
    cases h
    rw [String.toList_ofList]

/-- The numbers of a document that the SDK writes are finite. -/
theorem isFinite_of_canonicalJSON (h : Go.canonicalJSON digits (decoded v) = .ok text) :
    ∀ n ∈ v.numbers, Double.IsFinite (Double.round n.value) := by
  intro n hn
  obtain ⟨cs, hcs⟩ := JsonText.exists_number_of_write (write_eq_of_map h)
    (Json.mem_numbers_map (f := Go.Number.number) hn)
  refine ⟨Double.round_round _, ?_⟩
  by_contra hlarge
  have hparse : Go.parseFloat n = .error _ := if_pos (not_lt.mp hlarge)
  have hwrite : Go.writeNumber digits (.number n) = .ok cs := hcs
  rw [Go.writeNumber, hparse] at hwrite
  cases hwrite

/-- The text of the SDK is that of the sorted document. -/
theorem toList_of_canonicalJSON (hshortest : ShortestIn digits v)
    (h : Go.canonicalJSON digits (decoded v) = .ok text) :
    text.toList
      = render (fun n : Literal => shortestLiteral digits (Double.round n.value))
          (v.sorted utf16) := by
  have hfinite := isFinite_of_canonicalJSON h
  have hnumbers : ∀ n ∈ (decoded v).numbers, ∃ literal ∈ v.numbers, n = .number literal := by
    intro n hn
    exact Json.exists_of_mem_numbers_map hn
  have htext := @Go.canonicalJSON_eq digits (decoded v)
    (fun n hn => by
      obtain ⟨literal, hl, rfl⟩ := hnumbers n hn
      exact hfinite literal hl)
    (fun n hn => by
      obtain ⟨literal, hl, rfl⟩ := hnumbers n hn
      exact hshortest literal hl)
  rw [h, Except.ok.injEq] at htext
  rw [htext, String.toList_ofList, decoded, Json.map_map, Json.sorted_map, JsonText.render_map]
  rfl

/-- Without line separators, the text of the encoder is that of the document sorted by code
points. -/
theorem write_encoder (h : NoSeparators v) :
    write encoder v
      = .ok (render (fun n : Literal => n.text.toList) (v.sorted codePoints)) := by
  have hless : ∀ a b, encoder.less a b = true ↔ codePoints a < codePoints b :=
    fun a b => decide_eq_true_iff
  have hnumber : ∀ n ∈ v.numbers, encoder.number n = .ok n.text.toList := fun n _ => rfl
  have htext := JsonText.write_eq_render (f := Literal.text) hless
    (fun s hs => encodeString_eq (h s hs)) hnumber
  rw [Json.sorted_map, JsonText.render_map] at htext
  exact htext

/-- Texts that are equal have no line separators: the encoder does not write them, and the
canonical form does. -/
theorem noSeparators_of_eq (hsdk : Go.canonicalJSON digits (decoded v) = .ok text)
    (hcli : canonicalJSON v = .ok text) : NoSeparators v := by
  intro s hs c hc hmem
  have hpunctuation : c ∉ JsonText.punctuation := by
    have hall : ∀ c ∈ separators, c ∉ JsonText.punctuation := by
      simp [separators, JsonText.punctuation]
    exact hall c hc
  have hin : c ∈ text.toList := by
    refine (JsonText.mem_write_iff hpunctuation (write_eq_of_map hsdk)).mpr (.inr ⟨s, ?_, ?_⟩)
    · rwa [decoded, Json.strings_map, Json.names_map]
    · have hquote : (Go.canonicalWriter digits).string s = quote s :=
        congrFun Go.writeCanonicalString_eq s
      rw [hquote]
      exact mem_quote hc hmem
  rcases (JsonText.mem_write_iff hpunctuation (write_eq_of_map hcli)).mp hin with
    ⟨n, -, cs, hcs, hchar⟩ | ⟨t, -, hchar⟩
  · cases hcs
    have hnumber := JsonText.all_of_isNumber n.isNumber c hchar
    have hall : ∀ c ∈ separators, JsonText.isNumberChar c = false := by
      simp [separators, JsonText.isNumberChar]
    rw [hall c hc] at hnumber
    cases hnumber
  · exact notMem_encodeString hc t hchar

/-- The command line signs the text of the SDK exactly if every number is spelled canonically, no
string has a line separator, and the names of every object are in one order as code units and as
code points. -/
theorem canonicalJSON_eq_iff (hv : v.Distinct) (hshortest : ShortestIn digits v)
    (hsdk : Go.canonicalJSON digits (decoded v) = .ok text) :
    canonicalJSON v = .ok text ↔
      (∀ n ∈ v.numbers, Canonical digits n) ∧ NoSeparators v ∧
        v.OrderedAlike utf16 codePoints := by
  have hliterals : Literals (fun n : Literal => shortestLiteral digits (Double.round n.value)) v :=
    fun n hn => TypeScript.isNumber_numberString (hshortest n hn)
  have hsame := JsonText.render_sorted_eq_iff utf16_injective codePoints_injective hv hliterals
    (b := fun n : Literal => n.text.toList) fun n _ => n.isNumber
  have htext := toList_of_canonicalJSON hshortest hsdk
  constructor
  · intro hcli
    have hnone := noSeparators_of_eq hsdk hcli
    have hwrite := write_eq_of_map hcli
    rw [write_encoder hnone, Except.ok.injEq, htext, eq_comm, hsame] at hwrite
    obtain ⟨hspelled, halike⟩ := hwrite
    exact ⟨fun n hn => (hspelled n hn).symm, hnone, halike⟩
  · rintro ⟨hspelled, hnone, halike⟩
    have hrender := hsame.mpr ⟨fun n hn => (hspelled n hn).symm, halike⟩
    rw [canonicalJSON, write_encoder hnone, ← hrender, ← htext]
    exact congrArg Except.ok String.ofList_toList

/-! ### The text determines the document -/

/-- Undo the escapes of the line separators. -/
def unescape : List Char → List Char
  | '\\' :: 'u' :: '2' :: '0' :: '2' :: '8' :: rest => '\u2028' :: unescape rest
  | '\\' :: 'u' :: '2' :: '0' :: '2' :: '9' :: rest => '\u2029' :: unescape rest
  | '\\' :: c :: rest => '\\' :: c :: unescape rest
  | c :: rest => c :: unescape rest
  | [] => []

/-- The encoder, with the separators as they are. -/
def plainEncoder : TextWriter Literal String := { encoder with string := quote }

theorem unescape_cons {c : Char} (hc : c ≠ '\\') (rest : List Char) :
    unescape (c :: rest) = c :: unescape rest := by
  rw [unescape.eq_def]
  split
  case h_4 heq =>
    obtain ⟨rfl, rfl⟩ := List.cons.inj heq
    rfl
  case h_5 heq => cases heq
  all_goals
    rename_i heq
    exact absurd (List.cons.inj heq).1 hc

theorem unescape_append {cs : List Char} (hcs : ∀ c ∈ cs, c ≠ '\\') (rest : List Char) :
    unescape (cs ++ rest) = cs ++ unescape rest := by
  induction cs with
  | nil => rfl
  | cons c cs ih =>
    rw [List.forall_mem_cons] at hcs
    rw [List.cons_append, unescape_cons hcs.1, ih hcs.2, List.cons_append]

/-- An escape of two characters stays. -/
theorem unescape_escape {c : Char} (hc : c ≠ 'u') (rest : List Char) :
    unescape ('\\' :: c :: rest) = '\\' :: c :: unescape rest := by
  rw [unescape.eq_def]
  split
  case h_1 heq => exact absurd (List.cons.inj (List.cons.inj heq).2).1 hc
  case h_2 heq => exact absurd (List.cons.inj (List.cons.inj heq).2).1 hc
  case h_3 heq =>
    obtain ⟨-, heq⟩ := List.cons.inj heq
    obtain ⟨rfl, rfl⟩ := List.cons.inj heq
    rfl
  case h_4 hnone heq =>
    obtain ⟨rfl, rfl⟩ := List.cons.inj heq
    exact absurd rfl (hnone c rest rfl)
  case h_5 heq => cases heq

theorem hexDigit_ne_backslash : ∀ d < 16, JsonText.hexDigit d ≠ '\\' := by
  decide

theorem unescape_encodeChar (c : Char) (rest : List Char) :
    unescape (encodeChar c ++ rest) = escapeChar c ++ unescape rest := by
  by_cases hc : c ∈ separators
  · have hc : c = '\u2028' ∨ c = '\u2029' := by simpa [separators] using hc
    rcases hc with rfl | rfl <;> rfl
  rw [encodeChar_eq hc, escapeChar]
  split_ifs with h1 h2 h3 h4 h5 h6 h7 hcontrol
  iterate 7 exact unescape_escape (by decide) rest
  · -- the escape of a control character starts with zeros
    have hhigh := hexDigit_ne_backslash (c.toNat / 16) (by omega)
    have hlow := hexDigit_ne_backslash (c.toNat % 16) (by omega)
    have hdigits : ∀ d ∈ ['0', '0', JsonText.hexDigit (c.toNat / 16),
        JsonText.hexDigit (c.toNat % 16)], d ≠ '\\' := by
      simp [hhigh, hlow]
    exact congrArg (fun cs => '\\' :: 'u' :: cs) (unescape_append hdigits rest)
  · exact unescape_cons h2 rest

theorem unescape_encodeString (s : String) (rest : List Char) :
    unescape (encodeString s ++ rest) = quote s ++ unescape rest := by
  have hchars : ∀ cs rest, unescape (List.flatMap encodeChar cs ++ rest)
      = List.flatMap escapeChar cs ++ unescape rest := by
    intro cs rest
    induction cs with
    | nil => rfl
    | cons c cs ih =>
      rw [List.flatMap_cons, List.append_assoc, unescape_encodeChar, ih, List.flatMap_cons,
        List.append_assoc]
  have hquote : ∀ rest, unescape ('"' :: rest) = '"' :: unescape rest :=
    fun rest => unescape_cons (by decide) rest
  have hshape : encodeString s ++ rest = '"' :: (s.toList.flatMap encodeChar ++ '"' :: rest) := by
    simp [encodeString]
  rw [hshape, hquote, hchars, hquote, quote]
  simp

/-- The text without escapes is that of the document sorted by code points. -/
theorem unescape_write {cs : List Char} (h : write encoder v = .ok cs) :
    unescape cs = render (fun n : Literal => n.text.toList) (v.sorted codePoints) := by
  have hless : ∀ a b, plainEncoder.less a b = true ↔ codePoints a < codePoints b :=
    fun a b => decide_eq_true_iff
  have hnumber : ∀ n ∈ v.numbers, plainEncoder.number n = .ok n.text.toList := fun n _ => rfl
  have hplain := JsonText.write_eq_render (f := Literal.text) hless (fun s _ => rfl) hnumber
  rw [Json.sorted_map, JsonText.render_map] at hplain
  have hpunctuation : ∀ c ∈ JsonText.punctuation, c ≠ '\\' := by simp [JsonText.punctuation]
  have hliteral : ∀ n : Literal, ∀ c ∈ n.text.toList, c ≠ '\\' := by
    rintro n c hc rfl
    have hnumber := JsonText.all_of_isNumber n.isNumber _ hc
    cases hnumber
  have htext := @JsonText.write_transform Literal String encoder plainEncoder unescape rfl
    (fun c hc rest => unescape_cons (hpunctuation c hc) rest) unescape_encodeString
    (fun n _ _ rest hcs hcs' => by
      cases hcs
      cases hcs'
      exact unescape_append (hliteral n) rest)
    v _ _ h hplain []
  rwa [List.append_nil, unescape, List.append_nil] at htext

/-- Documents with one text are the same up to the order of members. -/
theorem same_of_canonicalJSON {w : Value} (hv : v.Distinct) (hw : w.Distinct)
    (h : canonicalJSON v = .ok text) (h' : canonicalJSON w = .ok text) : Json.Same v w := by
  have hrender := (unescape_write (write_eq_of_map h)).symm.trans
    (unescape_write (write_eq_of_map h'))
  have hliterals : ∀ u : Value, Literals (fun n : Literal => n.text.toList) u :=
    fun u n _ => n.isNumber
  have htexts := JsonText.render_injective (hliterals _) (hliterals _)
    (Json.distinct_sorted _ hv) (Json.distinct_sorted _ hw) hrender
  have hinjective : Function.Injective fun n : Literal => String.ofList n.text.toList := by
    intro n n' hn
    simp only [String.ofList_toList] at hn
    cases n
    cases n'
    congr
  exact (Json.sorted_eq_sorted_iff codePoints_injective hv hw).mp
    (Json.map_injective hinjective htexts)


/-! ### Documents that are written differently -/

def pointLiteral : Literal := ⟨"1.0", by decide⟩

/-- A decimal point, a line separator, and names in two orders. -/
def pointDocument : Value := .obj [("amount", .num pointLiteral)]
def separatorDocument : Value := .obj [("purpose", .str "a\u2028b")]
def orderDocument : Value := .obj [("😀", .null), ("\uffee", .null)]

/-- The shortest digits of one. -/
def oneDigits (_ : ℚ) : Digits := ⟨1, 1⟩

/-- Each of the three documents has another text in the SDK. -/
theorem canonicalJSON_ne_sdk :
    (Go.canonicalJSON oneDigits (decoded pointDocument) = .ok "\x7b\"amount\":1\x7d" ∧
      canonicalJSON pointDocument = .ok "\x7b\"amount\":1.0\x7d") ∧
    (Go.canonicalJSON oneDigits (decoded separatorDocument)
        = .ok "\x7b\"purpose\":\"a\u2028b\"\x7d" ∧
      canonicalJSON separatorDocument = .ok "\x7b\"purpose\":\"a\\u2028b\"\x7d") ∧
    (Go.canonicalJSON oneDigits (decoded orderDocument)
        = .ok "\x7b\"😀\":null,\"\uffee\":null\x7d" ∧
      canonicalJSON orderDocument = .ok "\x7b\"\uffee\":null,\"😀\":null\x7d") := by
  decide +kernel

/-- One. -/
theorem isShortest_one : IsShortest 1 ⟨1, 1⟩ where
  pos := Nat.one_pos
  round_value := by
    have hvalue : (⟨1, 1⟩ : Digits).value = ((1 : ℤ) : ℚ) := by decide +kernel
    rw [hvalue, Double.round_intCast_of_natAbs_le (by decide)]
    rfl
  minimal := fun e _ _ => e.length_pos

theorem canonicalJSON_eq_iff_point :
    canonicalJSON pointDocument = .ok "\x7b\"amount\":1\x7d" ↔
      (∀ n ∈ pointDocument.numbers, Canonical oneDigits n) ∧ NoSeparators pointDocument ∧
        pointDocument.OrderedAlike utf16 codePoints := by
  have hdistinct : pointDocument.Distinct := ⟨by decide, trivial, trivial⟩
  have hround : Double.round pointLiteral.value = 1 := by decide +kernel
  have hshortest : ShortestIn oneDigits pointDocument := by
    intro n hn _
    obtain rfl : n = pointLiteral := List.mem_singleton.mp hn
    rw [hround, abs_one]
    exact isShortest_one
  exact canonicalJSON_eq_iff hdistinct hshortest (by decide +kernel)

end Oati.Cli

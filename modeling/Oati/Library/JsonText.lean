import Oati.Library.Json
import Oati.Library.Numeral

/-!
# JSON texts

The grammar of JSON: a parser that keeps number literals as they are written, and the renderer
without insignificant whitespace that the canonical forms are made of. Of two members with one
name the parser keeps the later value, in the place of the earlier, as the usual decoders do.

* `parse_render`: the parser undoes the renderer, for values with distinct names whose numbers
  are rendered as literals.
* `render_injective`: hence the text determines the value, up to the literals.

Strings are sequences of Unicode scalar values: an escape that denotes a lone surrogate is
rejected.
-/

namespace JsonText

open Numeral

variable {N : Type}

/-! ### Tokens -/

/-- Insignificant whitespace. -/
def isWhitespace (c : Char) : Bool := c == ' ' || c == '\t' || c == '\n' || c == '\r'

/-- Drop leading whitespace. -/
def skipWhitespace (cs : List Char) : List Char := cs.dropWhile isWhitespace

/-- The characters that occur in number literals. -/
def isNumberChar (c : Char) : Bool :=
  c.isDigit || c == '-' || c == '+' || c == '.' || c == 'e' || c == 'E'

/-- An exponent without its letter: an optional sign and digits. -/
def isExponent (cs : List Char) : Bool :=
  match cs with
  | '+' :: digits => IsFraction digits
  | '-' :: digits => IsFraction digits
  | digits => IsFraction digits

/-- What may follow the integer part of a literal. -/
def isNumberTail (cs : List Char) : Bool :=
  match cs with
  | [] => true
  | '.' :: rest =>
    IsFraction (rest.takeWhile Char.isDigit) &&
      match rest.dropWhile Char.isDigit with
      | [] => true
      | e :: exponent => (e == 'e' || e == 'E') && isExponent exponent
  | e :: exponent => (e == 'e' || e == 'E') && isExponent exponent

/-- A number literal: `-? (0 | [1-9][0-9]*) (. [0-9]+)? ([eE] [+-]? [0-9]+)?`. -/
def isNumber (cs : List Char) : Bool :=
  let unsigned := match cs with
    | '-' :: rest => rest
    | rest => rest
  IsWhole (unsigned.takeWhile Char.isDigit) && isNumberTail (unsigned.dropWhile Char.isDigit)

/-- The value of a hexadecimal digit. -/
def hexValue (c : Char) : Option ℕ :=
  if '0' ≤ c ∧ c ≤ '9' then some (c.toNat - '0'.toNat)
  else if 'a' ≤ c ∧ c ≤ 'f' then some (c.toNat - 'a'.toNat + 10)
  else if 'A' ≤ c ∧ c ≤ 'F' then some (c.toNat - 'A'.toNat + 10)
  else none

/-- Four hexadecimal digits. -/
def hexUnit (a b c d : Char) : Option ℕ := do
  return (← hexValue a) * 4096 + (← hexValue b) * 256 + (← hexValue c) * 16 + (← hexValue d)

/-- The escapes of one letter. -/
def shortEscape (c : Char) : Option Char :=
  match c with
  | '"' => some '"'
  | '\\' => some '\\'
  | '/' => some '/'
  | 'b' => some '\x08'
  | 'f' => some '\x0c'
  | 'n' => some '\n'
  | 'r' => some '\r'
  | 't' => some '\t'
  | _ => none

/-- The character with a scalar value. -/
def scalarOf (n : ℕ) : Option Char := if n.isValidChar then some (Char.ofNat n) else none

/-- The scalar value of a surrogate pair. -/
def pairOf (high low : ℕ) : Option Char :=
  if 0xdc00 ≤ low ∧ low < 0xe000 then
    scalarOf (0x10000 + (high - 0xd800) * 0x400 + (low - 0xdc00))
  else none

/-- One more character in front of those that follow. -/
def push (c : Option Char) (rest : Option (List Char × List Char)) :
    Option (List Char × List Char) := do
  let c ← c
  let (chars, after) ← rest
  return (c :: chars, after)

/-- The characters of a string after its opening quote, and the text after its closing one.
`pending` is a high surrogate that waits for the low one. -/
def parseChars : Option ℕ → List Char → Option (List Char × List Char)
  | none, '"' :: rest => some ([], rest)
  | pending, '\\' :: 'u' :: a :: b :: c :: d :: rest => do
    let unit ← hexUnit a b c d
    match pending with
    | some high => push (pairOf high unit) (parseChars none rest)
    | none =>
      if 0xd800 ≤ unit ∧ unit < 0xdc00 then parseChars (some unit) rest
      else push (scalarOf unit) (parseChars none rest)
  | none, '\\' :: c :: rest => push (shortEscape c) (parseChars none rest)
  | none, c :: rest => if c.toNat < 0x20 then none else push (some c) (parseChars none rest)
  | _, _ => none

/-! ### Values -/

/-- Members in the order of their names' first occurrences, each with its last value. -/
def insertMember (members : List (String × Json N)) (key : String) (v : Json N) :
    List (String × Json N) :=
  match members with
  | [] => [(key, v)]
  | (k, w) :: rest => if k = key then (k, v) :: rest else (k, w) :: insertMember rest key v

/-- The members an object keeps of those in its text. -/
def collect (members : List (String × Json N)) : List (String × Json N) :=
  members.foldl (fun acc m => insertMember acc m.1 m.2) []

mutual

/-- One value, and the text after it. -/
def parseValue : ℕ → List Char → Option (Json String × List Char)
  | 0, _ => none
  | fuel + 1, cs =>
    match skipWhitespace cs with
    | 'n' :: 'u' :: 'l' :: 'l' :: rest => some (.null, rest)
    | 't' :: 'r' :: 'u' :: 'e' :: rest => some (.bool true, rest)
    | 'f' :: 'a' :: 'l' :: 's' :: 'e' :: rest => some (.bool false, rest)
    | '"' :: rest => (parseChars none rest).map fun (chars, r) => (.str (String.ofList chars), r)
    | '[' :: rest =>
      match skipWhitespace rest with
      | ']' :: r => some (.arr [], r)
      | r => (parseItems fuel r).map fun (items, r') => (.arr items, r')
    | '{' :: rest =>
      match skipWhitespace rest with
      | '}' :: r => some (.obj [], r)
      | r => (parseMembers fuel r).map fun (members, r') => (.obj (collect members), r')
    | rest =>
      if isNumber (rest.takeWhile isNumberChar) then
        some (.num (String.ofList (rest.takeWhile isNumberChar)), rest.dropWhile isNumberChar)
      else none
termination_by structural fuel => fuel

/-- The items of an array up to its closing bracket. -/
def parseItems : ℕ → List Char → Option (List (Json String) × List Char)
  | 0, _ => none
  | fuel + 1, cs => do
    let (v, rest) ← parseValue fuel cs
    match skipWhitespace rest with
    | ',' :: r => (parseItems fuel r).map fun (items, r') => (v :: items, r')
    | ']' :: r => some ([v], r)
    | _ => none
termination_by structural fuel => fuel

/-- The members of an object up to its closing brace. -/
def parseMembers : ℕ → List Char → Option (List (String × Json String) × List Char)
  | 0, _ => none
  | fuel + 1, cs =>
    match skipWhitespace cs with
    | '"' :: quoted => do
      let (key, rest) ← parseChars none quoted
      match skipWhitespace rest with
      | ':' :: r => do
        let (v, rest) ← parseValue fuel r
        match skipWhitespace rest with
        | ',' :: r' =>
          (parseMembers fuel r').map fun (members, r'') => ((String.ofList key, v) :: members, r'')
        | '}' :: r' => some ([(String.ofList key, v)], r')
        | _ => none
      | _ => none
    | _ => none
termination_by structural fuel => fuel

end

/-- A text that is one value, with whitespace around it. -/
def parse (cs : List Char) : Option (Json String) :=
  match parseValue (cs.length + 1) cs with
  | some (v, rest) => if skipWhitespace rest = [] then some v else none
  | none => none

/-! ### Rendering -/

/-- A hexadecimal digit in lower case. -/
def hexDigit (n : ℕ) : Char := if n < 10 then Char.ofNat (n + '0'.toNat) else Char.ofNat (n - 10 + 'a'.toNat)

/-- The escape of a character in a string. -/
def escapeChar (c : Char) : List Char :=
  if c = '"' then ['\\', '"']
  else if c = '\\' then ['\\', '\\']
  else if c = '\x08' then ['\\', 'b']
  else if c = '\t' then ['\\', 't']
  else if c = '\n' then ['\\', 'n']
  else if c = '\x0c' then ['\\', 'f']
  else if c = '\r' then ['\\', 'r']
  else if c.toNat < 0x20 then
    ['\\', 'u', '0', '0', hexDigit (c.toNat / 16), hexDigit (c.toNat % 16)]
  else [c]

/-- A string in quotes. -/
def quote (s : String) : List Char := '"' :: s.toList.flatMap escapeChar ++ ['"']

mutual

/-- A value without whitespace; `literal` renders its numbers. -/
def render (literal : N → List Char) : Json N → List Char
  | .null => ['n', 'u', 'l', 'l']
  | .bool true => ['t', 'r', 'u', 'e']
  | .bool false => ['f', 'a', 'l', 's', 'e']
  | .num n => literal n
  | .str s => quote s
  | .arr [] => ['[', ']']
  | .arr (v :: rest) => '[' :: render literal v ++ renderItems literal rest
  | .obj [] => ['{', '}']
  | .obj ((key, v) :: rest) =>
    '{' :: quote key ++ ':' :: render literal v ++ renderMembers literal rest
termination_by structural v => v

/-- The items after the first. -/
def renderItems (literal : N → List Char) : List (Json N) → List Char
  | [] => [']']
  | v :: rest => ',' :: render literal v ++ renderItems literal rest
termination_by structural items => items

/-- The members after the first. -/
def renderMembers (literal : N → List Char) : List (String × Json N) → List Char
  | [] => ['}']
  | (key, v) :: rest =>
    ',' :: quote key ++ ':' :: render literal v ++ renderMembers literal rest
termination_by structural members => members

end

/-! ### Tokens are read back -/

/-- A text that does not start inside a number literal. -/
def NoNumberHead (cs : List Char) : Prop := ∀ c rest, cs = c :: rest → isNumberChar c = false

theorem noNumberHead_cons {c : Char} {rest : List Char} (h : isNumberChar c = false) :
    NoNumberHead (c :: rest) := by
  rintro _ _ ⟨⟩
  exact h

theorem noNumberHead_nil : NoNumberHead [] := by
  rintro _ _ ⟨⟩

/-- A run of number characters ends where the next text starts. -/
theorem span_number {literal rest : List Char} (h : ∀ c ∈ literal, isNumberChar c = true)
    (hrest : NoNumberHead rest) :
    (literal ++ rest).takeWhile isNumberChar = literal ∧
      (literal ++ rest).dropWhile isNumberChar = rest := by
  induction literal with
  | nil =>
    cases rest with
    | nil => exact ⟨rfl, rfl⟩
    | cons c rest =>
      have hc := hrest c rest rfl
      simp [hc]
  | cons c literal ih =>
    obtain ⟨hc, hliteral⟩ := List.forall_mem_cons.mp h
    obtain ⟨htake, hdrop⟩ := ih hliteral
    simp [hc, htake, hdrop]

theorem isNumberChar_of_isDigit {c : Char} (h : c.isDigit = true) : isNumberChar c = true := by
  simp [isNumberChar, h]

theorem all_of_isFraction {cs : List Char} (h : IsFraction cs = true) :
    ∀ c ∈ cs, isNumberChar c = true := by
  simp only [IsFraction, Bool.and_eq_true, List.all_eq_true] at h
  exact fun c hc => isNumberChar_of_isDigit (h.2 c hc)

theorem all_of_isExponent {cs : List Char} (h : isExponent cs = true) :
    ∀ c ∈ cs, isNumberChar c = true := by
  unfold isExponent at h
  split at h
  · exact List.forall_mem_cons.mpr ⟨by decide, all_of_isFraction h⟩
  · exact List.forall_mem_cons.mpr ⟨by decide, all_of_isFraction h⟩
  · exact all_of_isFraction h

/-- A run that splits into digits and a tail of number characters. -/
theorem all_of_digits {cs : List Char}
    (h : ∀ c ∈ cs.dropWhile Char.isDigit, isNumberChar c = true) :
    ∀ c ∈ cs, isNumberChar c = true := by
  intro c hc
  rw [← List.takeWhile_append_dropWhile (p := Char.isDigit) (l := cs), List.mem_append] at hc
  rcases hc with hdigit | htail
  · exact isNumberChar_of_isDigit (List.all_eq_true.mp List.all_takeWhile c hdigit)
  · exact h c htail

theorem all_of_exponentPart {e : Char} {exponent : List Char}
    (h : ((e == 'e' || e == 'E') && isExponent exponent) = true) :
    ∀ c ∈ e :: exponent, isNumberChar c = true := by
  rw [Bool.and_eq_true, Bool.or_eq_true, beq_iff_eq, beq_iff_eq] at h
  refine List.forall_mem_cons.mpr ⟨?_, all_of_isExponent h.2⟩
  rcases h.1 with rfl | rfl <;> decide

theorem all_of_isNumberTail {cs : List Char} (h : isNumberTail cs = true) :
    ∀ c ∈ cs, isNumberChar c = true := by
  unfold isNumberTail at h
  split at h
  · simp
  · rw [Bool.and_eq_true] at h
    refine List.forall_mem_cons.mpr ⟨by decide, all_of_digits ?_⟩
    have htail := h.2
    split at htail
    next hnil => rw [hnil]; simp
    next e exponent he => rw [he]; exact all_of_exponentPart htail
  · exact all_of_exponentPart h

/-- Every character of a literal is a number character. -/
theorem all_of_isNumber {cs : List Char} (h : isNumber cs = true) :
    ∀ c ∈ cs, isNumberChar c = true := by
  unfold isNumber at h
  rw [Bool.and_eq_true] at h
  have htail := all_of_digits (all_of_isNumberTail h.2)
  split at htail
  next rest => exact List.forall_mem_cons.mpr ⟨by decide, htail⟩
  next => exact htail

/-- A literal is not empty, and starts with a digit or a minus sign. -/
theorem head_of_isNumber {cs : List Char} (h : isNumber cs = true) :
    ∃ c rest, cs = c :: rest ∧ (c.isDigit = true ∨ c = '-') := by
  cases cs with
  | nil => exact absurd h (by decide)
  | cons c rest =>
    refine ⟨c, rest, rfl, ?_⟩
    by_cases hminus : c = '-'
    · exact .inr hminus
    · left
      by_contra hdigit
      unfold isNumber at h
      split at h
      next heq => cases heq; exact hminus rfl
      next =>
        rw [Bool.and_eq_true, List.takeWhile_cons_of_neg hdigit] at h
        exact absurd h.1 (by decide)

theorem hexValue_hexDigit : ∀ d < 16, hexValue (hexDigit d) = some d := by decide

theorem scalarOf_toNat (c : Char) : scalarOf c.toNat = some c := by
  have hvalid : c.toNat.isValidChar := c.valid
  rw [scalarOf, if_pos hvalid, Char.ofNat_toNat]

/-- Reading an escaped character gives the character back. -/
theorem parseChars_escapeChar (c : Char) (rest : List Char) :
    parseChars none (escapeChar c ++ rest) = push (some c) (parseChars none rest) := by
  unfold escapeChar
  split_ifs with h1 h2 h3 h4 h5 h6 h7 hcontrol
  · subst h1; rfl
  · subst h2; rfl
  · subst h3; rfl
  · subst h4; rfl
  · subst h5; rfl
  · subst h6; rfl
  · subst h7; rfl
  · -- the two hexadecimal digits of a control character
    have hhigh := hexValue_hexDigit (c.toNat / 16) (by omega)
    have hlow := hexValue_hexDigit (c.toNat % 16) (by omega)
    have hunit : hexUnit '0' '0' (hexDigit (c.toNat / 16)) (hexDigit (c.toNat % 16))
        = some c.toNat := by
      simp [hexUnit, hhigh, hlow, show hexValue '0' = some 0 from rfl]
      omega
    have hlow' : ¬ (0xd800 ≤ c.toNat ∧ c.toNat < 0xdc00) := by omega
    simp only [List.cons_append, List.nil_append, parseChars, hunit, Option.bind_eq_bind,
      Option.bind_some, if_neg hlow', scalarOf_toNat]
  · rw [List.singleton_append, parseChars.eq_def]
    split <;> simp_all

theorem parseChars_flatMap (chars rest : List Char) :
    parseChars none (chars.flatMap escapeChar ++ '"' :: rest) = some (chars, rest) := by
  induction chars with
  | nil => rfl
  | cons c chars ih =>
    rw [List.flatMap_cons, List.append_assoc, parseChars_escapeChar, ih]
    rfl

/-- A quoted string is read back. -/
theorem parseChars_quote (s : String) (rest : List Char) :
    parseChars none (s.toList.flatMap escapeChar ++ '"' :: rest) = some (s.toList, rest) :=
  parseChars_flatMap _ _

/-! ### Values are read back -/

theorem skipWhitespace_cons {c : Char} {rest : List Char} (h : isWhitespace c = false) :
    skipWhitespace (c :: rest) = c :: rest := by
  simp [skipWhitespace, h]

theorem insertMember_of_notMem {members : List (String × Json N)} {key : String} {v : Json N}
    (h : key ∉ members.map Prod.fst) : insertMember members key v = members ++ [(key, v)] := by
  induction members with
  | nil => rfl
  | cons m rest ih =>
    rw [List.map_cons, List.mem_cons, not_or] at h
    rw [insertMember, if_neg (Ne.symm h.1), ih h.2]
    rfl

/-- Members of distinct names are kept as they are. -/
theorem collect_of_nodup {members : List (String × Json N)}
    (h : (members.map Prod.fst).Nodup) : collect members = members := by
  have hfold : ∀ (rest acc : List (String × Json N)), ((acc ++ rest).map Prod.fst).Nodup →
      rest.foldl (fun acc m => insertMember acc m.1 m.2) acc = acc ++ rest := by
    intro rest
    induction rest with
    | nil => intro acc _; simp
    | cons m rest ih =>
      intro acc hacc
      have hm : m.1 ∉ acc.map Prod.fst := by
        rw [List.map_append, List.nodup_append] at hacc
        intro hmem
        exact hacc.2.2 _ hmem _ (by simp) rfl
      rw [List.foldl_cons, insertMember_of_notMem hm, ih _ (by simpa using hacc)]
      simp
  simpa [collect] using hfold members [] (by simpa using h)

/-- A text that starts with a digit or a minus sign is read as a number. -/
theorem parseValue_number {fuel : ℕ} {c : Char} {cs : List Char}
    (h : c.isDigit = true ∨ c = '-') :
    parseValue (fuel + 1) (c :: cs) =
      if isNumber ((c :: cs).takeWhile isNumberChar) then
        some (.num (String.ofList ((c :: cs).takeWhile isNumberChar)),
          (c :: cs).dropWhile isNumberChar)
      else none := by
  have hne : ∀ d : Char, d.isDigit = false → d ≠ '-' → c ≠ d := by
    rintro d hd hminus rfl
    rcases h with h | h
    · rw [h] at hd; cases hd
    · exact hminus h
  have hspace : isWhitespace c = false := by
    have h1 := hne ' ' (by decide) (by decide)
    have h2 := hne '\t' (by decide) (by decide)
    have h3 := hne '\n' (by decide) (by decide)
    have h4 := hne '\r' (by decide) (by decide)
    simp [isWhitespace, h1, h2, h3, h4]
  rw [parseValue, skipWhitespace_cons hspace]
  split
  next heq => cases heq; exact absurd rfl (hne 'n' (by decide) (by decide))
  next heq => cases heq; exact absurd rfl (hne 't' (by decide) (by decide))
  next heq => cases heq; exact absurd rfl (hne 'f' (by decide) (by decide))
  next heq => cases heq; exact absurd rfl (hne '"' (by decide) (by decide))
  next heq => cases heq; exact absurd rfl (hne '[' (by decide) (by decide))
  next heq => cases heq; exact absurd rfl (hne '{' (by decide) (by decide))
  next => rfl

section Render

variable {literal : N → List Char}

/-- The numbers of a value are rendered as literals. -/
def Literals (literal : N → List Char) (v : Json N) : Prop :=
  ∀ n ∈ v.numbers, isNumber (literal n) = true

/-- A rendered value starts with neither whitespace nor a closing bracket. -/
theorem render_head {v : Json N} (h : Literals literal v) :
    ∃ c cs, render literal v = c :: cs ∧ isWhitespace c = false ∧ c ≠ ']' := by
  cases v with
  | null => exact ⟨_, _, rfl, by decide, by decide⟩
  | bool b => cases b <;> exact ⟨_, _, rfl, by decide, by decide⟩
  | num n =>
    obtain ⟨c, cs, hcs, hc⟩ := head_of_isNumber (h n (by simp [Json.numbers]))
    refine ⟨c, cs, by rw [render, hcs], ?_, ?_⟩
    · by_contra hspace
      simp only [isWhitespace, Bool.not_eq_false, Bool.or_eq_true, beq_iff_eq] at hspace
      obtain ((rfl | rfl) | rfl) | rfl := hspace <;> revert hc <;> decide
    · rintro rfl
      revert hc
      decide
  | str s => exact ⟨_, _, rfl, by decide, by decide⟩
  | arr items => cases items <;> exact ⟨_, _, rfl, by decide, by decide⟩
  | obj members =>
    cases members with
    | nil => exact ⟨_, _, rfl, by decide, by decide⟩
    | cons m rest => exact ⟨_, _, rfl, by decide, by decide⟩

/-- What `parse` returns for a rendered value: its numbers as they were written. -/
def asText (literal : N → List Char) (v : Json N) : Json String :=
  v.map fun n => String.ofList (literal n)

/-- What a value's rendering is read back to, whatever text follows. The fuel is bounded by the
length of the rendering. -/
def ReadsBack (literal : N → List Char) (v : Json N) : Prop :=
  ∀ fuel rest, (render literal v).length ≤ fuel → NoNumberHead rest →
    parseValue fuel (render literal v ++ rest) = some (asText literal v, rest)

theorem parseItems_render {items : List (Json N)} (hitems : ∀ v ∈ items, ReadsBack literal v) :
    ∀ {v : Json N}, ReadsBack literal v → ∀ fuel rest,
      (render literal v ++ renderItems literal items).length ≤ fuel →
        parseItems fuel (render literal v ++ renderItems literal items ++ rest)
          = some (asText literal v :: items.map (asText literal), rest) := by
  induction items with
  | nil =>
    intro v hv fuel rest hfuel
    rw [List.length_append] at hfuel
    cases fuel with
    | zero => simp [renderItems] at hfuel
    | succ fuel =>
      have hread := hv fuel (']' :: rest) (by simp [renderItems] at hfuel; omega)
        (noNumberHead_cons (by decide))
      rw [parseItems, renderItems, List.append_assoc, List.singleton_append, hread]
      rfl
  | cons w items ih =>
    intro v hv fuel rest hfuel
    obtain ⟨hw, hrest⟩ := List.forall_mem_cons.mp hitems
    rw [List.length_append] at hfuel
    cases fuel with
    | zero => simp [renderItems] at hfuel
    | succ fuel =>
      simp only [renderItems, List.length_cons, List.length_append] at hfuel
      have hread := hv fuel (',' :: (render literal w ++ renderItems literal items ++ rest))
        (by omega) (noNumberHead_cons (by decide))
      have hmore := ih hrest hw fuel rest (by simp only [List.length_append]; omega)
      have htext : render literal v ++ renderItems literal (w :: items) ++ rest
          = render literal v ++ ',' :: (render literal w ++ renderItems literal items ++ rest) := by
        simp [renderItems]
      rw [parseItems, htext, hread]
      simp only [Option.bind_eq_bind, Option.bind_some, skipWhitespace_cons (c := ',') (by decide)]
      rw [hmore]
      rfl

/-- The text of a member and what follows it. -/
theorem parseMembers_render {members : List (String × Json N)}
    (hmembers : ∀ m ∈ members, ReadsBack literal m.2) :
    ∀ {key : String} {v : Json N}, ReadsBack literal v → ∀ fuel rest,
      (quote key ++ ':' :: render literal v ++ renderMembers literal members).length ≤ fuel →
        parseMembers fuel
          (quote key ++ ':' :: render literal v ++ renderMembers literal members ++ rest)
          = some ((key, asText literal v) :: members.map fun m => (m.1, asText literal m.2),
              rest) := by
  induction members with
  | nil =>
    intro key v hv fuel rest hfuel
    cases fuel with
    | zero => simp [quote] at hfuel
    | succ fuel =>
      simp only [quote, renderMembers, List.length_append, List.length_cons, List.length_nil]
        at hfuel
      have hread := hv fuel ('}' :: rest) (by omega) (noNumberHead_cons (by decide))
      have htext : quote key ++ ':' :: render literal v ++ renderMembers literal [] ++ rest
          = '"' :: (key.toList.flatMap escapeChar
              ++ '"' :: ':' :: (render literal v ++ '}' :: rest)) := by
        simp [quote, renderMembers]
      rw [parseMembers, htext, skipWhitespace_cons (by decide)]
      simp only [parseChars_quote, Option.bind_eq_bind, Option.bind_some,
        skipWhitespace_cons (c := ':') (by decide), hread,
        skipWhitespace_cons (c := '}') (by decide)]
      simp
  | cons m members ih =>
    intro key v hv fuel rest hfuel
    obtain ⟨hm, hrest⟩ := List.forall_mem_cons.mp hmembers
    cases fuel with
    | zero => simp [quote] at hfuel
    | succ fuel =>
      simp only [quote, renderMembers, List.length_append, List.length_cons, List.length_nil]
        at hfuel
      have hread := hv fuel
        (',' :: (quote m.1 ++ ':' :: render literal m.2 ++ renderMembers literal members ++ rest))
        (by omega) (noNumberHead_cons (by decide))
      have hmore := @ih hrest m.1 m.2 hm fuel rest (by
        simp only [quote, List.length_append, List.length_cons, List.length_nil]; omega)
      have htext : quote key ++ ':' :: render literal v ++ renderMembers literal (m :: members)
            ++ rest
          = '"' :: (key.toList.flatMap escapeChar
              ++ '"' :: ':' :: (render literal v ++ ',' ::
                (quote m.1 ++ ':' :: render literal m.2 ++ renderMembers literal members
                  ++ rest))) := by
        simp [quote, renderMembers]
      rw [parseMembers, htext, skipWhitespace_cons (by decide)]
      simp only [parseChars_quote, Option.bind_eq_bind, Option.bind_some,
        skipWhitespace_cons (c := ':') (by decide), hread,
        skipWhitespace_cons (c := ',') (by decide), hmore]
      simp

/-- A fuel that covers a rendering is not zero. -/
theorem exists_fuel {v : Json N} (h : Literals literal v) {fuel : ℕ}
    (hfuel : (render literal v).length ≤ fuel) : ∃ f, fuel = f + 1 := by
  obtain ⟨c, cs, hcs, -⟩ := render_head h
  rw [hcs, List.length_cons] at hfuel
  exact Nat.exists_eq_add_one.mpr (by omega)

theorem Literals.item {items : List (Json N)} (h : Literals literal (.arr items)) :
    ∀ v ∈ items, Literals literal v := by
  intro v hv n hn
  exact h n (by rw [Json.numbers, Json.mem_itemNumbers]; exact ⟨v, hv, hn⟩)

theorem Literals.member {members : List (String × Json N)} (h : Literals literal (.obj members)) :
    ∀ m ∈ members, Literals literal m.2 := by
  intro m hm n hn
  exact h n (by rw [Json.numbers, Json.mem_memberNumbers]; exact ⟨m, hm, hn⟩)

/-- An array whose text goes on with an item. -/
theorem parseValue_array {fuel : ℕ} {c : Char} {cs : List Char} (hspace : isWhitespace c = false)
    (hclose : c ≠ ']') : parseValue (fuel + 1) ('[' :: c :: cs)
      = (parseItems fuel (c :: cs)).map fun p => (.arr p.1, p.2) := by
  rw [parseValue, skipWhitespace_cons (by decide)]
  simp only [skipWhitespace_cons hspace]
  split
  next heq => cases heq; exact absurd rfl hclose
  next => rfl

/-- An object whose text goes on with a name. -/
theorem parseValue_object {fuel : ℕ} {cs : List Char} :
    parseValue (fuel + 1) ('{' :: '"' :: cs)
      = (parseMembers fuel ('"' :: cs)).map fun p => (.obj (collect p.1), p.2) := by
  rw [parseValue, skipWhitespace_cons (by decide)]
  simp only [skipWhitespace_cons (c := '"') (by decide)]
  split
  next heq => cases heq
  next => rfl

/-- Every value with distinct names and literal numbers is read back. Induction on the value:
the items of an array and the members of an object are read back one by one. -/
theorem readsBack {v : Json N} (hliterals : Literals literal v) (hdistinct : v.Distinct) :
    ReadsBack literal v := by
  induction v using Json.induction with
  | arr items ih =>
    intro fuel rest hfuel _
    obtain ⟨fuel, rfl⟩ := exists_fuel hliterals hfuel
    have hitems : ∀ v ∈ items, ReadsBack literal v := fun v hv =>
      ih v hv (hliterals.item v hv) (Json.itemsDistinct_iff.mp hdistinct v hv)
    cases items with
    | nil => rfl
    | cons v items =>
      obtain ⟨hv, hrest⟩ := List.forall_mem_cons.mp hitems
      obtain ⟨c, cs, hcs, hspace, hclose⟩ := render_head (hliterals.item v List.mem_cons_self)
      simp only [render, List.cons_append, List.length_cons] at hfuel ⊢
      have hread := parseItems_render hrest hv fuel rest (by omega)
      rw [hcs, List.cons_append, List.cons_append] at hread ⊢
      rw [parseValue_array hspace hclose, hread]
      simp [asText, Json.map, Json.mapItems_eq_map]
  | obj members ih =>
    intro fuel rest hfuel _
    obtain ⟨fuel, rfl⟩ := exists_fuel hliterals hfuel
    obtain ⟨hnodup, hvalues⟩ := hdistinct
    have hmembers : ∀ m ∈ members, ReadsBack literal m.2 := fun m hm =>
      ih m hm (hliterals.member m hm) (Json.membersDistinct_iff.mp hvalues m hm)
    cases members with
    | nil => rfl
    | cons m members =>
      obtain ⟨hm, hrest⟩ := List.forall_mem_cons.mp hmembers
      simp only [render, List.cons_append, List.length_cons] at hfuel ⊢
      have hread := @parseMembers_render _ _ members hrest m.1 m.2 hm fuel rest
        (by simpa using hfuel)
      have hcollect : collect ((m.1, asText literal m.2)
          :: members.map fun m => (m.1, asText literal m.2))
          = (m.1, asText literal m.2) :: members.map fun m => (m.1, asText literal m.2) := by
        refine collect_of_nodup ?_
        simpa [Function.comp_def] using hnodup
      have htext : '{' :: (quote m.1 ++ ':' :: render literal m.2
            ++ renderMembers literal members) ++ rest
          = '{' :: '"' :: ((m.1.toList.flatMap escapeChar ++ ['"']) ++ ':' :: render literal m.2
            ++ renderMembers literal members ++ rest) := by
        simp [quote]
      have hread' : parseMembers fuel ('"' :: ((m.1.toList.flatMap escapeChar ++ ['"'])
            ++ ':' :: render literal m.2 ++ renderMembers literal members ++ rest))
          = some ((m.1, asText literal m.2) :: members.map fun m => (m.1, asText literal m.2),
              rest) := by
        rw [← hread]; simp [quote]
      simp only [List.cons_append] at htext ⊢
      rw [htext, parseValue_object, hread', Option.map_some, hcollect]
      simp [asText, Json.map, Json.mapMembers, Json.mapMembers_eq_map]
  | null =>
    intro fuel rest hfuel _
    obtain ⟨fuel, rfl⟩ := exists_fuel hliterals hfuel
    rfl
  | bool b =>
    intro fuel rest hfuel _
    obtain ⟨fuel, rfl⟩ := exists_fuel hliterals hfuel
    cases b <;> rfl
  | num n =>
    intro fuel rest hfuel hrest
    obtain ⟨fuel, rfl⟩ := exists_fuel hliterals hfuel
    have hn := hliterals n (by simp [Json.numbers])
    obtain ⟨c, cs, hcs, hc⟩ := head_of_isNumber hn
    obtain ⟨htake, hdrop⟩ := span_number (all_of_isNumber hn) hrest
    rw [render]
    rw [hcs] at hn htake hdrop ⊢
    rw [List.cons_append] at htake hdrop ⊢
    rw [parseValue_number hc, htake, hdrop, if_pos hn, ← hcs]
    rfl
  | str s =>
    intro fuel rest hfuel _
    obtain ⟨fuel, rfl⟩ := exists_fuel hliterals hfuel
    have htext : render literal (.str s) ++ rest
        = '"' :: (s.toList.flatMap escapeChar ++ '"' :: rest) := by
      simp [render, quote]
    rw [htext, parseValue, skipWhitespace_cons (by decide)]
    simp [parseChars_quote, asText, Json.map]

/-- The parser undoes the renderer. -/
theorem parse_render {v : Json N} (hliterals : Literals literal v) (hdistinct : v.Distinct) :
    parse (render literal v) = some (asText literal v) := by
  have hread := readsBack hliterals hdistinct ((render literal v).length + 1) [] (by omega)
    noNumberHead_nil
  rw [List.append_nil] at hread
  rw [parse, hread]
  rfl

/-- The text determines the value, up to the literals of its numbers. -/
theorem render_injective {M : Type} {literal' : M → List Char} {v : Json N} {w : Json M}
    (hv : Literals literal v) (hw : Literals literal' w) (hvd : v.Distinct) (hwd : w.Distinct)
    (h : render literal v = render literal' w) : asText literal v = asText literal' w := by
  have h1 := parse_render hv hvd
  rw [h, parse_render hw hwd] at h1
  exact (Option.some.inj h1).symm

end Render

end JsonText

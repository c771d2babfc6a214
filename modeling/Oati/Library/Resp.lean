import Oati.Library.Numeral
import Oati.Library.Utf8

/-!
# The Redis serialization protocol

Requests are arrays of bulk strings, and replies are simple strings, errors, integers, nil and
bulk strings. Every frame has a line that ends with CR LF; a bulk string follows its line with as
many bytes as the line says, whatever they are.

* `encodeArray`, `readArray`: a request, and how a server reads it; `readArray_encodeArray`: it
  reads what was written, and nothing else of what follows.
* `Reply`, `Reply.encode`: the replies and their frames.
* `Unfinished`: what has arrived of a frame, but not all of it.
* `exists_frames`: what has arrived of a sequence of frames is frames and an unfinished one.
-/

namespace Resp

open Numeral (isDigit_of_mem_toDigits)

/-- CR and LF. -/
def crlf : List UInt8 := [0x0d, 0x0a]

/-- A line of text. -/
def Line := { text : List Char // '\r' ∉ text ∧ '\n' ∉ text }

/-- An integer, in decimal digits. -/
def decimal (n : ℤ) : List Char :=
  if 0 ≤ n then Nat.toDigits 10 n.toNat else '-' :: Nat.toDigits 10 (-n).toNat

theorem mem_decimal {n : ℤ} {c : Char} (h : c ∈ decimal n) : c = '-' ∨ c.isDigit := by
  unfold decimal at h
  split_ifs at h
  · exact .inr (isDigit_of_mem_toDigits c h)
  · exact (List.mem_cons.mp h).imp_right (isDigit_of_mem_toDigits c)

/-- The digits of an integer are on one line. -/
theorem decimal_line (n : ℤ) : '\r' ∉ decimal n ∧ '\n' ∉ decimal n := by
  constructor
  · intro h
    rcases mem_decimal h with hc | hc <;> revert hc <;> decide
  · intro h
    rcases mem_decimal h with hc | hc <;> revert hc <;> decide

/-! ### Lines -/

/-- The bytes before the first CR LF, and those after it. -/
def readLine : List UInt8 → Option (List UInt8 × List UInt8)
  | [] => none
  | b :: rest =>
    if crlf <+: b :: rest then some ([], rest.drop 1)
    else (readLine rest).map fun p => (b :: p.1, p.2)

/-- A byte and a line without a line feed are not CR LF. -/
theorem not_startsWith_crlf {b : UInt8} {line rest : List UInt8} (h : 0x0a ∉ line) :
    ¬ crlf <+: b :: (line ++ (crlf ++ rest)) := by
  intro hstart
  obtain ⟨-, htail⟩ := List.cons_prefix_cons.mp hstart
  cases line with
  | nil =>
    obtain ⟨hcr, -⟩ := List.cons_prefix_cons.mp htail
    revert hcr
    decide
  | cons c line =>
    obtain ⟨hlf, -⟩ := List.cons_prefix_cons.mp htail
    exact h (hlf ▸ List.mem_cons_self)

theorem readLine_append {line rest : List UInt8} (h : 0x0a ∉ line) :
    readLine (line ++ (crlf ++ rest)) = some (line, rest) := by
  induction line with
  | nil =>
    have hstart : crlf <+: 0x0d :: 0x0a :: rest := List.prefix_append crlf rest
    change readLine (0x0d :: 0x0a :: rest) = _
    rw [readLine, if_pos hstart]
    rfl
  | cons b line ih =>
    rw [List.mem_cons, not_or] at h
    rw [List.cons_append, readLine, if_neg (not_startsWith_crlf h.2), ih h.2]
    rfl

/-- A natural in decimal digits. -/
def readNat (line : List UInt8) : Option ℕ :=
  let digits := Utf8.decode line
  if digits ≠ [] ∧ digits.all Char.isDigit then some (Nat.ofDigitChars 10 digits 0) else none

theorem readNat_toDigits (n : ℕ) : readNat (Utf8.encode (Nat.toDigits 10 n)) = some n := by
  have hdigits : Nat.toDigits 10 n ≠ [] ∧ (Nat.toDigits 10 n).all Char.isDigit = true :=
    ⟨Nat.toDigits_ne_nil, List.all_eq_true.mpr isDigit_of_mem_toDigits⟩
  rw [readNat, Utf8.decode_encode, if_pos hdigits,
    Nat.ofDigitChars_toDigits (by norm_num) (by norm_num)]

/-- A mark and a natural on a line. -/
def readCount (mark : UInt8) : List UInt8 → Option (ℕ × List UInt8)
  | [] => none
  | b :: rest =>
    if b = mark then (readLine rest).bind fun p => (readNat p.1).map fun n => (n, p.2) else none

/-- What `readCount` reads. -/
def encodeCount (mark : UInt8) (n : ℕ) : List UInt8 :=
  mark :: (Utf8.encode (Nat.toDigits 10 n) ++ crlf)

theorem lf_notMem {text : List Char} (h : '\n' ∉ text) : 0x0a ∉ Utf8.encode text :=
  Utf8.notMem_encode (c := '\n') (by decide) h

theorem lf_notMem_toDigits (n : ℕ) : 0x0a ∉ Utf8.encode (Nat.toDigits 10 n) :=
  lf_notMem fun h => absurd (isDigit_of_mem_toDigits _ h) (by decide)

theorem readCount_encodeCount (mark : UInt8) (n : ℕ) (rest : List UInt8) :
    readCount mark (encodeCount mark n ++ rest) = some (n, rest) := by
  rw [encodeCount, List.cons_append, List.append_assoc, readCount, if_pos rfl,
    readLine_append (lf_notMem_toDigits n), Option.bind_some, readNat_toDigits]
  rfl

/-! ### Requests -/

/-- A bulk string. -/
def encodeBulk (data : List UInt8) : List UInt8 := encodeCount 0x24 data.length ++ (data ++ crlf)

/-- An array of bulk strings. -/
def encodeArray (args : List (List UInt8)) : List UInt8 :=
  encodeCount 0x2a args.length ++ args.flatMap encodeBulk

def readBulk (bytes : List UInt8) : Option (List UInt8 × List UInt8) :=
  (readCount 0x24 bytes).bind fun p =>
    if p.1 ≤ p.2.length ∧ crlf <+: p.2.drop p.1 then
      some (p.2.take p.1, p.2.drop (p.1 + 2))
    else none

/-- As many bulk strings. -/
def readBulks : ℕ → List UInt8 → Option (List (List UInt8) × List UInt8)
  | 0, bytes => some ([], bytes)
  | n + 1, bytes =>
    (readBulk bytes).bind fun p => (readBulks n p.2).map fun q => (p.1 :: q.1, q.2)

/-- A request, and the bytes that follow it. -/
def readArray (bytes : List UInt8) : Option (List (List UInt8) × List UInt8) :=
  (readCount 0x2a bytes).bind fun p => readBulks p.1 p.2

/-- As many requests. -/
def readArrays : ℕ → List UInt8 → Option (List (List (List UInt8)) × List UInt8)
  | 0, bytes => some ([], bytes)
  | n + 1, bytes =>
    (readArray bytes).bind fun p => (readArrays n p.2).map fun q => (p.1 :: q.1, q.2)

theorem readBulk_encodeBulk (data rest : List UInt8) :
    readBulk (encodeBulk data ++ rest) = some (data, rest) := by
  have hcrlf : crlf <+: (data ++ (crlf ++ rest)).drop data.length := by
    rw [List.drop_left]
    exact List.prefix_append crlf rest
  have hlength : data.length ≤ (data ++ (crlf ++ rest)).length := by
    rw [List.length_append]
    omega
  rw [encodeBulk, List.append_assoc, List.append_assoc, readBulk, readCount_encodeCount,
    Option.bind_some, if_pos ⟨hlength, hcrlf⟩, List.take_left, ← List.drop_drop, List.drop_left]
  rfl

theorem readBulks_encodeBulk (args : List (List UInt8)) (rest : List UInt8) :
    readBulks args.length (args.flatMap encodeBulk ++ rest) = some (args, rest) := by
  induction args with
  | nil => rfl
  | cons data args ih =>
    rw [List.flatMap_cons, List.append_assoc, List.length_cons, readBulks, readBulk_encodeBulk,
      Option.bind_some, ih]
    rfl

/-- A request is read as it was written, whatever its strings contain. -/
theorem readArray_encodeArray (args : List (List UInt8)) (rest : List UInt8) :
    readArray (encodeArray args ++ rest) = some (args, rest) := by
  rw [encodeArray, List.append_assoc, readArray, readCount_encodeCount, Option.bind_some,
    readBulks_encodeBulk]

theorem readArrays_encodeArray (requests : List (List (List UInt8))) (rest : List UInt8) :
    readArrays requests.length (requests.flatMap encodeArray ++ rest) = some (requests, rest) := by
  induction requests with
  | nil => rfl
  | cons args requests ih =>
    rw [List.flatMap_cons, List.append_assoc, List.length_cons, readArrays, readArray_encodeArray,
      Option.bind_some, ih]
    rfl

/-! ### Replies -/

/-- The data of a bulk string, as long as a buffer can be. -/
def Bulk := { data : List UInt8 // data.length < 2 ^ 53 }

/-- The replies of a server. -/
inductive Reply where
  | simple (text : Line)
  | error (text : Line)
  | integer (n : ℤ)
  | nil
  | bulk (data : Bulk)

namespace Reply

/-- The mark of a frame. -/
def mark : Reply → UInt8
  | simple _ => 0x2b
  | error _ => 0x2d
  | integer _ => 0x3a
  | nil | bulk _ => 0x24

/-- The line of a frame. -/
def line : Reply → List Char
  | simple text | error text => text.1
  | integer n => decimal n
  | nil => decimal (-1)
  | bulk data => decimal data.1.length

/-- What follows the line. -/
def body : Reply → List UInt8
  | bulk data => data.1 ++ crlf
  | _ => []

/-- The frame of a reply. -/
def encode (reply : Reply) : List UInt8 :=
  reply.mark :: (Utf8.encode reply.line ++ (crlf ++ reply.body))

theorem lf_notMem_line (reply : Reply) : 0x0a ∉ Utf8.encode reply.line := by
  apply lf_notMem
  cases reply with
  | simple text | error text => exact text.2.2
  | integer n => exact (decimal_line n).2
  | nil => exact (decimal_line _).2
  | bulk data => exact (decimal_line _).2

/-- No mark is a line feed. -/
theorem mark_ne_lf (reply : Reply) : reply.mark ≠ 0x0a := by
  have hmarks : ∀ mark ∈ ([0x2b, 0x2d, 0x3a, 0x24] : List UInt8), mark ≠ 0x0a := by simp
  cases reply <;> exact hmarks _ (by simp [mark])

end Reply

/-- The frames of replies, one after the other. -/
def encodeReplies (replies : List Reply) : List UInt8 := replies.flatMap Reply.encode

/-- The beginning of a frame, but not all of it. -/
def Unfinished (bytes : List UInt8) : Prop :=
  ∃ reply : Reply, bytes <+: reply.encode ∧ bytes ≠ reply.encode

/-- A shorter beginning is not all of it either. -/
theorem Unfinished.of_prefix {bytes tail : List UInt8} (h : Unfinished tail)
    (hstart : bytes <+: tail) : Unfinished bytes := by
  obtain ⟨reply, htail, hne⟩ := h
  refine ⟨reply, hstart.trans htail, ?_⟩
  rintro rfl
  exact hne (htail.eq_of_length_le hstart.length_le)

/-- What has arrived of frames and an unfinished one: some of the frames, and an unfinished one.
The induction is on the frames. -/
theorem exists_frames {replies : List Reply} {bytes rest tail : List UInt8}
    (htail : Unfinished tail) (h : bytes ++ rest = encodeReplies replies ++ tail) :
    ∃ now later tail₁, replies = now ++ later ∧ bytes = encodeReplies now ++ tail₁ ∧
      Unfinished tail₁ ∧ tail₁ ++ rest = encodeReplies later ++ tail := by
  induction replies generalizing bytes with
  | nil =>
    refine ⟨[], [], bytes, rfl, rfl, htail.of_prefix ?_, h⟩
    exact ⟨rest, h⟩
  | cons reply replies ih =>
    have hcons : bytes ++ rest = reply.encode ++ (encodeReplies replies ++ tail) := by
      rw [h, encodeReplies, List.flatMap_cons, List.append_assoc]
      rfl
    have hunfinished : ∀ more, reply.encode = bytes ++ more → more ≠ [] → Unfinished bytes := by
      intro more hreply hmore
      refine ⟨reply, ⟨more, hreply.symm⟩, fun hsame => hmore ?_⟩
      rw [← hsame] at hreply
      exact List.self_eq_append_right.mp hreply
    rcases List.append_eq_append_iff.mp hcons with ⟨more, hreply, hrest⟩ | ⟨more, hbytes, hrest⟩
    · cases more with
      | nil =>
        rw [List.append_nil] at hreply
        refine ⟨[reply], replies, [], rfl, ?_, htail.of_prefix (List.nil_prefix), ?_⟩
        · rw [← hreply, encodeReplies, List.flatMap_singleton, List.append_nil]
        · exact hrest
      | cons b more =>
        exact ⟨[], reply :: replies, bytes, rfl, rfl, hunfinished _ hreply (List.cons_ne_nil _ _), h⟩
    · obtain ⟨now, later, tail₁, rfl, hmore, hnext, hlater⟩ := ih hrest.symm
      refine ⟨reply :: now, later, tail₁, rfl, ?_, hnext, hlater⟩
      rw [hbytes, hmore, encodeReplies, encodeReplies, List.flatMap_cons, List.append_assoc]

end Resp

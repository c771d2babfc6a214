import Oati.Library.Resp
import Oati.TypeScript.Engine

/-!
# The Valkey client of the gateway

`resp`, `parseResp` and `ValkeyClient.command` of the authorization service, as far as the bytes
of a connection go: what is written, and what is made of the chunks that arrive. A command is sent
in one pipeline with the authentication and the choice of the database that its URL asks for. The
promise of a command is settled by the first call of `resolve` or `reject`.

* `parseResp_encode`, `parseResp_unfinished`: a reply is read when all of it is there, not before.
* `expected`: the first error among the replies to a pipeline, else its last reply.
* `run_chunks`: however the replies are cut into chunks, this is what the promise is settled with.
* `valkeyCodec_faithful`: the codec in both directions.
-/

namespace Oati.TypeScript.Valkey

open Resp (Reply Unfinished encodeReplies exists_frames)

variable {engine : Engine}

/-! ### Requests -/

/-- `` `$${Buffer.byteLength(value)}\r\n${value}\r\n` `` -/
def respPart (value : String) : String :=
  "$" ++ Nat.repr (Utf8.encode value.toList).length ++ "\r\n" ++ value ++ "\r\n"

/-- `resp`, for texts. -/
def resp (parts : List String) : String :=
  "*" ++ Nat.repr parts.length ++ "\r\n" ++ String.join (parts.map respPart)

/-- What a URL and its password file say of a connection. -/
structure Connection where
  username : String := ""
  password : String := ""
  database : String := ""

/-- The commands of a pipeline. -/
def commands (connection : Connection) (parts : List String) : List (List String) :=
  (if connection.password = "" then []
    else if connection.username = "" then [["AUTH", connection.password]]
    else [["AUTH", connection.username, connection.password]]) ++
  (if connection.database = "" ∨ connection.database = "0" then []
    else [["SELECT", connection.database]]) ++
  [parts]

/-- `socket.write(commands.map(resp).join(""))`, as bytes. -/
def written (commands : List (List String)) : List UInt8 :=
  Utf8.encode (String.join (commands.map resp)).toList

/-! ### Replies -/

/-- The values of replies. A number of `none` is `NaN`. -/
inductive ReplyValue where
  | text (value : String)
  | number (value : Option ℚ)
  | null
  deriving DecidableEq

/-- What `parseResp` returns of a reply: its value or error, and how many bytes it took. -/
structure ParsedReply where
  result : Except JsError ReplyValue
  bytes : Option ℚ

/-- `buffer.indexOf("\r\n")`. -/
def indexOfCrlf : List UInt8 → Option ℕ
  | [] => none
  | b :: rest => if Resp.crlf <+: b :: rest then some 0 else (indexOfCrlf rest).map (· + 1)

/-- `buffer.toString()`. -/
def bufferText (buffer : List UInt8) : String := String.ofList (Utf8.decode buffer)

/-- An index of `subarray`: a negative one counts from the end, and `NaN` is zero. -/
def relativeIndex (length : ℕ) (index : Option ℚ) : ℕ :=
  match index with
  | none => 0
  | some q =>
    let k := if 0 ≤ q then ⌊q⌋ else ⌈q⌉
    if k < 0 then (length + k).toNat else min k.toNat length

/-- `buffer.subarray(start, finish)`. -/
def subarray (buffer : List UInt8) (start finish : Option ℚ) : List UInt8 :=
  (buffer.take (relativeIndex buffer.length finish)).drop (relativeIndex buffer.length start)

/-- `buffer.subarray(start)`. -/
def subarrayFrom (buffer : List UInt8) (start : Option ℚ) : List UInt8 :=
  buffer.drop (relativeIndex buffer.length start)

/-- The value of the digits of an integer. -/
def integerOf (cs : List Char) : Option ℤ :=
  match cs with
  | '-' :: digits =>
    if digits ≠ [] ∧ digits.all Char.isDigit then some (-(Nat.ofDigitChars 10 digits 0 : ℤ))
    else none
  | digits =>
    if digits ≠ [] ∧ digits.all Char.isDigit then some (Nat.ofDigitChars 10 digits 0) else none

/-- `Number(head)`: an integer is rounded to the nearest number. -/
def headNumber (engine : Engine) (head : String) : Option ℚ :=
  match integerOf head.toList with
  | some z => some (Double.round z)
  | none => toNumber engine (some (.str head))

/-- `{ value: buffer.subarray(offset, offset + size).toString(), bytes: offset + size + 2 }`, if it
is there. -/
def parseBulk (buffer : List UInt8) (offset : ℕ) (size : Option ℚ) : Option ParsedReply :=
  let finish := size.map fun size => (offset : ℚ) + size
  if finish.any fun finish => (buffer.length : ℚ) < finish + 2 then none
  else some
    { result := .ok (.text (bufferText (subarray buffer (some offset) finish)))
      bytes := finish.map fun finish => finish + 2 }

/-- `parseResp`. -/
def parseResp (engine : Engine) (buffer : List UInt8) : Except JsError (Option ParsedReply) :=
  match indexOfCrlf buffer with
  | none => .ok none
  | some finish =>
    let type := buffer.head?
    let head := bufferText ((buffer.take finish).drop 1)
    let offset := finish + 2
    if type = some 0x2b then .ok (some { result := .ok (.text head), bytes := some offset })
    else if type = some 0x2d then
      .ok (some { result := .error (.error head), bytes := some offset })
    else if type = some 0x3a then
      .ok (some { result := .ok (.number (headNumber engine head)), bytes := some offset })
    else if type = some 0x24 ∧ headNumber engine head = some (-1) then
      .ok (some { result := .ok .null, bytes := some offset })
    else if type = some 0x24 then .ok (parseBulk buffer offset (headNumber engine head))
    else .error (.error "unsupported Valkey response")

/-! ### The connection -/

/-- The variables of a command's promise, and the calls of `resolve` and `reject`, in order. -/
structure SocketState where
  buffer : List UInt8 := []
  completed : ℕ := 0
  settled : Bool := false
  destroyed : Bool := false
  settlements : List (Except JsError ReplyValue) := []

namespace SocketState

/-- `settled = true; socket.destroy(); reject(error)`. -/
def fail (s : SocketState) (error : JsError) : SocketState :=
  { s with settled := true, destroyed := true, settlements := s.settlements ++ [.error error] }

/-- `settled = true; socket.end(); resolve(value)`. -/
def finish (s : SocketState) (value : ReplyValue) : SocketState :=
  { s with settled := true, settlements := s.settlements ++ [.ok value] }

/-- `if (!settled) reject(error)`, when an error has destroyed the socket. -/
def lose (s : SocketState) (error : JsError) : SocketState :=
  { s with destroyed := true
           settlements := if s.settled then s.settlements else s.settlements ++ [.error error] }

end SocketState

/-- The loop over the replies in the buffer, as often as replies are still to come. -/
def drain (engine : Engine) : ℕ → SocketState → SocketState
  | 0, s => s
  | left + 1, s =>
    match parseResp engine s.buffer with
    | .error error => s.fail error
    | .ok none => s
    | .ok (some parsed) =>
      let s : SocketState :=
        { s with buffer := subarrayFrom s.buffer parsed.bytes, completed := s.completed + 1 }
      match parsed.result with
      | .error error => s.fail error
      | .ok value => if left = 0 then s.finish value else drain engine left s

/-- The events of a socket. -/
inductive SocketEvent where
  | data (chunk : List UInt8)
  | timeout
  | error (error : JsError)

/-- The listeners, for a pipeline of so many commands. A socket that is destroyed has no events. -/
def onEvent (engine : Engine) (commands : ℕ) (s : SocketState) (event : SocketEvent) :
    SocketState :=
  if s.destroyed then s
  else
    match event with
    | .data chunk =>
      drain engine (commands - s.completed) { s with buffer := s.buffer ++ chunk }
    | .timeout => s.lose (.error "Valkey timeout")
    | .error error => s.lose error

/-- The state after the events. -/
def run (engine : Engine) (commands : ℕ) (s : SocketState) (events : List SocketEvent) :
    SocketState := events.foldl (onEvent engine commands) s

/-! ### Requests are read as they were written -/

theorem encode_join (texts : List String) :
    Utf8.encode (String.join texts).toList = texts.flatMap fun text => Utf8.encode text.toList := by
  rw [String.toList_join, Utf8.encode, List.flatMap_assoc]
  rfl

theorem encode_natRepr (n : ℕ) :
    Utf8.encode (Nat.repr n).toList = Utf8.encode (Nat.toDigits 10 n) := by
  rw [Nat.toList_repr]

theorem encode_respPart (value : String) :
    Utf8.encode (respPart value).toList = Resp.encodeBulk (Utf8.encode value.toList) := by
  have hmark : Utf8.encode "$".toList = [0x24] := by decide
  have hcrlf : Utf8.encode "\r\n".toList = Resp.crlf := by decide
  simp only [respPart, String.toList_append, Utf8.encode_append, encode_natRepr, hmark, hcrlf,
    Resp.encodeBulk, Resp.encodeCount, List.append_assoc, List.cons_append, List.nil_append]

/-- A command is written as an array of bulk strings. -/
theorem encode_resp (parts : List String) :
    Utf8.encode (resp parts).toList
      = Resp.encodeArray (parts.map fun part => Utf8.encode part.toList) := by
  have hmark : Utf8.encode "*".toList = [0x2a] := by decide
  have hcrlf : Utf8.encode "\r\n".toList = Resp.crlf := by decide
  have hparts : Utf8.encode (String.join (parts.map respPart)).toList
      = (parts.map fun part => Utf8.encode part.toList).flatMap Resp.encodeBulk := by
    rw [encode_join, List.flatMap_map, List.flatMap_map]
    exact List.flatMap_congr fun part _ => encode_respPart part
  simp only [resp, String.toList_append, Utf8.encode_append, encode_natRepr, hmark, hcrlf, hparts,
    Resp.encodeArray, Resp.encodeCount, List.append_assoc, List.cons_append, List.nil_append,
    List.length_map]

theorem written_eq (commands : List (List String)) :
    written commands = (commands.map fun parts =>
      parts.map fun part => Utf8.encode part.toList).flatMap Resp.encodeArray := by
  rw [written, encode_join, List.flatMap_map, List.flatMap_map]
  exact List.flatMap_congr fun parts _ => encode_resp parts

/-! ### Replies are read when they are there -/

/-- The value or error of a reply. -/
def resultOf : Reply → Except JsError ReplyValue
  | .simple text => .ok (.text (String.ofList text.1))
  | .error text => .error (.error (String.ofList text.1))
  | .integer n => .ok (.number (some (Double.round n)))
  | .nil => .ok .null
  | .bulk data => .ok (.text (bufferText data.1))

theorem indexOfCrlf_append {line rest : List UInt8} (h : 0x0a ∉ line) :
    indexOfCrlf (line ++ (Resp.crlf ++ rest)) = some line.length := by
  induction line with
  | nil =>
    have hstart : Resp.crlf <+: 0x0d :: 0x0a :: rest := List.prefix_append Resp.crlf rest
    change indexOfCrlf (0x0d :: 0x0a :: rest) = _
    rw [indexOfCrlf, if_pos hstart]
    rfl
  | cons b line ih =>
    rw [List.mem_cons, not_or] at h
    rw [List.cons_append, indexOfCrlf, if_neg (Resp.not_startsWith_crlf h.2), ih h.2]
    rfl

/-- There is no CR LF without a line feed. -/
theorem indexOfCrlf_of_notMem {bytes : List UInt8} (h : 0x0a ∉ bytes) :
    indexOfCrlf bytes = none := by
  induction bytes with
  | nil => rfl
  | cons b bytes ih =>
    have hfirst : ¬ Resp.crlf <+: b :: bytes := by
      intro hstart
      exact h (hstart.subset (List.mem_cons_of_mem _ List.mem_cons_self))
    rw [indexOfCrlf, if_neg hfirst, ih fun hmem => h (List.mem_cons_of_mem _ hmem)]
    rfl

theorem bufferText_encode (cs : List Char) : bufferText (Utf8.encode cs) = String.ofList cs := by
  rw [bufferText, Utf8.decode_encode]

/-- The line of a frame that is there is found. -/
theorem indexOfCrlf_line (mark : UInt8) {line : List UInt8} (rest : List UInt8)
    (hmark : mark ≠ 0x0a) (hline : 0x0a ∉ line) :
    indexOfCrlf (mark :: (line ++ (Resp.crlf ++ rest))) = some (line.length + 1) := by
  have hall : 0x0a ∉ mark :: line := by
    rw [List.mem_cons, not_or]
    exact ⟨Ne.symm hmark, hline⟩
  have hindex := @indexOfCrlf_append (mark :: line) rest hall
  rwa [List.cons_append] at hindex

theorem integerOf_decimal (n : ℤ) : integerOf (Resp.decimal n) = some n := by
  have hdigits : ∀ m : ℕ, Nat.toDigits 10 m ≠ [] ∧ (Nat.toDigits 10 m).all Char.isDigit = true :=
    fun m => ⟨Nat.toDigits_ne_nil, List.all_eq_true.mpr Numeral.isDigit_of_mem_toDigits⟩
  have hvalue : ∀ m : ℕ, Nat.ofDigitChars 10 (Nat.toDigits 10 m) 0 = m :=
    fun m => Nat.ofDigitChars_toDigits (by norm_num) (by norm_num)
  unfold Resp.decimal
  split_ifs with hn
  · have hminus : ∀ ds, Nat.toDigits 10 n.toNat ≠ '-' :: ds := by
      intro ds hsame
      have hdigit := Numeral.isDigit_of_mem_toDigits '-' (hsame ▸ List.mem_cons_self)
      revert hdigit
      decide
    unfold integerOf
    split
    next ds hsame => exact absurd hsame (hminus ds)
    next =>
      rw [if_pos (hdigits _), hvalue]
      exact congrArg some (Int.toNat_of_nonneg hn)
  · rw [integerOf, if_pos (hdigits _), hvalue]
    exact congrArg some (by omega)

theorem headNumber_decimal (n : ℤ) :
    headNumber engine (String.ofList (Resp.decimal n)) = some (Double.round n) := by
  rw [headNumber, String.toList_ofList, integerOf_decimal]

/-- What is between the mark and the end of a line. -/
theorem head_of_line (mark : UInt8) (text : List Char) (rest : List UInt8) :
    bufferText (((mark :: (Utf8.encode text ++ rest)).take ((Utf8.encode text).length + 1)).drop 1)
      = String.ofList text := by
  rw [List.take_succ_cons, List.drop_one, List.tail_cons, List.take_left, bufferText_encode]

theorem relativeIndex_natCast {length n : ℕ} (h : n ≤ length) :
    relativeIndex length (some (n : ℚ)) = n := by
  have hnonneg : (0 : ℚ) ≤ n := Nat.cast_nonneg n
  have hfloor : ⌊(n : ℚ)⌋ = (n : ℤ) := Int.floor_natCast n
  simp only [relativeIndex, if_pos hnonneg, hfloor]
  rw [if_neg (by omega), Int.toNat_natCast, min_eq_left h]

/-- A bulk string that is there. -/
theorem parseBulk_eq {line data rest : List UInt8} {size : ℚ} (hsize : size = data.length) :
    parseBulk (line ++ (data ++ (Resp.crlf ++ rest))) line.length (some size)
      = some { result := .ok (.text (bufferText data))
               bytes := some ((line.length + data.length + 2 : ℕ) : ℚ) } := by
  have hlength : (line ++ (data ++ (Resp.crlf ++ rest))).length
      = line.length + data.length + 2 + rest.length := by
    rw [List.length_append, List.length_append, List.length_append]
    change line.length + (data.length + (2 + rest.length)) = _
    omega
  have hfinish : ((line.length : ℚ) + size) = ((line.length + data.length : ℕ) : ℚ) := by
    rw [hsize, Nat.cast_add]
  have hthere : ¬ ((line ++ (data ++ (Resp.crlf ++ rest))).length : ℚ)
      < ((line.length + data.length : ℕ) : ℚ) + 2 := by
    rw [hlength, not_lt]
    push_cast
    have hrest : (0 : ℚ) ≤ rest.length := Nat.cast_nonneg _
    linarith
  have hdata : subarray (line ++ (data ++ (Resp.crlf ++ rest))) (some (line.length : ℚ))
      (some ((line.length + data.length : ℕ) : ℚ)) = data := by
    rw [subarray, relativeIndex_natCast (by omega), relativeIndex_natCast (by omega),
      List.take_length_add_append, List.drop_left, List.take_left]
  simp only [parseBulk, Option.map_some, hfinish, Option.any_some, decide_eq_true_eq, if_neg hthere,
    hdata]
  push_cast
  rfl

/-- The mark and the line of a frame. -/
def header (reply : Reply) : List UInt8 := reply.mark :: (Utf8.encode reply.line ++ Resp.crlf)

theorem encode_eq_header (reply : Reply) : reply.encode = header reply ++ reply.body := by
  simp only [Reply.encode, header, List.cons_append, List.append_assoc]

theorem length_header (reply : Reply) :
    (header reply).length = (Utf8.encode reply.line).length + 1 + 2 := by
  rw [header, List.length_cons, List.length_append]
  rfl

/-- What is made of a frame whose line is there. -/
def parseBody (reply : Reply) (rest : List UInt8) : Option ParsedReply :=
  match reply with
  | .bulk data => parseBulk (header reply ++ rest) (header reply).length (some data.1.length)
  | _ => some { result := resultOf reply, bytes := some (header reply).length }

theorem parseResp_header (reply : Reply) (rest : List UInt8) :
    parseResp engine (header reply ++ rest) = .ok (parseBody reply rest) := by
  have hframe : header reply ++ rest
      = reply.mark :: (Utf8.encode reply.line ++ (Resp.crlf ++ rest)) := by
    simp only [header, List.cons_append, List.append_assoc]
  have hindex : indexOfCrlf (header reply ++ rest)
      = some ((Utf8.encode reply.line).length + 1) := by
    rw [hframe]
    exact indexOfCrlf_line reply.mark rest reply.mark_ne_lf reply.lf_notMem_line
  have hfirst : (header reply ++ rest).head? = some reply.mark := by
    rw [hframe, List.head?_cons]
  have hhead : bufferText (((header reply ++ rest).take ((Utf8.encode reply.line).length + 1)).drop 1)
      = String.ofList reply.line := by
    rw [hframe]
    exact head_of_line reply.mark reply.line (Resp.crlf ++ rest)
  rw [parseResp, hindex]
  simp only [hhead, hfirst, ← length_header]
  cases reply with
  | simple text => rfl
  | error text => rfl
  | integer n =>
    have hmark : (Reply.integer n).mark = 0x3a := rfl
    have hnumber : headNumber engine (String.ofList (Reply.integer n).line)
        = some (Double.round n) := headNumber_decimal n
    rw [hmark, hnumber, if_neg (by decide), if_neg (by decide), if_pos rfl]
    rfl
  | nil =>
    have hmark : Reply.nil.mark = 0x24 := rfl
    have hminus : headNumber engine (String.ofList Reply.nil.line) = some (-1) := by
      have hnumber : headNumber engine (String.ofList Reply.nil.line)
          = some (Double.round ((-1 : ℤ) : ℚ)) := headNumber_decimal (-1)
      rw [hnumber, Double.round_intCast_of_natAbs_le (by decide)]
      rfl
    rw [hmark, hminus, if_neg (by decide), if_neg (by decide), if_neg (by decide),
      if_pos ⟨rfl, rfl⟩]
    rfl
  | bulk data =>
    have hmark : (Reply.bulk data).mark = 0x24 := rfl
    have hnumber : headNumber engine (String.ofList (Reply.bulk data).line)
        = some ((data.1.length : ℕ) : ℚ) := by
      have hdecimal : headNumber engine (String.ofList (Reply.bulk data).line)
          = some (Double.round ((data.1.length : ℤ) : ℚ)) := headNumber_decimal _
      have hsize := data.2
      rw [hdecimal, Double.round_intCast_of_natAbs_le (by rw [Double.exactBound]; omega)]
      rfl
    have hnil : ¬ (some (0x24 : UInt8) = some 0x24 ∧
        some ((data.1.length : ℕ) : ℚ) = some (-1)) := by
      rintro ⟨-, hsame⟩
      have hnonneg : (0 : ℚ) ≤ data.1.length := Nat.cast_nonneg _
      rw [Option.some.inj hsame] at hnonneg
      norm_num at hnonneg
    rw [hmark, hnumber, if_neg (by decide), if_neg (by decide), if_neg (by decide), if_neg hnil,
      if_pos rfl]
    rfl

/-- A reply that is there is read, and nothing of what follows it. -/
theorem parseResp_encode (reply : Reply) (rest : List UInt8) :
    parseResp engine (reply.encode ++ rest)
      = .ok (some { result := resultOf reply, bytes := some reply.encode.length }) := by
  rw [encode_eq_header, List.append_assoc, parseResp_header, List.length_append]
  cases reply with
  | simple text => rfl
  | error text => rfl
  | integer n => rfl
  | nil => rfl
  | bulk data =>
    have hbytes : (header (.bulk data)).length + data.1.length + 2
        = (header (.bulk data)).length + (Reply.bulk data).body.length := by
      rw [Reply.body, List.length_append]
      rfl
    rw [parseBody, Reply.body, List.append_assoc, parseBulk_eq rfl, hbytes]
    rfl

/-- A bulk string whose data is not all there. -/
theorem parseBody_unfinished {reply : Reply} {part : List UInt8} (hstart : part <+: reply.body)
    (hne : part ≠ reply.body) : parseBody reply part = none := by
  have hlength : part.length < reply.body.length :=
    lt_of_le_of_ne hstart.length_le fun hsame => hne (hstart.eq_of_length hsame)
  cases reply with
  | simple text | error text | integer n | nil => exact absurd hlength (Nat.not_lt_zero _)
  | bulk data =>
    have hbody : (Reply.bulk data).body.length = data.1.length + 2 := by
      rw [Reply.body, List.length_append]
      rfl
    have hmissing : ((header (.bulk data) ++ part).length : ℚ)
        < (header (.bulk data)).length + (data.1.length : ℚ) + 2 := by
      rw [hbody] at hlength
      rw [List.length_append]
      exact_mod_cast (by omega : (header (.bulk data)).length + part.length
        < (header (.bulk data)).length + data.1.length + 2)
    simp only [parseBody, parseBulk, Option.map_some, Option.any_some, decide_eq_true_eq,
      if_pos hmissing]

/-- Before all of a reply is there, nothing is read. -/
theorem parseResp_unfinished {bytes : List UInt8} (h : Unfinished bytes) :
    parseResp engine bytes = .ok none := by
  obtain ⟨reply, hstart, hne⟩ := h
  rw [encode_eq_header] at hstart hne
  have hline : bytes <+: reply.mark :: (Utf8.encode reply.line ++ [0x0d]) →
      parseResp engine bytes = .ok none := by
    intro hshort
    have hlf : 0x0a ∉ bytes := by
      intro hmem
      rcases List.mem_cons.mp (hshort.subset hmem) with hmark | htext
      · exact reply.mark_ne_lf hmark.symm
      · rcases List.mem_append.mp htext with htext | hcr
        · exact reply.lf_notMem_line htext
        · revert hcr
          decide
    rw [parseResp, indexOfCrlf_of_notMem hlf]
  have hheader : header reply = (reply.mark :: (Utf8.encode reply.line ++ [0x0d])) ++ [0x0a] := by
    simp only [header, Resp.crlf, List.cons_append, List.append_assoc, List.nil_append]
  rcases List.prefix_or_prefix_of_prefix hstart (List.prefix_append _ _) with hshort | hlong
  · rw [hheader] at hshort
    rcases List.prefix_concat_iff.mp hshort with hall | hshort
    · rw [hall, ← hheader, ← List.append_nil (header reply), parseResp_header,
        parseBody_unfinished List.nil_prefix]
      intro hnil
      rw [hall, ← hheader, ← hnil, List.append_nil] at hne
      exact hne rfl
    · exact hline hshort
  · obtain ⟨part, rfl⟩ := hlong
    rw [parseResp_header, parseBody_unfinished ((List.prefix_append_right_inj _).mp hstart)]
    exact fun hsame => hne (hsame ▸ rfl)

/-! ### The promise of a command -/

/-- The error of a reply. -/
def errorOf (reply : Reply) : Option JsError :=
  match resultOf reply with
  | .ok _ => none
  | .error error => some error

/-- What so many commands are answered with: the first error among their replies, else the value
of the last one, once it is there. -/
def expected (commands : ℕ) (replies : List Reply) : Option (Except JsError ReplyValue) :=
  match (replies.take commands).findSome? errorOf with
  | some error => some (.error error)
  | none => (replies[commands - 1]?).map resultOf

theorem expected_nil (left : ℕ) : expected left [] = none := by
  rw [expected, List.take_nil]
  rfl

/-- The first reply decides, if it is an error or there is no other command. -/
theorem expected_cons (left : ℕ) (reply : Reply) (rest : List Reply) :
    expected (left + 1) (reply :: rest) = match resultOf reply with
      | .error error => some (.error error)
      | .ok value => if left = 0 then some (.ok value) else expected left rest := by
  unfold expected
  rw [List.take_succ_cons, List.findSome?_cons, errorOf]
  cases hresult : resultOf reply with
  | error error => rfl
  | ok value =>
    cases left with
    | zero =>
      exact congrArg some hresult
    | succ left =>
      rfl

/-- What has settled the promise does so whatever follows. -/
theorem expected_append_of_some {left : ℕ} {replies : List Reply}
    {outcome : Except JsError ReplyValue} (hleft : 0 < left)
    (h : expected left replies = some outcome) (more : List Reply) :
    expected left (replies ++ more) = some outcome := by
  induction replies generalizing left with
  | nil =>
    rw [expected_nil] at h
    cases h
  | cons reply replies ih =>
    obtain ⟨left, rfl⟩ := Nat.exists_eq_add_one.mpr hleft
    rw [expected_cons] at h
    rw [List.cons_append, expected_cons]
    cases hresult : resultOf reply with
    | error error =>
      rw [hresult] at h
      exact h
    | ok value =>
      rw [hresult] at h
      by_cases hlast : left = 0
      · simp only [if_pos hlast] at h ⊢
        exact h
      · simp only [if_neg hlast] at h ⊢
        exact ih (Nat.pos_of_ne_zero hlast) h

/-- Replies that have not settled the promise are fewer than the commands, and leave the rest. -/
theorem expected_append_of_none {left : ℕ} {replies : List Reply} (hleft : 0 < left)
    (h : expected left replies = none) (more : List Reply) :
    replies.length < left ∧
      expected left (replies ++ more) = expected (left - replies.length) more := by
  induction replies generalizing left with
  | nil => exact ⟨hleft, rfl⟩
  | cons reply replies ih =>
    obtain ⟨left, rfl⟩ := Nat.exists_eq_add_one.mpr hleft
    rw [expected_cons] at h
    rw [List.cons_append, expected_cons, List.length_cons, Nat.add_sub_add_right]
    cases hresult : resultOf reply with
    | error error =>
      rw [hresult] at h
      cases h
    | ok value =>
      rw [hresult] at h
      by_cases hlast : left = 0
      · simp only [if_pos hlast] at h
        cases h
      · simp only [if_neg hlast] at h ⊢
        obtain ⟨hlength, hrest⟩ := ih (Nat.pos_of_ne_zero hlast) h
        exact ⟨Nat.add_lt_add_right hlength 1, hrest⟩

/-! ### Chunks -/

/-- The promise of a pipeline is settled with this, and nothing can settle it again. -/
structure Settled (commands : ℕ) (s : SocketState) (outcome : Except JsError ReplyValue) :
    Prop where
  settlements : s.settlements = [outcome]
  settled : s.settled = true
  finished : s.destroyed = true ∨ commands ≤ s.completed

/-- The promise is not settled, and the buffer holds what has arrived of the next reply. -/
structure Waiting (s : SocketState) (replies : List Reply) (tail : List UInt8) : Prop where
  buffer : s.buffer = tail
  completed : s.completed = replies.length
  settled : s.settled = false
  destroyed : s.destroyed = false
  settlements : s.settlements = []

/-- A lost connection does not settle a promise again. -/
theorem Settled.lose {commands : ℕ} {s : SocketState} {outcome : Except JsError ReplyValue}
    (h : Settled commands s outcome) (error : JsError) :
    Settled commands (s.lose error) outcome := by
  refine ⟨?_, h.settled, .inl rfl⟩
  rw [SocketState.lose, h.settled]
  exact h.settlements

theorem Settled.onEvent {commands : ℕ} {s : SocketState} {outcome : Except JsError ReplyValue}
    (h : Settled commands s outcome) (event : SocketEvent) :
    Settled commands (onEvent engine commands s event) outcome := by
  unfold Valkey.onEvent
  split_ifs with hdestroyed
  · exact h
  · have hover : commands ≤ s.completed := h.finished.resolve_left hdestroyed
    cases event with
    | data chunk =>
      have hnone : commands - s.completed = 0 := Nat.sub_eq_zero_of_le hover
      dsimp only
      rw [hnone]
      exact ⟨h.settlements, h.settled, .inr hover⟩
    | timeout => exact h.lose _
    | error error => exact h.lose error

theorem Settled.run {commands : ℕ} {s : SocketState} {outcome : Except JsError ReplyValue}
    (h : Settled commands s outcome) (events : List SocketEvent) :
    Settled commands (run engine commands s events) outcome := by
  induction events generalizing s with
  | nil => exact h
  | cons event events ih => exact ih (h.onEvent event)

theorem subarrayFrom_encode (reply : Reply) (rest : List UInt8) :
    subarrayFrom (reply.encode ++ rest) (some reply.encode.length) = rest := by
  rw [subarrayFrom, relativeIndex_natCast (by rw [List.length_append]; omega), List.drop_left]

/-- The loop reads the replies that are there. The induction is on them. -/
theorem drain_replies {left : ℕ} {replies : List Reply} {s : SocketState} {tail : List UInt8}
    (hleft : 0 < left) (hbuffer : s.buffer = encodeReplies replies ++ tail)
    (htail : Unfinished tail) (hsettlements : s.settlements = []) :
    (∀ outcome, expected left replies = some outcome →
      Settled (s.completed + left) (drain engine left s) outcome) ∧
    (expected left replies = none →
      drain engine left s = { s with buffer := tail, completed := s.completed + replies.length }) := by
  induction replies generalizing left s with
  | nil =>
    have hwaits : drain engine left s = s := by
      obtain ⟨left, rfl⟩ := Nat.exists_eq_add_one.mpr hleft
      have hparse : parseResp engine s.buffer = .ok none := by
        rw [hbuffer]
        exact parseResp_unfinished htail
      rw [drain, hparse]
    rw [expected_nil, hwaits]
    refine ⟨fun _ h => (by cases h), fun _ => ?_⟩
    have hsame : s.buffer = tail := hbuffer
    rw [← hsame]
    rfl
  | cons reply replies ih =>
    obtain ⟨left, rfl⟩ := Nat.exists_eq_add_one.mpr hleft
    have hframes : s.buffer = reply.encode ++ (encodeReplies replies ++ tail) := by
      rw [hbuffer, encodeReplies, List.flatMap_cons, List.append_assoc]
      rfl
    have hrest : subarrayFrom s.buffer (some reply.encode.length) = encodeReplies replies ++ tail := by
      rw [hframes, subarrayFrom_encode]
    have hparse := @parseResp_encode engine reply (encodeReplies replies ++ tail)
    rw [← hframes] at hparse
    rw [expected_cons, drain, hparse]
    dsimp only
    rw [hrest]
    cases hresult : resultOf reply with
    | error error =>
      refine ⟨fun outcome h => ?_, fun h => (by cases h)⟩
      obtain rfl := Option.some.inj h
      refine ⟨?_, rfl, .inl rfl⟩
      change s.settlements ++ [.error error] = _
      rw [hsettlements]
      rfl
    | ok value =>
      dsimp only
      by_cases hlast : left = 0
      · rw [if_pos hlast, if_pos hlast]
        refine ⟨fun outcome h => ?_, fun h => (by cases h)⟩
        obtain rfl := Option.some.inj h
        refine ⟨?_, rfl, .inr ?_⟩
        · change s.settlements ++ [.ok value] = _
          rw [hsettlements]
          rfl
        · rw [hlast]
          exact le_rfl
      · rw [if_neg hlast, if_neg hlast]
        have hnext := @ih left { s with buffer := encodeReplies replies ++ tail
                                        completed := s.completed + 1 }
          (Nat.pos_of_ne_zero hlast) rfl hsettlements
        dsimp only at hnext
        rw [List.length_cons, Nat.add_comm left 1, Nat.add_comm replies.length 1,
          ← Nat.add_assoc, ← Nat.add_assoc]
        exact hnext

/-- A whole frame is not an unfinished one. -/
theorem not_unfinished_encode (reply : Reply) (rest : List UInt8) :
    ¬ Unfinished (reply.encode ++ rest) := by
  intro h
  have hnone := @parseResp_unfinished plainEngine _ h
  rw [parseResp_encode] at hnone
  cases hnone

/-- However the replies are cut into chunks, the promise waits, or is settled as expected. The
induction is on the chunks. -/
theorem run_chunks {count : ℕ} {chunks : List (List UInt8)} {s : SocketState}
    {replies more : List Reply} {start tail : List UInt8} (hcount : 0 < count)
    (hs : Waiting s replies start) (hnone : expected count replies = none)
    (hstart : Unfinished start) (htail : Unfinished tail)
    (h : start ++ chunks.flatten = encodeReplies more ++ tail) :
    (∀ outcome, expected count (replies ++ more) = some outcome →
      Settled count (run engine count s (chunks.map .data)) outcome) ∧
    (expected count (replies ++ more) = none →
      Waiting (run engine count s (chunks.map .data)) (replies ++ more) tail) := by
  induction chunks generalizing s replies more start with
  | nil =>
    rw [List.flatten_nil, List.append_nil] at h
    obtain rfl : more = [] := by
      cases more with
      | nil => rfl
      | cons reply more =>
        rw [h, encodeReplies, List.flatMap_cons, List.append_assoc] at hstart
        exact absurd hstart (not_unfinished_encode reply _)
    obtain rfl : start = tail := h
    rw [List.append_nil, hnone]
    exact ⟨fun _ hsome => (by cases hsome), fun _ => hs⟩
  | cons chunk chunks ih =>
    rw [List.flatten_cons, ← List.append_assoc] at h
    obtain ⟨now, later, tail₁, rfl, hnow, htail₁, hlater⟩ := exists_frames htail h
    obtain ⟨hlength, happend⟩ := expected_append_of_none hcount hnone now
    have hevent : onEvent engine count s (.data chunk) =
        drain engine (count - s.completed) { s with buffer := s.buffer ++ chunk } := by
      rw [onEvent, hs.destroyed, if_neg Bool.false_ne_true]
    have hbuffer : s.buffer ++ chunk = encodeReplies now ++ tail₁ := by
      rw [hs.buffer, hnow]
    have hdrain := @drain_replies engine (count - s.completed) now
      { s with buffer := s.buffer ++ chunk } tail₁ (by rw [hs.completed]; omega) hbuffer htail₁
      hs.settlements
    rw [← hevent, hs.completed, ← happend] at hdrain
    rw [List.map_cons, ← List.append_assoc]
    cases hexpected : expected count (replies ++ now) with
    | some outcome =>
      -- the promise is settled with this chunk, and stays so
      have hsettled := hdrain.1 outcome hexpected
      rw [Nat.add_sub_cancel' hlength.le] at hsettled
      have hall := expected_append_of_some hcount hexpected later
      rw [hall]
      refine ⟨fun other hother => ?_, fun hother => (by cases hother)⟩
      obtain rfl := Option.some.inj hother
      exact hsettled.run _
    | none =>
      have hwaits : Waiting (onEvent engine count s (.data chunk)) (replies ++ now) tail₁ := by
        rw [hdrain.2 hexpected]
        exact ⟨rfl, List.length_append.symm, hs.settled, hs.destroyed, hs.settlements⟩
      exact ih hwaits hexpected htail₁ hlater

/-! ### The codec -/

theorem commands_length_pos (connection : Connection) (parts : List String) :
    0 < (commands connection parts).length := by
  rw [commands, List.length_append]
  exact Nat.lt_of_lt_of_le Nat.zero_lt_one (Nat.le_add_left _ _)

theorem unfinished_nil : Unfinished [] := ⟨.nil, List.nil_prefix, (List.cons_ne_nil _ _).symm⟩

/-- A request is read by the protocol as its parts, in a pipeline as well, and the promise of a
command is settled once, with what the replies that are there determine. -/
theorem valkeyCodec_faithful (engine : Engine) :
    (∀ (parts : List String) (rest : List UInt8),
      Resp.readArray (Utf8.encode (resp parts).toList ++ rest)
        = some (parts.map fun part => Utf8.encode part.toList, rest)) ∧
    (∀ (connection : Connection) (parts : List String),
      Resp.readArrays (commands connection parts).length (written (commands connection parts))
        = some ((commands connection parts).map fun command =>
            command.map fun part => Utf8.encode part.toList, [])) ∧
    ∀ (connection : Connection) (parts : List String) (replies : List Reply)
      (tail : List UInt8) (chunks : List (List UInt8)), Unfinished tail →
      chunks.flatten = encodeReplies replies ++ tail →
      (run engine (commands connection parts).length {} (chunks.map .data)).settlements
        = (expected (commands connection parts).length replies).toList ∧
      ∀ outcome, expected (commands connection parts).length replies = some outcome →
        ∀ events, (run engine (commands connection parts).length {}
          (chunks.map .data ++ events)).settlements = [outcome] := by
  refine ⟨fun parts rest => ?_, fun connection parts => ?_,
    fun connection parts replies tail chunks htail h => ?_⟩
  · rw [encode_resp, Resp.readArray_encodeArray]
  · have hread := Resp.readArrays_encodeArray ((commands connection parts).map fun command =>
      command.map fun part => Utf8.encode part.toList) []
    rwa [List.append_nil, ← written_eq, List.length_map] at hread
  · have hcount := commands_length_pos connection parts
    have hstart : Waiting {} [] [] := ⟨rfl, rfl, rfl, rfl, rfl⟩
    obtain ⟨hsettled, hwaits⟩ := @run_chunks engine _ chunks {} [] replies [] tail hcount hstart
      (expected_nil _) unfinished_nil htail h
    rw [List.nil_append] at hsettled hwaits
    constructor
    · cases hexpected : expected (commands connection parts).length replies with
      | some outcome => exact (hsettled outcome hexpected).settlements
      | none => exact (hwaits hexpected).settlements
    · intro outcome houtcome events
      rw [run, List.foldl_append]
      exact ((hsettled outcome houtcome).run events).settlements

/-- The replies to an authentication and to a command, whose value is the letter `é`. -/
def letterReplies : List Reply :=
  [.simple ⟨['O', 'K'], by decide, by decide⟩, .bulk ⟨[0xc3, 0xa9], by decide⟩]

/-- Cut inside a line end and inside the letter. -/
def letterChunks : List (List UInt8) :=
  [[0x2b, 0x4f, 0x4b, 0x0d], [0x0a, 0x24, 0x32, 0x0d, 0x0a, 0xc3], [0xa9, 0x0d, 0x0a]]

theorem valkeyCodec_faithful_letter :
    (run plainEngine (commands { password := "secret" } ["GET", "k"]).length {}
      (letterChunks.map .data)).settlements = [.ok (.text "é")] := by
  have hcodec := (valkeyCodec_faithful plainEngine).2.2 { password := "secret" } ["GET", "k"]
    letterReplies [] letterChunks unfinished_nil (by decide +kernel)
  have hexpected : expected (commands { password := "secret" } ["GET", "k"]).length letterReplies
      = some (.ok (.text "é")) := by decide +kernel
  rw [hexpected] at hcodec
  exact hcodec.1

end Oati.TypeScript.Valkey

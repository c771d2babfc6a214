import Oati.TypeScript.Crypto

/-!
# Requests and responses of the Fetch API

What the middleware uses of `Request`, `Response` and `Headers`: names of headers are compared
in lower case, a value that is no header value is refused, and a response is only made with a
status from 200 to 599 and, when that status has no body, without one.
-/

namespace Oati.TypeScript

/-! ### Headers -/

/-- Whitespace and line terminators, which `trim` removes. -/
def isTrimmed (c : Char) : Bool :=
  [0x9, 0xa, 0xb, 0xc, 0xd, 0x20, 0xa0, 0x1680, 0x2028, 0x2029, 0x202f, 0x205f, 0x3000,
    0xfeff].contains c.toNat || 0x2000 ≤ c.toNat && c.toNat ≤ 0x200a

/-- The headers of a message, each with its combined value, under lower-case names. -/
abbrev Headers := List (String × String)

/-- The lower-case form of a header's name. -/
def headerName (name : String) : String := String.ofList (name.toList.map Char.toLower)

/-- `headers.get(name)`. -/
def Headers.get (headers : Headers) (name : String) : Option String :=
  headers.lookup (headerName name)

/-- Whitespace that is dropped around a header's value. -/
def isHttpWhitespace (c : Char) : Bool := c == '\t' || c == '\n' || c == '\r' || c == ' '

/-- A header's value without the whitespace around it: bytes, none of which ends a line. -/
def headerValue (value : String) : Except JsError String :=
  let cs := ((value.toList.dropWhile isHttpWhitespace).reverse.dropWhile isHttpWhitespace).reverse
  if cs.all fun c => c.toNat ≤ 255 && c.toNat != 0 && c != '\n' && c != '\r' then
    .ok (String.ofList cs)
  else .error (.typeError "Headers.set: invalid header value")

/-- Replace the value of a header, or add one. -/
def Headers.put (headers : Headers) (name value : String) : Headers :=
  match headers with
  | [] => [(name, value)]
  | (k, v) :: rest => if k = name then (k, value) :: rest else (k, v) :: Headers.put rest name value

/-- `headers.set(name, value)`. -/
def Headers.set (headers : Headers) (name value : String) : Except JsError Headers := do
  return headers.put (headerName name) (← headerValue value)

/-- `if (value) headers.set(name, value)`. -/
def Headers.setSome (headers : Headers) (name : String) (value : Option String) :
    Except JsError Headers :=
  match nonEmpty value with
  | some value => headers.set name value
  | none => .ok headers

/-! ### Messages -/

/-- A request. Its `target` is the path and the query of its URL; its body is read by a call. -/
structure HttpRequest where
  method : String
  target : String
  headers : Headers := []

/-- A response. The body of one that was read or is being read cannot be sent again. -/
structure HttpResponse where
  status : ℕ
  statusText : String := ""
  headers : Headers := []
  body : Option String := none
  bodyUsed : Bool := false

/-- The statuses of responses without a body. -/
def nullBodyStatuses : List ℕ := [101, 204, 205, 304]

/-- `new Response(body, { status, statusText, headers })`. -/
def newResponse (response : HttpResponse) : Except JsError HttpResponse :=
  if response.bodyUsed then
    .error (.typeError "Response body object should not be disturbed or locked")
  else if response.status < 200 ∨ 599 < response.status then
    .error (.rangeError "init[\"status\"] must be in the range of 200 to 599, inclusive.")
  else if response.body.isSome ∧ response.status ∈ nullBodyStatuses then
    .error (.typeError "Response with null body status cannot have body")
  else .ok response

/-- A response is made as it is described, or not at all. -/
theorem newResponse_eq_ok {response made : HttpResponse} (h : newResponse response = .ok made) :
    made = response := by
  rw [newResponse] at h
  split_ifs at h
  exact (Except.ok.inj h).symm

/-! ### Bytes as text -/

/-- `hex`. -/
def hex (bytes : List UInt8) : String :=
  String.ofList (bytes.flatMap fun b =>
    [JsonText.hexDigit (b.toNat / 16), JsonText.hexDigit (b.toNat % 16)])

example : hex [0, 255, 18] = "00ff12" := by decide

end Oati.TypeScript

import Mathlib.Data.List.DropRight
import Mathlib.Data.List.TakeWhile
import Oati.Library.Numeral
import Oati.Library.Utf8

/-!
# URLs of the schemes http and https

The parser of the URL Standard, for texts of these two schemes and for references that begin with
a slash. How hosts are read and written is a parameter (`Hosts`). The states that consume
characters up to a delimiter are functions of the remaining text.

* `parse`: the URL of a text; `resolve`: the URL of a reference, at an origin.
* `parse_origin_append`: an origin followed by a path is read as that origin and that path.
* `resolve_of_single`, `resolve_of_double`: a reference keeps the origin, unless it begins with
  two slashes: then an authority follows them.
-/

namespace HttpUrl

/-! ### Characters -/

/-- Both are slashes in these schemes. -/
def isSlash (c : Char) : Bool := c = '/' || c = '\\'

/-- What ends an authority. -/
def isDelimiter (c : Char) : Bool := isSlash c || c = '?' || c = '#'

def isTabOrNewline (c : Char) : Bool := c = '\t' || c = '\n' || c = '\r'

def isC0ControlOrSpace (c : Char) : Bool := c.toNat ≤ 0x20

/-- The C0 control percent-encode set. -/
def c0ControlSet (c : Char) : Bool := c.toNat ≤ 0x1f || 0x7e < c.toNat

def fragmentSet (c : Char) : Bool :=
  c0ControlSet c || [' ', '"', '<', '>', Char.ofNat 0x60].contains c

def querySet (c : Char) : Bool := c0ControlSet c || [' ', '"', '#', '<', '>'].contains c

def specialQuerySet (c : Char) : Bool := querySet c || c = Char.ofNat 0x27

def pathSet (c : Char) : Bool := querySet c || ['?', '^', Char.ofNat 0x60, '{', '}'].contains c

def userinfoSet (c : Char) : Bool :=
  pathSet c || ['/', ':', ';', '=', '@', '[', '\\', ']', '|'].contains c

/-- An upper-case hexadecimal digit. -/
def hexDigit (n : ℕ) : Char := Char.ofNat (if n < 10 then n + '0'.toNat else n - 10 + 'A'.toNat)

/-- UTF-8 percent-encode a character that is in the set. -/
def percentEncode (set : Char → Bool) (c : Char) : List Char :=
  if set c then
    (Utf8.encode [c]).flatMap fun b => ['%', hexDigit (b.toNat / 16), hexDigit (b.toNat % 16)]
  else [c]

/-! ### URLs -/

inductive Scheme where
  | http
  | https
  deriving DecidableEq, Repr

def Scheme.name : Scheme → List Char
  | .http => ['h', 't', 't', 'p']
  | .https => ['h', 't', 't', 'p', 's']

def Scheme.defaultPort : Scheme → ℕ
  | .http => 80
  | .https => 443

/-- The first colon of a host text that is not between brackets, with what follows it. -/
def splitHost (inside : Bool) : List Char → List Char × Option (List Char)
  | [] => ([], none)
  | c :: cs =>
    if c = ':' ∧ inside = false then ([], some cs)
    else
      let split := splitHost (if c = '[' then true else if c = ']' then false else inside) cs
      (c :: split.1, split.2)

/-- The reader and the writer of hosts. A host that is written is read as itself, and its colons
stand between brackets. -/
structure Hosts where
  Host : Type
  parse : List Char → Option Host
  text : Host → List Char
  parse_text : ∀ h, parse (text h) = some h
  text_ne_nil : ∀ h, text h ≠ []
  text_clean : ∀ h, ∀ c ∈ text h, isDelimiter c = false ∧ c ≠ '@' ∧ isTabOrNewline c = false
  split_text : ∀ h, splitHost false (text h) = (text h, none)
  split_text_colon : ∀ h rest, splitHost false (text h ++ ':' :: rest) = (text h, some rest)

variable (hosts : Hosts)

/-- A port that is not the scheme's own, or none. -/
abbrev Port (scheme : Scheme) :=
  { port : Option ℕ // ∀ p ∈ port, p ≤ 65535 ∧ p ≠ scheme.defaultPort }

structure Origin where
  scheme : Scheme
  host : hosts.Host
  port : Port scheme

/-- A URL record; the segments of its path follow a slash each. -/
structure Url where
  origin : Origin hosts
  username : List Char := []
  password : List Char := []
  path : List (List Char)
  query : Option (List Char) := none
  fragment : Option (List Char) := none

variable {hosts}

/-- The serialization of an origin. -/
def Origin.text (origin : Origin hosts) : List Char :=
  origin.scheme.name ++ [':', '/', '/'] ++ hosts.text origin.host ++
    origin.port.1.elim [] fun p => ':' :: Nat.toDigits 10 p

/-- `url.pathname`. -/
def Url.pathname (url : Url hosts) : List Char := url.path.flatMap ('/' :: ·)

/-- `url.search`. -/
def Url.search (url : Url hosts) : List Char :=
  match url.query with
  | none | some [] => []
  | some query => '?' :: query

/-- The URL has a username or a password. -/
def Url.includesCredentials (url : Url hosts) : Bool := url.username != [] || url.password != []

/-! ### Paths -/

/-- The dots of a segment, each written as such or as `%2e`. -/
def dots : List Char → Option ℕ
  | [] => some 0
  | '.' :: rest => (dots rest).map (· + 1)
  | '%' :: '2' :: e :: rest => if e = 'e' ∨ e = 'E' then (dots rest).map (· + 1) else none
  | _ => none

/-- The end of a segment, at a slash or not. -/
def endSegment (path : List (List Char)) (buffer : List Char) (slash : Bool) :
    List (List Char) :=
  if dots buffer = some 2 then
    if slash then path.dropLast else path.dropLast ++ [[]]
  else if dots buffer = some 1 then
    if slash then path else path ++ [[]]
  else path ++ [buffer]

/-- The path state: the path, and the text from the query or the fragment on. -/
def pathState (path : List (List Char)) (buffer : List Char) :
    List Char → List (List Char) × List Char
  | [] => (endSegment path buffer false, [])
  | c :: cs =>
    if isSlash c then pathState (endSegment path buffer true) [] cs
    else if c = '?' ∨ c = '#' then (endSegment path buffer false, c :: cs)
    else pathState path (buffer ++ percentEncode pathSet c) cs

/-- The fragment state. -/
def fragmentState : List Char → Option (List Char)
  | '#' :: rest => some (rest.flatMap (percentEncode fragmentSet))
  | _ => none

/-- The query state: the query and the fragment. -/
def queryState : List Char → Option (List Char) × Option (List Char)
  | '?' :: rest =>
    (some ((rest.takeWhile (· != '#')).flatMap (percentEncode specialQuerySet)),
      fragmentState (rest.dropWhile (· != '#')))
  | rest => (none, fragmentState rest)

/-- The URL at an origin with the path, query and fragment of a text after its first slash. -/
def urlAt (origin : Origin hosts) (text : List Char) (username password : List Char) : Url hosts :=
  let path := pathState [] [] text
  let query := queryState path.2
  { origin, username, password, path := path.1, query := query.1, fragment := query.2 }

/-- The path start state: a first slash is passed over. -/
def pathStart : List Char → List Char
  | c :: cs => if isSlash c then cs else c :: cs
  | [] => []

/-! ### Authorities -/

/-- The port state. An empty port, and the scheme's own, are no port. -/
def portState (scheme : Scheme) (text : List Char) : Option (Port scheme) :=
  let port := Nat.ofDigitChars 10 text 0
  if text.all Char.isDigit then
    if h : text ≠ [] ∧ port ≤ 65535 ∧ port ≠ scheme.defaultPort then
      some ⟨some port, by rintro _ ⟨⟩; exact h.2⟩
    else if 65535 < port then none
    else some ⟨none, by rintro _ ⟨⟩⟩
  else none

/-- The host and port states. -/
def hostState (hosts : Hosts) (scheme : Scheme) (text : List Char) : Option (Origin hosts) := do
  let split := splitHost false text
  if split.1 = [] then none
  let host ← hosts.parse split.1
  let port ← portState scheme (split.2.getD [])
  some { scheme, host, port }

/-- What stands before the last `@` of an authority, and what stands after it. -/
def splitUserinfo (text : List Char) : List Char × List Char :=
  let after := (text.reverse.takeWhile (· != '@')).reverse
  (text.take (text.length - after.length - 1), after)

/-- The authority state, on the text of an authority and what follows it. -/
def authorityState (hosts : Hosts) (scheme : Scheme) (text : List Char) : Option (Url hosts) :=
  let split := splitUserinfo (text.takeWhile (!isDelimiter ·))
  let rest := text.dropWhile (!isDelimiter ·)
  (hostState hosts scheme split.2).map fun origin =>
    urlAt origin (pathStart rest)
      ((split.1.takeWhile (· != ':')).flatMap (percentEncode userinfoSet))
      (((split.1.dropWhile (· != ':')).drop 1).flatMap (percentEncode userinfoSet))

/-! ### The parser -/

/-- The text without controls and spaces at its ends, and without tabs and newlines. -/
def clean (input : List Char) : List Char :=
  ((input.dropWhile isC0ControlOrSpace).rdropWhile isC0ControlOrSpace).filter
    (!isTabOrNewline ·)

/-- The scheme of a text, in lower case, of the two. -/
def schemeOf (name : List Char) : Option Scheme :=
  if name.map Char.toLower = Scheme.http.name then some .http
  else if name.map Char.toLower = Scheme.https.name then some .https
  else none

/-- The parser without a base URL. After the scheme any number of slashes is passed over. -/
def parse (hosts : Hosts) (input : List Char) : Option (Url hosts) :=
  let text := clean input
  match schemeOf (text.takeWhile (· != ':')), text.dropWhile (· != ':') with
  | some scheme, ':' :: rest => authorityState hosts scheme (rest.dropWhile isSlash)
  | _, _ => none

/-- The relative slash state: a second slash starts an authority. -/
def relativeSlashState (origin : Origin hosts) (text : List Char) : Option (Url hosts) :=
  if text.head?.any isSlash then authorityState hosts origin.scheme (text.dropWhile isSlash)
  else some (urlAt origin text [] [])

/-- The parser with the URL of an origin as its base, on a reference that begins with a slash. -/
def resolve (origin : Origin hosts) (input : List Char) : Option (Url hosts) :=
  match clean input with
  | c :: rest => if isSlash c then relativeSlashState origin rest else none
  | [] => none

/-! ### Reading what was written -/

variable {scheme : Scheme}

/-- A slash in the text bounds what is removed at its end. -/
theorem clean_append {front text : List Char} (hfirst : ∀ c ∈ front.head?, isC0ControlOrSpace c = false)
    (hfront : ∀ c ∈ front, isTabOrNewline c = false) :
    clean (front ++ '/' :: text)
      = front ++ '/' :: (text.rdropWhile isC0ControlOrSpace).filter (!isTabOrNewline ·) := by
  have hleft : (front ++ '/' :: text).dropWhile isC0ControlOrSpace = front ++ '/' :: text := by
    cases front with
    | nil => rfl
    | cons c rest =>
      have hc := hfirst c rfl
      rw [List.cons_append, List.dropWhile_cons_of_neg (by simp [hc])]
  have hright : (front ++ '/' :: text).rdropWhile isC0ControlOrSpace
      = front ++ '/' :: text.rdropWhile isC0ControlOrSpace := by
    clear hleft
    induction text using List.reverseRecOn with
    | nil => exact List.rdropWhile_concat_neg _ _ _ (by decide)
    | append_singleton text c ih =>
      rw [← List.cons_append, ← List.append_assoc]
      by_cases hc : isC0ControlOrSpace c = true
      · rw [List.rdropWhile_concat_pos _ _ _ hc, List.rdropWhile_concat_pos _ _ _ hc, ih]
      · rw [List.rdropWhile_concat_neg _ _ _ hc, List.rdropWhile_concat_neg _ _ _ hc]
        simp
  have hkept : front.filter (!isTabOrNewline ·) = front :=
    List.filter_eq_self.mpr fun c hc => by rw [hfront c hc]; rfl
  rw [clean, hleft, hright, List.filter_append, hkept, List.filter_cons_of_pos (by decide)]

theorem splitUserinfo_of_notMem {text : List Char} (h : '@' ∉ text) :
    splitUserinfo text = ([], text) := by
  have hafter : text.reverse.takeWhile (· != '@') = text.reverse := by
    rw [List.takeWhile_eq_self_iff]
    intro c hc
    rw [bne_iff_ne]
    rintro rfl
    exact h (List.mem_reverse.mp hc)
  rw [splitUserinfo, hafter, List.reverse_reverse]
  simp

/-- The port of an origin is read back. -/
theorem portState_toDigits {port : ℕ} (h : port ≤ 65535 ∧ port ≠ scheme.defaultPort) :
    portState scheme (Nat.toDigits 10 port) = some ⟨some port, by rintro _ ⟨⟩; exact h⟩ := by
  have hdigits : (Nat.toDigits 10 port).all Char.isDigit = true :=
    List.all_eq_true.mpr fun c hc => Numeral.isDigit_of_mem_toDigits c hc
  have hvalue : Nat.ofDigitChars 10 (Nat.toDigits 10 port) 0 = port := Nat.ofDigitChars_ten_toDigits
  have hport : Nat.toDigits 10 port ≠ []
      ∧ Nat.ofDigitChars 10 (Nat.toDigits 10 port) 0 ≤ 65535
      ∧ Nat.ofDigitChars 10 (Nat.toDigits 10 port) 0 ≠ scheme.defaultPort := by
    rw [hvalue]
    exact ⟨Nat.toDigits_ne_nil, h⟩
  rw [portState, if_pos hdigits, dif_pos hport]
  simp only [hvalue]

/-- A host and a port are read back. -/
theorem hostState_eq_some {text : List Char} {host : hosts.Host} {port : Port scheme}
    {after : Option (List Char)} (hsplit : splitHost false text = (hosts.text host, after))
    (hport : portState scheme (after.getD []) = some port) :
    hostState hosts scheme text = some { scheme, host, port } := by
  rw [hostState, hsplit]
  simp only [if_neg (hosts.text_ne_nil host), hosts.parse_text, hport]
  rfl

/-- The host and the port of an origin, as they are written. -/
def Origin.authority (origin : Origin hosts) : List Char :=
  hosts.text origin.host ++ origin.port.1.elim [] fun p => ':' :: Nat.toDigits 10 p

theorem hostState_authority (origin : Origin hosts) :
    hostState hosts origin.scheme origin.authority = some origin := by
  obtain ⟨scheme, host, port, hvalid⟩ := origin
  rcases port with _ | p
  · have hsplit : splitHost false (hosts.text host ++ []) = (hosts.text host, none) := by
      rw [List.append_nil, hosts.split_text]
    exact hostState_eq_some hsplit rfl
  · exact hostState_eq_some (hosts.split_text_colon host _)
      (portState_toDigits (hvalid p rfl))

/-- An authority has no delimiter and no userinfo. -/
theorem Origin.authority_clean (origin : Origin hosts) :
    ∀ c ∈ origin.authority, isDelimiter c = false ∧ c ≠ '@' ∧ isTabOrNewline c = false := by
  intro c hc
  rcases List.mem_append.mp hc with hhost | hport
  · exact hosts.text_clean _ c hhost
  · rcases hp : origin.port.1 with _ | p
    · rw [hp] at hport
      cases hport
    · rw [hp] at hport
      rcases List.mem_cons.mp hport with rfl | hdigit
      · decide
      · have hc := Numeral.isDigit_of_mem_toDigits c hdigit
        have hne : ∀ d : Char, d.isDigit = false → c ≠ d := by
          rintro d hd rfl
          rw [hd] at hc
          cases hc
        simp [isDelimiter, isSlash, isTabOrNewline, hne _ (show '/'.isDigit = false by decide),
          hne _ (show '\\'.isDigit = false by decide), hne _ (show '?'.isDigit = false by decide),
          hne _ (show '#'.isDigit = false by decide), hne _ (show '@'.isDigit = false by decide),
          hne _ (show '\t'.isDigit = false by decide), hne _ (show '\n'.isDigit = false by decide),
          hne _ (show '\r'.isDigit = false by decide)]

/-- The authority state on the authority of an origin. -/
theorem authorityState_authority (origin : Origin hosts) (text : List Char) :
    authorityState hosts origin.scheme (origin.authority ++ '/' :: text)
      = some (urlAt origin text [] []) := by
  have hpass : ∀ c ∈ origin.authority, (!isDelimiter c) = true := fun c hc => by
    rw [(origin.authority_clean c hc).1]; rfl
  have htake : (origin.authority ++ '/' :: text).takeWhile (fun c => !isDelimiter c)
      = origin.authority := by
    rw [List.takeWhile_append_of_pos hpass,
      List.takeWhile_cons_of_neg (p := fun c => !isDelimiter c) (by decide), List.append_nil]
  have hdrop : (origin.authority ++ '/' :: text).dropWhile (fun c => !isDelimiter c)
      = '/' :: text := by
    rw [List.dropWhile_append_of_pos hpass,
      List.dropWhile_cons_of_neg (p := fun c => !isDelimiter c) (by decide)]
  have hno : '@' ∉ origin.authority := fun h => (origin.authority_clean _ h).2.1 rfl
  rw [authorityState, htake, hdrop, splitUserinfo_of_notMem hno, hostState_authority]
  rfl

/-- What `clean` leaves of a text after its first slash. -/
def cleanTail (text : List Char) : List Char :=
  (text.rdropWhile isC0ControlOrSpace).filter (!isTabOrNewline ·)

theorem clean_slash (text : List Char) : clean ('/' :: text) = '/' :: cleanTail text :=
  @clean_append [] text (fun _ h => by cases h) (fun _ h => by cases h)

theorem Origin.text_eq (origin : Origin hosts) :
    origin.text = origin.scheme.name ++ ':' :: '/' :: '/' :: origin.authority := by
  rw [Origin.text, Origin.authority, List.append_assoc, List.append_assoc]
  rfl

theorem schemeOf_name (scheme : Scheme) : schemeOf scheme.name = some scheme := by
  cases scheme <;> rfl

/-- A host text begins with no slash. -/
theorem dropWhile_isSlash_authority (origin : Origin hosts) (text : List Char) :
    (origin.authority ++ text).dropWhile isSlash = origin.authority ++ text := by
  obtain ⟨c, rest, hcons⟩ := List.exists_cons_of_ne_nil (hosts.text_ne_nil origin.host)
  have hmem : c ∈ origin.authority := by
    rw [Origin.authority, hcons]
    exact List.mem_cons_self
  have hslash : isSlash c = false := by
    have hdelimiter := (origin.authority_clean c hmem).1
    rw [isDelimiter, Bool.or_eq_false_iff, Bool.or_eq_false_iff] at hdelimiter
    exact hdelimiter.1.1
  rw [Origin.authority, hcons, List.cons_append, List.cons_append,
    List.dropWhile_cons_of_neg (by simp [hslash])]

/-- An origin followed by a path is that origin, with that path. -/
theorem parse_origin_append (origin : Origin hosts) (text : List Char) :
    parse hosts (origin.text ++ '/' :: text) = some (urlAt origin (cleanTail text) [] []) := by
  have hscheme : ∀ c ∈ origin.scheme.name, isTabOrNewline c = false ∧ (c != ':') = true := by
    cases origin.scheme <;> simp [Scheme.name, isTabOrNewline]
  have hfirst : ∀ c ∈ origin.text.head?, isC0ControlOrSpace c = false := by
    rw [Origin.text_eq]
    cases origin.scheme <;> rintro _ ⟨⟩ <;> decide
  have hclean : ∀ c ∈ origin.text, isTabOrNewline c = false := by
    intro c hc
    rw [Origin.text_eq] at hc
    rcases List.mem_append.mp hc with hname | hrest
    · exact (hscheme c hname).1
    · simp only [List.mem_cons] at hrest
      rcases hrest with rfl | rfl | rfl | hauthority
      · decide
      · decide
      · decide
      · exact (origin.authority_clean c hauthority).2.2
  have htext : clean (origin.text ++ '/' :: text)
      = origin.scheme.name ++ ':' :: '/' :: '/' :: (origin.authority ++ '/' :: cleanTail text) := by
    rw [clean_append hfirst hclean, Origin.text_eq, List.append_assoc]
    rfl
  have hname : ∀ c ∈ origin.scheme.name, (c != ':') = true := fun c hc => (hscheme c hc).2
  have htake : (clean (origin.text ++ '/' :: text)).takeWhile (· != ':') = origin.scheme.name := by
    rw [htext, List.takeWhile_append_of_pos hname,
      List.takeWhile_cons_of_neg (p := fun c => c != ':') (by decide), List.append_nil]
  have hdrop : (clean (origin.text ++ '/' :: text)).dropWhile (· != ':')
      = ':' :: '/' :: '/' :: (origin.authority ++ '/' :: cleanTail text) := by
    rw [htext, List.dropWhile_append_of_pos hname,
      List.dropWhile_cons_of_neg (p := fun c => c != ':') (by decide)]
  have hslashes : ('/' :: '/' :: (origin.authority ++ '/' :: cleanTail text)).dropWhile isSlash
      = origin.authority ++ '/' :: cleanTail text := by
    rw [List.dropWhile_cons_of_pos (by decide), List.dropWhile_cons_of_pos (by decide),
      dropWhile_isSlash_authority]
  rw [parse]
  simp only [htake, hdrop, schemeOf_name, hslashes, authorityState_authority]

/-! ### References -/

/-- The reference begins with two slashes. -/
def beginsWithAuthority (text : List Char) : Bool := (cleanTail text).head?.any isSlash

/-- A reference with one slash keeps the origin. -/
theorem resolve_of_single (origin : Origin hosts) {text : List Char}
    (h : beginsWithAuthority text = false) :
    resolve origin ('/' :: text) = some (urlAt origin (cleanTail text) [] []) := by
  rw [beginsWithAuthority] at h
  rw [resolve, clean_slash]
  simp only [show isSlash '/' = true from rfl, if_true, relativeSlashState, h]
  rfl

/-- After two slashes an authority is read. -/
theorem resolve_of_double (origin : Origin hosts) {text : List Char}
    (h : beginsWithAuthority text = true) :
    resolve origin ('/' :: text)
      = authorityState hosts origin.scheme ((cleanTail text).dropWhile isSlash) := by
  rw [beginsWithAuthority] at h
  rw [resolve, clean_slash]
  simp only [show isSlash '/' = true from rfl, if_true, relativeSlashState, h]

end HttpUrl

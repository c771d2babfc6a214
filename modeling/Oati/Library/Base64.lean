import Mathlib.Data.List.Basic

/-!
# Base64 with the URL-safe alphabet, without padding

`encode` writes three bytes as four digits of six bits, and one or two last bytes as two or three
digits. `decode` reads them back; a text of another alphabet, or with one digit too many, has no
value. The bits of the last digit beyond the last byte are ignored, so `decode` is not injective.
-/

namespace Base64

/-- The value of a digit. -/
def digitValue (c : Char) : Option ℕ :=
  if 'A' ≤ c ∧ c ≤ 'Z' then some (c.toNat - 'A'.toNat)
  else if 'a' ≤ c ∧ c ≤ 'z' then some (c.toNat - 'a'.toNat + 26)
  else if '0' ≤ c ∧ c ≤ '9' then some (c.toNat - '0'.toNat + 52)
  else if c = '-' then some 62
  else if c = '_' then some 63
  else none

/-- The digit of a value below 64. -/
def digit (n : ℕ) : Char :=
  if n < 26 then Char.ofNat (n + 'A'.toNat)
  else if n < 52 then Char.ofNat (n - 26 + 'a'.toNat)
  else if n < 62 then Char.ofNat (n - 52 + '0'.toNat)
  else if n = 62 then '-' else '_'

/-- The digits of a byte string. -/
def encodeDigits : List UInt8 → List ℕ
  | [] => []
  | [a] => [a.toNat / 4, a.toNat % 4 * 16]
  | [a, b] => [a.toNat / 4, a.toNat % 4 * 16 + b.toNat / 16, b.toNat % 16 * 4]
  | a :: b :: c :: rest =>
    (a.toNat / 4) :: (a.toNat % 4 * 16 + b.toNat / 16) :: (b.toNat % 16 * 4 + c.toNat / 64)
      :: (c.toNat % 64) :: encodeDigits rest

/-- The bytes of a list of digits. -/
def decodeDigits : List ℕ → Option (List UInt8)
  | [] => some []
  | [_] => none
  | [a, b] => some [UInt8.ofNat (a * 4 + b / 16)]
  | [a, b, c] => some [UInt8.ofNat (a * 4 + b / 16), UInt8.ofNat (b % 16 * 16 + c / 4)]
  | a :: b :: c :: d :: rest =>
    (decodeDigits rest).map fun bytes =>
      UInt8.ofNat (a * 4 + b / 16) :: UInt8.ofNat (b % 16 * 16 + c / 4)
        :: UInt8.ofNat (c % 4 * 64 + d) :: bytes

def encode (bytes : List UInt8) : List Char := (encodeDigits bytes).map digit

def decode (cs : List Char) : Option (List UInt8) := (cs.mapM digitValue).bind decodeDigits

/-- The characters of the alphabet. -/
def isDigit (c : Char) : Bool := (digitValue c).isSome

theorem digitValue_digit : ∀ n < 64, digitValue (digit n) = some n := by decide

/-- Every digit of an encoding is below 64. -/
theorem lt_of_mem_encodeDigits (bytes : List UInt8) : ∀ n ∈ encodeDigits bytes, n < 64 := by
  induction bytes using encodeDigits.induct with
  | case1 => simp [encodeDigits]
  | case2 a =>
    have ha := a.toNat_lt
    intro n hn
    simp only [encodeDigits, List.mem_cons, List.not_mem_nil, or_false] at hn
    omega
  | case3 a b =>
    have ha := a.toNat_lt
    have hb := b.toNat_lt
    intro n hn
    simp only [encodeDigits, List.mem_cons, List.not_mem_nil, or_false] at hn
    omega
  | case4 a b c rest ih =>
    have ha := a.toNat_lt
    have hb := b.toNat_lt
    have hc := c.toNat_lt
    intro n hn
    simp only [encodeDigits, List.mem_cons] at hn
    rcases hn with h | h | h | h | h
    · omega
    · omega
    · omega
    · omega
    · exact ih n h

/-- Four digits give back their three bytes, and the shorter groups theirs. -/
theorem decodeDigits_encodeDigits (bytes : List UInt8) :
    decodeDigits (encodeDigits bytes) = some bytes := by
  have hbyte : ∀ (n : ℕ) (a : UInt8), n = a.toNat → UInt8.ofNat n = a := by
    rintro _ a rfl
    exact UInt8.ofNat_toNat
  induction bytes using encodeDigits.induct with
  | case1 => rfl
  | case2 a =>
    rw [encodeDigits, decodeDigits, hbyte _ a (by omega)]
  | case3 a b =>
    have hb := b.toNat_lt
    rw [encodeDigits, decodeDigits, hbyte _ a (by omega), hbyte _ b (by omega)]
  | case4 a b c rest ih =>
    have hb := b.toNat_lt
    have hc := c.toNat_lt
    rw [encodeDigits, decodeDigits, ih, hbyte _ a (by omega), hbyte _ b (by omega),
      hbyte _ c (by omega)]
    rfl

theorem mapM_digitValue {ns : List ℕ} (h : ∀ n ∈ ns, n < 64) :
    (ns.map digit).mapM digitValue = some ns := by
  induction ns with
  | nil => rfl
  | cons n ns ih =>
    have hn := digitValue_digit n (h n (by simp))
    have hrest := ih fun m hm => h m (by simp [hm])
    simp [hn, hrest]

/-- Every byte string is read back from its encoding. -/
theorem decode_encode (bytes : List UInt8) : decode (encode bytes) = some bytes := by
  rw [decode, encode, mapM_digitValue (lt_of_mem_encodeDigits bytes)]
  exact decodeDigits_encodeDigits bytes

/-- An encoding is made of characters of the alphabet. -/
theorem isDigit_of_mem_encode {bytes : List UInt8} {c : Char} (h : c ∈ encode bytes) :
    isDigit c = true := by
  obtain ⟨n, hn, rfl⟩ := List.mem_map.mp h
  rw [isDigit, digitValue_digit n (lt_of_mem_encodeDigits bytes n hn)]
  rfl

/-- A byte takes at most two digits. -/
theorem length_encode_le (bytes : List UInt8) : (encode bytes).length ≤ 2 * bytes.length := by
  rw [encode, List.length_map]
  induction bytes using encodeDigits.induct with
  | case4 a b c rest ih =>
    simp only [encodeDigits, List.length_cons]
    omega
  | _ => simp [encodeDigits]

/-- Only the empty byte string has the empty encoding. -/
theorem encode_eq_nil {bytes : List UInt8} : encode bytes = [] ↔ bytes = [] := by
  rw [encode, List.map_eq_nil_iff]
  constructor
  · intro h
    have hdecode := decodeDigits_encodeDigits bytes
    rw [h] at hdecode
    exact (Option.some.inj hdecode).symm
  · rintro rfl
    rfl

end Base64

import Mathlib.Data.List.Basic

/-!
# UTF-8

`encode` is the encoding of the core library. `decode` never fails: like a non-fatal text decoder
it replaces every maximal ill-formed sequence by U+FFFD. It is a machine over the bytes whose
state is the character it has started to read.
-/

namespace Utf8

def encode (cs : List Char) : List UInt8 := cs.flatMap String.utf8EncodeChar

/-- A character that is being read: the value of its bytes so far, how many are missing, and the
range of the next one. -/
structure Partial where
  value : ℕ
  missing : ℕ
  lower : ℕ := 0x80
  upper : ℕ := 0xbf

def replacement : Char := Char.ofNat 0xfffd

/-- The first byte of a character: the character it is, or the one it starts. -/
def first (b : ℕ) : List Char × Option Partial :=
  if b < 0x80 then ([Char.ofNat b], none)
  else if 0xc2 ≤ b ∧ b ≤ 0xdf then ([], some { value := b % 0x20, missing := 1 })
  else if 0xe0 ≤ b ∧ b ≤ 0xef then
    ([], some { value := b % 0x10, missing := 2, lower := if b = 0xe0 then 0xa0 else 0x80,
                upper := if b = 0xed then 0x9f else 0xbf })
  else if 0xf0 ≤ b ∧ b ≤ 0xf4 then
    ([], some { value := b % 0x08, missing := 3, lower := if b = 0xf0 then 0x90 else 0x80,
                upper := if b = 0xf4 then 0x8f else 0xbf })
  else ([replacement], none)

/-- One byte. A byte that does not continue the character ends it and is read as a first one. -/
def next (state : Option Partial) (b : ℕ) : List Char × Option Partial :=
  match state with
  | none => first b
  | some p =>
    if p.lower ≤ b ∧ b ≤ p.upper then
      if p.missing = 1 then ([Char.ofNat (p.value * 64 + b % 64)], none)
      else ([], some { value := p.value * 64 + b % 64, missing := p.missing - 1 })
    else (replacement :: (first b).1, (first b).2)

def decodeFrom (state : Option Partial) : List UInt8 → List Char
  | [] => if state.isSome then [replacement] else []
  | b :: rest => (next state b.toNat).1 ++ decodeFrom (next state b.toNat).2 rest

def decode (bytes : List UInt8) : List Char := decodeFrom none bytes

theorem encode_append (cs ds : List Char) : encode (cs ++ ds) = encode cs ++ encode ds :=
  List.flatMap_append

/-- A character takes at most four bytes. -/
theorem length_encode_le (cs : List Char) : (encode cs).length ≤ 4 * cs.length := by
  induction cs with
  | nil => exact Nat.le_refl _
  | cons c cs ih =>
    have hchar : (String.utf8EncodeChar c).length ≤ 4 := by
      rw [String.length_utf8EncodeChar]
      exact Char.utf8Size_le_four c
    rw [encode, List.flatMap_cons, List.length_append, List.length_cons]
    rw [encode] at ih
    omega

/-- A byte that continues a character with more to come. -/
theorem next_missing {p : Partial} {b : ℕ} (hlower : p.lower ≤ b) (hupper : b ≤ p.upper)
    (hmissing : p.missing ≠ 1) :
    next (some p) b = ([], some { value := p.value * 64 + b % 64, missing := p.missing - 1 }) := by
  rw [next, if_pos ⟨hlower, hupper⟩, if_neg hmissing]

/-- A byte that completes a character. -/
theorem next_last {p : Partial} {b : ℕ} (hlower : p.lower ≤ b) (hupper : b ≤ p.upper)
    (hmissing : p.missing = 1) :
    next (some p) b = ([Char.ofNat (p.value * 64 + b % 64)], none) := by
  rw [next, if_pos ⟨hlower, hupper⟩, if_pos hmissing]

theorem ofNat_of_eq {c : Char} {n : ℕ} (h : n = c.val.toNat) : Char.ofNat n = c := by
  rw [h]
  exact Char.ofNat_toNat c

/-- The code points of characters skip the surrogates. -/
theorem toNat_range (c : Char) :
    c.val.toNat < 0xd800 ∨ 0xdfff < c.val.toNat ∧ c.val.toNat < 0x110000 := c.valid

/-- The encoding of a character is read back, one case for each length. -/
theorem decodeFrom_encodeChar (c : Char) (rest : List UInt8) :
    decodeFrom none (String.utf8EncodeChar c ++ rest) = c :: decodeFrom none rest := by
  have hrange := toNat_range c
  rw [String.utf8EncodeChar]
  generalize hv : c.val.toNat = v at hrange
  split_ifs with h1 h2 h3
  · have hb : (UInt8.ofNat v).toNat = v := by rw [UInt8.toNat_ofNat']; omega
    rw [List.singleton_append, decodeFrom, hb, next, first, if_pos (by omega),
      ofNat_of_eq hv.symm]
    rfl
  · have hb : (UInt8.ofNat (v / 64 % 0x20 + 0xc0)).toNat = v / 64 + 0xc0 := by
      rw [UInt8.toNat_ofNat']; omega
    have hd : (UInt8.ofNat (v % 0x40 + 0x80)).toNat = v % 64 + 0x80 := by
      rw [UInt8.toNat_ofNat']; omega
    rw [List.cons_append, decodeFrom, hb, next, first, if_neg (by omega), if_pos (by omega),
      List.singleton_append, decodeFrom, hd,
      next_last (show 0x80 ≤ _ by omega) (show _ ≤ 0xbf by omega) rfl, ofNat_of_eq (c := c) (by dsimp only; omega)]
    rfl
  · have hb : (UInt8.ofNat (v / 4096 % 0x10 + 0xe0)).toNat = v / 4096 + 0xe0 := by
      rw [UInt8.toNat_ofNat']; omega
    have hd : (UInt8.ofNat (v / 64 % 0x40 + 0x80)).toNat = v / 64 % 64 + 0x80 := by
      rw [UInt8.toNat_ofNat']; omega
    have he : (UInt8.ofNat (v % 0x40 + 0x80)).toNat = v % 64 + 0x80 := by
      rw [UInt8.toNat_ofNat']; omega
    rw [List.cons_append, decodeFrom, hb, next, first, if_neg (by omega), if_neg (by omega),
      if_pos (by omega), List.cons_append, decodeFrom, hd,
      next_missing (by dsimp only; split <;> omega) (by dsimp only; split <;> omega) (by simp),
      List.singleton_append, decodeFrom, he,
      next_last (show 0x80 ≤ _ by omega) (show _ ≤ 0xbf by omega) rfl, ofNat_of_eq (c := c) (by dsimp only; omega)]
    rfl
  · have hb : (UInt8.ofNat (v / 262144 % 0x08 + 0xf0)).toNat = v / 262144 + 0xf0 := by
      rw [UInt8.toNat_ofNat']; omega
    have hd : (UInt8.ofNat (v / 4096 % 0x40 + 0x80)).toNat = v / 4096 % 64 + 0x80 := by
      rw [UInt8.toNat_ofNat']; omega
    have he : (UInt8.ofNat (v / 64 % 0x40 + 0x80)).toNat = v / 64 % 64 + 0x80 := by
      rw [UInt8.toNat_ofNat']; omega
    have hf : (UInt8.ofNat (v % 0x40 + 0x80)).toNat = v % 64 + 0x80 := by
      rw [UInt8.toNat_ofNat']; omega
    rw [List.cons_append, decodeFrom, hb, next, first, if_neg (by omega), if_neg (by omega),
      if_neg (by omega), if_pos (by omega), List.cons_append, decodeFrom, hd,
      next_missing (by dsimp only; split <;> omega) (by dsimp only; split <;> omega) (by simp),
      List.cons_append, decodeFrom, he,
      next_missing (show 0x80 ≤ _ by omega) (show _ ≤ 0xbf by omega) (by simp),
      List.singleton_append, decodeFrom, hf,
      next_last (show 0x80 ≤ _ by omega) (show _ ≤ 0xbf by omega) rfl, ofNat_of_eq (c := c) (by dsimp only; omega)]
    rfl

/-- Every text is read back from its encoding. -/
theorem decode_encode (cs : List Char) : decode (encode cs) = cs := by
  induction cs with
  | nil => rfl
  | cons c cs ih =>
    rw [decode, encode, List.flatMap_cons, decodeFrom_encodeChar]
    exact congrArg _ ih

/-- A byte below `0x80` is a character of its own. -/
theorem toNat_of_mem_encodeChar {c : Char} {b : UInt8} (h : b ∈ String.utf8EncodeChar c)
    (hb : b.toNat < 0x80) : c.toNat = b.toNat := by
  have hsmall : ∀ n, (UInt8.ofNat n).toNat = n % 256 := fun n => UInt8.toNat_ofNat'
  have hval : c.val.toNat = c.toNat := rfl
  rw [String.utf8EncodeChar] at h
  generalize hv : c.val.toNat = v at h
  have hrange := toNat_range c
  rw [hv] at hrange
  split_ifs at h
  · obtain rfl := List.mem_singleton.mp h
    rw [hsmall]
    omega
  · simp only [List.mem_cons, List.not_mem_nil, or_false] at h
    rcases h with rfl | rfl <;> rw [hsmall] at hb <;> omega
  · simp only [List.mem_cons, List.not_mem_nil, or_false] at h
    rcases h with rfl | rfl | rfl <;> rw [hsmall] at hb <;> omega
  · simp only [List.mem_cons, List.not_mem_nil, or_false] at h
    rcases h with rfl | rfl | rfl | rfl <;> rw [hsmall] at hb <;> omega

theorem notMem_encode {c : Char} {cs : List Char} (hc : c.toNat < 0x80) (h : c ∉ cs) :
    UInt8.ofNat c.toNat ∉ encode cs := by
  intro hmem
  obtain ⟨d, hd, hbyte⟩ := List.mem_flatMap.mp hmem
  have hb : (UInt8.ofNat c.toNat).toNat = c.toNat := by
    rw [UInt8.toNat_ofNat']
    omega
  have hsame := toNat_of_mem_encodeChar hbyte (by omega)
  rw [hb] at hsame
  rw [Char.toNat_inj.mp hsame] at hd
  exact h hd

/-- A text is determined by its encoding. -/
theorem encode_injective : Function.Injective encode := by
  intro cs ds h
  rw [← decode_encode cs, h, decode_encode]

end Utf8

import Mathlib.Data.List.Prime
import Mathlib.Data.Nat.Bits
import Mathlib.NumberTheory.LucasPrimality

/-!
# Binary methods

Powers and multiples that are computed along the bits of the exponent: a fold over the bits from
the highest one down squares and multiplies (`foldr_bits`), one from the lowest up keeps what is
left of the exponent in its invariant (`foldl_bits`).

`powMod` is the power of a residue; it makes Lucas's test of primality one that the kernel can
evaluate (`Certificate`).
-/

namespace BinaryMethod

variable {α : Type*}

/-- What holds of a fold over the bits from the highest one down. -/
theorem foldr_bits {R : ℕ → α → Prop} {step : Bool → α → α} {a : α} (hzero : R 0 a)
    (hstep : ∀ b n x, R n x → R (Nat.bit b n) (step b x)) (n : ℕ) :
    R n (n.bits.foldr step a) := by
  induction n using Nat.binaryRec' with
  | zero => simpa using hzero
  | bit b n hb ih =>
    rw [Nat.bits_append_bit n b hb, List.foldr_cons]
    exact hstep b n _ ih

/-- What holds of a fold over the bits from the lowest one up, with what is left of the number. -/
theorem foldl_bits {I : ℕ → α → Prop} {step : α → Bool → α}
    (hstep : ∀ b n s, I (Nat.bit b n) s → I n (step s b)) {n : ℕ} {s : α} (h : I n s) :
    I 0 (n.bits.foldl step s) := by
  induction n using Nat.binaryRec' generalizing s with
  | zero => simpa using h
  | bit b n hb ih =>
    rw [Nat.bits_append_bit n b hb, List.foldl_cons]
    exact ih (hstep b n s h)

/-! ### Multiples -/

/-- Double and add: the multiple of an element that a representation of sums computes. -/
theorem double_and_add {M : Type*} [AddCommMonoid M] {Rep : α → M → Prop} {add : α → α → α}
    (hadd : ∀ {p q P Q}, Rep p P → Rep q Q → Rep (add p q) (P + Q)) {zero p : α} {P : M}
    (hzero : Rep zero 0) (hp : Rep p P) (n : ℕ) :
    Rep (n.bits.foldl (fun (s : α × α) bit =>
      (if bit then add s.1 s.2 else s.1, add s.2 s.2)) (zero, p)).1 (n • P) := by
  -- what was added, and what is left to add, make up the multiple
  have hfold := @foldl_bits (α × α)
    (fun k s => ∃ A D : M, Rep s.1 A ∧ Rep s.2 D ∧ A + k • D = n • P)
    (fun s bit => (if bit then add s.1 s.2 else s.1, add s.2 s.2))
    (fun b k s => by
      rintro ⟨A, D, hA, hD, hsum⟩
      cases b with
      | false =>
        refine ⟨A, D + D, hA, hadd hD hD, ?_⟩
        rw [← hsum, Nat.bit_false_apply, mul_comm, mul_nsmul, two_nsmul, nsmul_add]
      | true =>
        refine ⟨A + D, D + D, hadd hA hD, hadd hD hD, ?_⟩
        rw [← hsum, Nat.bit_true_apply, add_nsmul, one_nsmul, mul_comm, mul_nsmul, two_nsmul,
          nsmul_add, add_assoc, add_comm D])
    n (zero, p) ⟨0, P, hzero, hp, zero_add _⟩
  obtain ⟨A, D, hA, -, hsum⟩ := hfold
  rw [zero_nsmul, add_zero] at hsum
  rwa [← hsum]

/-! ### Powers of residues -/

/-- `a ^ n % m`. -/
def powMod (m a n : ℕ) : ℕ :=
  n.bits.foldr (fun bit r => if bit then r * r % m * a % m else r * r % m) (1 % m)

theorem powMod_eq (m a n : ℕ) : powMod m a n = a ^ n % m := by
  refine foldr_bits (R := fun n r => r = a ^ n % m) (by rw [pow_zero]) (fun b n r hr => ?_) n
  have hsq : r * r % m = a ^ (2 * n) % m := by
    rw [hr, ← Nat.mul_mod, ← pow_add, two_mul]
  cases b with
  | false => simpa using hsq
  | true =>
    rw [if_pos rfl, hsq, Nat.bit_true_apply, pow_succ, Nat.mod_mul_mod]

theorem natCast_pow_eq_one_iff {m a n : ℕ} (hm : 1 < m) :
    (a : ZMod m) ^ n = 1 ↔ powMod m a n = 1 := by
  rw [powMod_eq, ← Nat.cast_pow, ← Nat.cast_one, ZMod.natCast_eq_natCast_iff', Nat.mod_eq_of_lt hm]

/-! ### Lucas's test -/

/-- A number with a primitive root and the prime factors of its predecessor. -/
structure Certificate where
  p : ℕ
  root : ℕ
  factors : List ℕ

/-- Lucas's test. -/
def Certificate.check (c : Certificate) : Bool :=
  1 < c.p && c.factors.prod == c.p - 1 && powMod c.p c.root (c.p - 1) == 1
    && c.factors.all fun q => powMod c.p c.root ((c.p - 1) / q) != 1

theorem Certificate.prime (c : Certificate) (hfactors : ∀ q ∈ c.factors, q.Prime)
    (h : c.check = true) : c.p.Prime := by
  simp only [check, Bool.and_eq_true, decide_eq_true_eq, beq_iff_eq, List.all_eq_true,
    bne_iff_ne] at h
  obtain ⟨⟨⟨hp, hprod⟩, hroot⟩, hpart⟩ := h
  refine lucas_primality c.p c.root ((natCast_pow_eq_one_iff hp).mpr hroot) fun q hq hdvd => ?_
  have hmem : q ∈ c.factors :=
    mem_list_primes_of_dvd_prod hq.prime (fun r hr => (hfactors r hr).prime) (hprod ▸ hdvd)
  exact fun hone => hpart q hmem ((natCast_pow_eq_one_iff hp).mp hone)

end BinaryMethod

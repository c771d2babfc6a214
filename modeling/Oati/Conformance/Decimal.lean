import Mathlib.Data.Sign.Basic
import Oati.Go.Arithmetic
import Oati.Library.DigitOrder

/-!
# One decimal arithmetic

Comparison, sum and product of the decimals of the grammar `(0|[1-9][0-9]*)(.[0-9]+)?` are exact,
and the evaluators of the TypeScript SDK, the Go SDK and the CLI have the same ones.

* `denoted`: the rational that a text of the grammar denotes, part by part.
* `fractionDigits`: how many digits follow its point.
* `decimal_arithmetic_exact`: the operations are those of the rationals, to the character.
-/

namespace Oati

open Numeral
open TypeScript (isDecimal Denotes)

/-- The rational that a text of the grammar denotes. -/
def denoted (s : String) : ℚ :=
  match s.toList.splitOn '.' with
  | [whole] => Nat.ofDigitChars 10 whole 0
  | [whole, fraction] =>
    Nat.ofDigitChars 10 whole 0 + Nat.ofDigitChars 10 fraction 0 / 10 ^ fraction.length
  | _ => 0

/-- The number of digits after the point. -/
def fractionDigits (s : String) : ℕ :=
  match s.toList.splitOn '.' with
  | [_, fraction] => fraction.length
  | _ => 0

/-- What a text is parsed to. -/
theorem parseDecimal_denoted {s : String} {d : FixedPoint} (h : TypeScript.parseDecimal s = .ok d) :
    d.value = denoted s ∧ d.scale = fractionDigits s := by
  have hdec : isDecimal s = true := (TypeScript.parseDecimal_ok h).1
  rw [TypeScript.parseDecimal, if_pos hdec] at h
  rw [isDecimal] at hdec
  rw [denoted, fractionDigits]
  generalize s.toList.splitOn '.' = parts at h hdec
  rcases parts with _ | ⟨whole, _ | ⟨fraction, _ | ⟨_, _⟩⟩⟩
  · cases hdec
  · obtain rfl := Except.ok.inj h
    exact ⟨by simp [FixedPoint.value], rfl⟩
  · obtain rfl := Except.ok.inj h
    exact ⟨value_append_digits whole fraction, rfl⟩
  · cases hdec

theorem denotes_denoted {s : String} (h : isDecimal s = true) : Denotes s (denoted s) := by
  obtain ⟨d, hd⟩ := TypeScript.exists_parseDecimal h
  exact ⟨d, hd, (parseDecimal_denoted hd).1⟩

theorem Denotes.eq_denoted {s : String} {q : ℚ} (h : Denotes s q) : q = denoted s := by
  obtain ⟨d, hd, rfl⟩ := h
  exact (parseDecimal_denoted hd).1

/-- The texts that the operations write. -/
theorem fractionDigits_formatDecimal (n scale : ℕ) :
    fractionDigits (TypeScript.formatDecimal n scale) = scale :=
  (parseDecimal_denoted (TypeScript.parseDecimal_formatDecimal n scale)).2.symm

theorem fractionDigits_addDecimal {a b sum : String} (h : TypeScript.addDecimal a b = .ok sum) :
    fractionDigits sum = max (fractionDigits a) (fractionDigits b) := by
  obtain ⟨p, q, ⟨x, hx, -⟩, ⟨y, hy, -⟩, -⟩ := TypeScript.addDecimal_denotes h
  simp only [TypeScript.addDecimal, hx, hy, bind, Except.bind, pure, Except.pure,
    Except.ok.injEq] at h
  obtain ⟨n, hn⟩ := Int.eq_ofNat_of_zero_le (FixedPoint.align_add_nonneg
    (TypeScript.parseDecimal_ok hx).2 (TypeScript.parseDecimal_ok hy).2)
  rw [← h, hn, ← (parseDecimal_denoted hx).2, ← (parseDecimal_denoted hy).2]
  exact fractionDigits_formatDecimal n _

theorem fractionDigits_multiplyDecimal {a product : String} {n : ℕ}
    (h : TypeScript.multiplyDecimal a n = .ok product) :
    fractionDigits product = fractionDigits a := by
  obtain ⟨p, ⟨x, hx, -⟩, -⟩ := TypeScript.multiplyDecimal_natCast h
  simp only [TypeScript.multiplyDecimal, hx, bind, Except.bind, TypeScript.toBigInt,
    Rat.den_natCast, if_true, Rat.num_natCast, pure, Except.pure, Except.ok.injEq] at h
  obtain ⟨k, hk⟩ := Int.eq_ofNat_of_zero_le
    (mul_nonneg (TypeScript.parseDecimal_ok hx).2 (Int.natCast_nonneg n))
  rw [← h, hk, ← (parseDecimal_denoted hx).2]
  exact fractionDigits_formatDecimal k _

/-- The sign of a difference is the order. -/
theorem sign_sub_eq (p q : ℚ) :
    ((SignType.sign (p - q) : SignType) : ℤ) = if p = q then 0 else if q < p then 1 else -1 := by
  rcases lt_trichotomy p q with hlt | rfl | hgt
  · rw [sign_neg (sub_neg.mpr hlt), if_neg hlt.ne, if_neg hlt.asymm]
    rfl
  · simp
  · rw [sign_pos (sub_pos.mpr hgt), if_neg hgt.ne', if_pos hgt]
    rfl

theorem decimal_arithmetic_exact {a b : String} (ha : isDecimal a = true) (hb : isDecimal b = true)
    (n : ℕ) : ∃ sum product,
    (TypeScript.compareDecimal a b = .ok (SignType.sign (denoted a - denoted b) : SignType) ∧
      TypeScript.addDecimal a b = .ok sum ∧ TypeScript.multiplyDecimal a n = .ok product) ∧
    (isDecimal sum = true ∧ denoted sum = denoted a + denoted b ∧
      fractionDigits sum = max (fractionDigits a) (fractionDigits b)) ∧
    (isDecimal product = true ∧ denoted product = denoted a * n ∧
      fractionDigits product = fractionDigits a) ∧
    (Go.decimalCompare a b = .ok (SignType.sign (denoted a - denoted b) : SignType) ∧
      Go.Sdk.decimalAdd a b = .ok sum ∧ Go.Sdk.decimalMultiply a n = .ok product ∧
      Go.Cli.decimalAdd a b = .ok sum ∧ Go.Cli.decimalMultiply a n = .ok product) := by
  have hsign := sign_sub_eq (denoted a) (denoted b)
  have hcompare : TypeScript.compareDecimal a b
      = .ok (SignType.sign (denoted a - denoted b) : SignType) :=
    TypeScript.compareDecimal_eq_ok.mpr ⟨_, _, denotes_denoted ha, denotes_denoted hb, hsign⟩
  obtain ⟨sum, hsum⟩ := TypeScript.exists_addDecimal (denotes_denoted ha) (denotes_denoted hb)
  obtain ⟨product, hproduct⟩ := TypeScript.exists_multiplyDecimal ha n
  obtain ⟨p, q, hp, hq, hdenotes⟩ := TypeScript.addDecimal_denotes hsum
  obtain ⟨r, hr, hdenotes'⟩ := TypeScript.multiplyDecimal_natCast hproduct
  have hp := Denotes.eq_denoted hp
  have hq := Denotes.eq_denoted hq
  have hr := Denotes.eq_denoted hr
  subst hp hq hr
  refine ⟨sum, product, ⟨hcompare, hsum, hproduct⟩, ?_, ?_, Go.decimalCompare_of_ok hcompare, ?_⟩
  · exact ⟨hdenotes.isDecimal, (Denotes.eq_denoted hdenotes).symm, fractionDigits_addDecimal hsum⟩
  · exact ⟨hdenotes'.isDecimal, (Denotes.eq_denoted hdenotes').symm,
      fractionDigits_multiplyDecimal hproduct⟩
  · rw [Go.Sdk.decimalAdd_eq, Go.Sdk.decimalMultiply_eq, Go.Cli.decimalAdd_eq,
      Go.Cli.decimalMultiply_eq]
    have hadd := Go.decimalAdd_of_ok hsum
    have hmultiply : Go.decimalMultiply a n = .ok product :=
      Go.decimalMultiply_of_ok (n := n) (by exact_mod_cast hproduct)
    exact ⟨hadd, hmultiply, hadd, hmultiply⟩

theorem decimal_arithmetic_exact_price : ∃ sum product,
    (TypeScript.compareDecimal "1.50" "0.025"
        = .ok (SignType.sign (denoted "1.50" - denoted "0.025") : SignType) ∧
      TypeScript.addDecimal "1.50" "0.025" = .ok sum ∧
      TypeScript.multiplyDecimal "1.50" (3 : ℕ) = .ok product) ∧
    (isDecimal sum = true ∧ denoted sum = denoted "1.50" + denoted "0.025") ∧
    Go.Sdk.decimalAdd "1.50" "0.025" = .ok sum ∧ Go.Cli.decimalAdd "1.50" "0.025" = .ok sum := by
  obtain ⟨sum, product, hts, ⟨hsum, hdenoted, -⟩, -, -, hsdk, -, hcli, -⟩ :=
    decimal_arithmetic_exact (a := "1.50") (b := "0.025") (by decide) (by decide) 3
  exact ⟨sum, product, hts, ⟨hsum, hdenoted⟩, hsdk, hcli⟩

end Oati

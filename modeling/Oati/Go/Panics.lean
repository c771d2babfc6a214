import Oati.Go.EvaluatorSpec
import Oati.Library.Returns

/-!
# When the Go evaluators panic

Decimal arithmetic panics on a text that does not parse, and the evaluators read decimals from
free-form limits and extensions that no schema describes. Each check gets one lemma that names
what has to parse for it to return, on requests whose other decimals satisfy their schemas.

* `Stops`: when narrowing two free-form objects returns.
* `ValidRequest`: what the schemas say of the decimals and quantities of a request.
* `Settled`: every decimal of a limit or a term that is compared parses.
* `evaluate_returns_iff`: on a valid request, each program returns a result or an error exactly
  then.
-/

namespace Oati.Go

open JsonText (Literal)
open Numeral
open Except (Returns returns_ok returns_pure not_returns_error ok_bind returns_bind_iff
  returns_bind_pure returns_map)
open TypeScript (Reasons isDecimal denotes_zero)

variable {runtime : Runtime} {program : Program}

/-! ### Conditions and decimals -/

/-- The second operand of `||` is only evaluated when the first is false. -/
theorem returns_orElse {a b : Except Fault Bool} :
    Returns (orElse a b) ↔ Returns a ∧ (a = .ok false → Returns b) := by
  rcases a with e | _ | _ <;> simp [orElse, bind, Except.bind]

/-- The second operand of `&&` is only evaluated when the first is true. -/
theorem returns_andAlso {a b : Except Fault Bool} :
    Returns (andAlso a b) ↔ Returns a ∧ (a = .ok true → Returns b) := by
  rcases a with e | _ | _ <;> simp [andAlso, bind, Except.bind]

theorem returns_parseDecimal {v : String} : Returns (parseDecimal v) ↔ Parses v := by
  constructor
  · rintro ⟨d, hd⟩
    exact ⟨_, d, hd, rfl⟩
  · rintro ⟨_, d, hd, -⟩
    exact ⟨d, hd⟩

@[simp] theorem returns_decimalCompare {a b : String} :
    Returns (decimalCompare a b) ↔ Parses a ∧ Parses b := by
  unfold decimalCompare
  rw [returns_bind_iff fun _ _ => returns_bind_pure, returns_parseDecimal, returns_parseDecimal]

@[simp] theorem returns_exceeds {a b : String} :
    Returns (exceeds a b) ↔ Parses a ∧ Parses b := by
  unfold exceeds
  rw [returns_bind_pure, returns_decimalCompare]

@[simp] theorem returns_decimalAdd {a b : String} :
    Returns (decimalAdd a b) ↔ Parses a ∧ Parses b := by
  unfold decimalAdd
  rw [returns_bind_iff fun _ _ => returns_bind_pure, returns_parseDecimal, returns_parseDecimal]

@[simp] theorem returns_decimalMultiply {v : String} {n : ℤ} :
    Returns (decimalMultiply v n) ↔ Parses v := by
  unfold decimalMultiply
  rw [returns_bind_pure, returns_parseDecimal]

/-- Decimals of the grammar have a sum in the grammar. -/
theorem isDecimal_of_decimalAdd {a b sum : String} (ha : isDecimal a = true)
    (hb : isDecimal b = true) (h : decimalAdd a b = .ok sum) : isDecimal sum = true := by
  obtain ⟨p, hp, -⟩ := TypeScript.exists_denotes ha
  obtain ⟨q, hq, -⟩ := TypeScript.exists_denotes hb
  obtain ⟨sum', hsum⟩ := TypeScript.exists_addDecimal hp hq
  obtain rfl : sum' = sum := by
    have hgo := decimalAdd_of_ok hsum
    rw [h] at hgo
    exact (Except.ok.inj hgo).symm
  obtain ⟨_, _, -, -, hdenotes⟩ := TypeScript.addDecimal_denotes hsum
  exact hdenotes.isDecimal

/-- So does a product with a natural number. -/
theorem parses_of_decimalMultiply {v product : String} {n : ℤ} (hv : isDecimal v = true)
    (hn : 0 ≤ n) (h : decimalMultiply v n = .ok product) : Parses product := by
  obtain ⟨k, rfl⟩ := Int.eq_ofNat_of_zero_le hn
  obtain ⟨p, ⟨d, hd, -⟩, -⟩ := TypeScript.exists_denotes hv
  have hproduct : TypeScript.multiplyDecimal v (k : ℤ) = .ok product := by
    simp only [decimalMultiply, parseDecimal_of_ok hd, bind, Except.bind, pure, Except.pure,
      Except.ok.injEq] at h
    simp [TypeScript.multiplyDecimal, hd, TypeScript.toBigInt, bind, Except.bind, pure,
      Except.pure, h]
  rw [Int.cast_natCast] at hproduct
  obtain ⟨_, -, hdenotes⟩ := TypeScript.multiplyDecimal_natCast hproduct
  exact parses_of_isDecimal hdenotes.isDecimal

/-- A sum of two decimals that is compared with a limit. -/
theorem returns_sumExceeds {a b limit : String} (ha : isDecimal a = true)
    (hb : isDecimal b = true) :
    Returns (decimalAdd a b >>= fun sum => exceeds sum limit) ↔ Parses limit := by
  rw [returns_bind_iff fun sum hsum => returns_exceeds.trans (and_iff_right
    (parses_of_isDecimal (isDecimal_of_decimalAdd ha hb hsum))), returns_decimalAdd]
  exact and_iff_right ⟨parses_of_isDecimal ha, parses_of_isDecimal hb⟩

/-! ### Quantities -/

theorem isDecimal_itoa {n : ℤ} (h : 0 ≤ n) : isDecimal (Program.itoa n) = true := by
  obtain ⟨k, rfl⟩ := Int.eq_ofNat_of_zero_le h
  have hdigits : Program.itoa k = Nat.repr k := Nat.repr_eq_ofList_toDigits.symm
  rw [hdigits]
  exact (TypeScript.denotes_repr k).isDecimal

/-- The integer of a positive literal is not negative, in both programs. -/
theorem integer_nonneg {n : Literal} (h : 1 ≤ n.value) : 0 ≤ program.integer (some (.num n)) 0 := by
  have hparsed : ∀ k, setString n.text.toList = some k → 1 ≤ k := by
    intro k hk
    have hvalue := value_of_reads_literal (reads_of_setString hk)
    rw [← hvalue] at h
    exact_mod_cast h
  cases hset : setString n.text.toList with
  | none => cases program <;> simp [Program.integer, integer, intValue, hset]
  | some k =>
    have hk := hparsed k hset
    cases program with
    | sdk =>
      simp only [Program.integer, integer, hset, Option.map_some, Option.getD_some, maxInt]
      omega
    | cli =>
      simp only [Program.integer, intValue, hset, Option.filter_some]
      split_ifs
      · simpa using (by omega : 0 ≤ k)
      · simp

/-- A positive literal that parses is a decimal of the grammar: it has neither a sign nor an
exponent. -/
theorem isDecimal_of_parses_literal {n : Literal} (hn : 1 ≤ n.value) (h : Parses n.text) :
    isDecimal n.text = true := by
  unfold isDecimal
  rcases n.plain_or_exponent with ⟨whole, hw, ⟨htext, -⟩ | ⟨-, hvalue⟩⟩ |
    ⟨whole, fraction, hw, hf, ⟨htext, -⟩ | ⟨-, hvalue⟩⟩ | hexp
  · have hdot := dot_notMem_of_isDigit (isDigit_of_isWhole hw)
    rw [htext, List.splitOn_eq_singleton hdot]
    exact hw
  · have hpos : (0 : ℚ) ≤ Nat.ofDigitChars 10 whole 0 := Nat.cast_nonneg _
    linarith
  · rw [htext, TypeScript.splitOn_append_dot (isDigit_of_isWhole hw) (isDigit_of_isFraction hf)]
    simp [hw, hf]
  · have hpos : 0 ≤ (⟨Nat.ofDigitChars 10 (whole ++ fraction) 0, fraction.length⟩ :
        FixedPoint).value := FixedPoint.value_nonneg (Int.natCast_nonneg _)
    linarith
  · exact absurd h (not_parses_of_hasExponent hexp)

/-! ### Narrowing -/

section Stops

variable (runtime : Runtime) (program : Program)

/-- Comparing with a number returns. -/
def NumberStops (x : Value) (t : Literal) : Prop :=
  match program with
  | .sdk => Parses (sprint x) ∧ Parses t.text
  | .cli => True

/-- Comparing with a string returns. -/
def TextStops (x : Value) (t : String) : Prop :=
  match program with
  | .sdk => decimalValid t = true → Parses (str (some x))
  | .cli => isDecimalString runtime t = true →
    isDecimalString runtime (numberString (some x)) = true →
      Parses (numberString (some x)) ∧ Parses t

mutual

/-- Comparing an entry of the child returns. -/
def Stops (x : Value) : Value → Prop
  | .num t => NumberStops program x t
  | .str t => TextStops runtime program x t
  | .arr _ => True
  | .obj members => ∀ c, x = .obj c → StopsMembers c members
  | .bool _ => True
  | .null => True
termination_by structural v => v

/-- Every comparison returns up to the first entry that is refused. -/
def StopsMembers (c : Object) : List (String × Value) → Prop
  | [] => True
  | (k, v) :: rest => ∀ x, c.lookup k = some x →
    Stops x v ∧ (Within runtime program x v → StopsMembers c rest)
termination_by structural entries => entries

end

end Stops

theorem returns_number {x : Value} {t : Literal} :
    Returns ((program.comparison runtime).number x t) ↔ NumberStops program x t := by
  cases program with
  | sdk => exact returns_map.trans returns_exceeds
  | cli => exact iff_of_true (returns_ok _) trivial

theorem returns_text {x : Value} {t : String} :
    Returns ((program.comparison runtime).text x t) ↔ TextStops runtime program x t := by
  cases program with
  | sdk =>
    simp only [Program.comparison, sdkComparison, TextStops]
    split_ifs with hvalid
    · have ht := parses_of_decimalValid hvalid
      simp [hvalid, ht]
    · simp [hvalid]
  | cli =>
    simp only [Program.comparison, cliComparison, TextStops]
    split_ifs with ht hx
    · simp [ht, hx]
    · simp [hx]
    · simp [ht]

theorem returns_narrowEntries_cons {comparison : Comparison} {c : Object} {k : String} {v : Value}
    {rest : List (String × Value)} :
    Returns (narrowEntries comparison c ((k, v) :: rest)) ↔ ∀ x, c.lookup k = some x →
      Returns (narrowEntry comparison x v) ∧
        (narrowEntry comparison x v = .ok true → Returns (narrowEntries comparison c rest)) := by
  cases hlookup : c.lookup k with
  | none => simp [narrowEntries, hlookup]
  | some x =>
    simp only [narrowEntries, hlookup, Option.some.injEq, forall_eq']
    rcases narrowEntry comparison x v with e | _ | _ <;> simp [bind, Except.bind]

/-- An entry is compared without a panic exactly if it stops. -/
theorem returns_narrowEntry {x v : Value} :
    Returns (narrowEntry (program.comparison runtime) x v) ↔ Stops runtime program x v := by
  induction v using Json.induction generalizing x with
  | null => simp [narrowEntry, Stops]
  | bool b => simp [narrowEntry, Stops]
  | num t => exact returns_number
  | str t => exact returns_text
  | arr items _ => simp [narrowEntry, Stops]
  | obj members ih =>
    have hmembers : ∀ c, Returns (narrowEntries (program.comparison runtime) c members) ↔
        StopsMembers runtime program c members := by
      intro c
      induction members with
      | nil => simp [narrowEntries, StopsMembers]
      | cons entry rest ihrest =>
        obtain ⟨hentry, hrest⟩ := List.forall_mem_cons.mp ih
        rw [returns_narrowEntries_cons, StopsMembers, ihrest hrest]
        simp only [hentry, narrowEntry_eq_true]
    cases x <;> simp [narrowEntry, Stops, hmembers]

/-- Narrowing two maps that may be nil. -/
def NarrowStops (runtime : Runtime) (program : Program) (child parent : Option Object) : Prop :=
  ∀ c, child = some c → ∀ p, parent = some p → StopsMembers runtime program c p

theorem returns_narrowWith {child parent : Option Object} :
    Returns (narrowWith (program.comparison runtime) child parent) ↔
      NarrowStops runtime program child parent := by
  have hobj : ∀ c p, Returns (narrowEntries (program.comparison runtime) c p) ↔
      StopsMembers runtime program c p := by
    intro c p
    have h := @returns_narrowEntry runtime program (.obj c) (.obj p)
    simpa [narrowEntry, Stops] using h
  cases parent <;> cases child <;> simp [narrowWith, NarrowStops, hobj]

/-! ### Delegation -/

section Terms

variable (runtime : Runtime) (program : Program)

/-- Comparing a decimal of the child's terms with the parent's returns. -/
def DecimalStops (child parent : Option Value) : Prop :=
  match program with
  | .sdk => Parses (str child) ∧ Parses (str parent)
  | .cli => isDecimalString runtime (numberString child) = true →
    isDecimalString runtime (numberString parent) = true →
      Parses (numberString child) ∧ Parses (numberString parent)

/-- The decimals of the Commerce terms that are compared parse. -/
def CommerceStops (child parent : Option Object) : Prop :=
  ∀ c, child = some c → ∀ p, parent = some p →
    sameFields c p ["merchant_organisation_id", "service_id", "offer_id", "currency",
      "billing_model", "terms_digest"] = true →
    DecimalStops runtime program (c.lookup "max_unit_price") (p.lookup "max_unit_price") ∧
      (program.decimalWidened runtime (c.lookup "max_unit_price") (p.lookup "max_unit_price")
          = .ok false →
        DecimalStops runtime program (c.lookup "max_total") (p.lookup "max_total"))

/-- The decimals of the RWA terms that are compared parse. -/
def RwaStops (child parent : Option Object) : Prop :=
  ∀ c, child = some c → ∀ p, parent = some p →
    sameFields c p ["asset_id", "state_claim_id", "network", "token_contract", "operation", "unit"]
      = true →
    DecimalStops runtime program (c.lookup "max_quantity") (p.lookup "max_quantity")

/-- What `checkChildMandate` compares parses. -/
structure ParentSettled (child parent : Object) : Prop where
  limits : NarrowStops runtime program (object (child.lookup "limits"))
    (object (parent.lookup "limits"))
  dataUse : NarrowStops runtime program (object (child.lookup "data_use"))
    (object (parent.lookup "data_use"))
  commerce : str (child.lookup "profile") = str (parent.lookup "profile") →
    CommerceStops runtime program (terms child "commerce") (terms parent "commerce")
  rwa : str (child.lookup "profile") = str (parent.lookup "profile") →
    RwaStops runtime program (terms child "rwa") (terms parent "rwa")

end Terms

theorem returns_decimalWidened {child parent : Option Value} :
    Returns (program.decimalWidened runtime child parent) ↔
      DecimalStops runtime program child parent := by
  cases program with
  | sdk => exact returns_exceeds
  | cli =>
    simp only [Program.decimalWidened, Program.decimalAtMost, DecimalStops, returns_map,
      Bool.and_eq_true]
    split_ifs with h
    · simp [h.1, h.2]
    · simp only [returns_ok, true_iff]
      exact fun hc hp => absurd ⟨hc, hp⟩ h

theorem returns_commerceWidened {child parent : Option Object} :
    Returns (commerceWidened runtime program child parent) ↔
      CommerceStops runtime program child parent := by
  cases parent with
  | none => simp [commerceWidened, CommerceStops]
  | some p =>
    cases child with
    | none => simp [commerceWidened, CommerceStops]
    | some c =>
      simp only [commerceWidened, CommerceStops, returns_orElse, returns_decimalWidened,
        returns_ok, true_and, implies_true, and_true, Except.ok.injEq, Bool.not_eq_false',
        Option.some.injEq, forall_eq']

theorem returns_rwaWidened {child parent : Option Object} :
    Returns (rwaWidened runtime program child parent) ↔ RwaStops runtime program child parent := by
  cases parent with
  | none => simp [rwaWidened, RwaStops]
  | some p =>
    cases child with
    | none => simp [rwaWidened, RwaStops]
    | some c =>
      simp only [rwaWidened, RwaStops, returns_orElse, returns_decimalWidened,
        returns_ok, true_and, implies_true, and_true, Except.ok.injEq, Bool.not_eq_false',
        Option.some.injEq, forall_eq']

theorem returns_checkProfileSubset {child parent : Object} {reasons : Reasons} :
    Returns (checkProfileSubset runtime program child parent reasons) ↔
      (str (child.lookup "profile") = str (parent.lookup "profile") →
        CommerceStops runtime program (terms child "commerce") (terms parent "commerce") ∧
          RwaStops runtime program (terms child "rwa") (terms parent "rwa")) := by
  unfold checkProfileSubset
  split_ifs with h
  · simp [h]
  · rw [returns_bind_iff fun _ _ => returns_bind_pure, returns_commerceWidened,
      returns_rwaWidened, not_not.mp h]
    simp

theorem returns_checkChildMandate {child parent : Object} {depth now : ℤ} {reasons : Reasons} :
    Returns (checkChildMandate runtime program child parent depth now reasons) ↔
      ParentSettled runtime program child parent := by
  unfold checkChildMandate
  rw [returns_bind_iff fun _ _ => returns_bind_iff fun _ _ => returns_checkProfileSubset,
    returns_narrowWith, returns_narrowWith]
  constructor
  · rintro ⟨hlimits, hdataUse, hprofile⟩
    exact ⟨hlimits, hdataUse, fun h => (hprofile h).1, fun h => (hprofile h).2⟩
  · intro h
    exact ⟨h.limits, h.dataUse, fun heq => ⟨h.commerce heq, h.rwa heq⟩⟩

theorem returns_checkMandate {request mandate envelope : Object} {now : ℤ} :
    Returns (checkMandate runtime program request mandate envelope now) ↔
      ∀ parent, object (request.lookup "parent_mandate") = some parent →
        ParentSettled runtime program mandate parent := by
  unfold checkMandate
  cases object (request.lookup "parent_mandate") with
  | none => simp
  | some parent => simp [returns_checkChildMandate]

/-! ### What the schemas say -/

/-- A member that is a decimal string. -/
def DecimalMember (v : Option Value) : Prop := ∃ s, v = some (.str s) ∧ isDecimal s = true

/-- A member that is absent or a decimal string. -/
def OptionalDecimal (v : Option Value) : Prop := v = none ∨ DecimalMember v

/-- The numbers of a Commerce context. -/
structure CommerceContextValid (context : Object) : Prop where
  quantity : ∃ n : Literal, context.lookup "quantity" = some (.num n) ∧ 1 ≤ n.value
  unitPrice : DecimalMember (context.lookup "unit_price")
  total : DecimalMember (context.lookup "total_amount")

/-- The decimals of an RWA context. -/
structure RwaContextValid (context : Object) : Prop where
  quantity : DecimalMember (context.lookup "quantity")
  reserve : DecimalMember (context.lookup "reserve")
  currentSupply : DecimalMember (context.lookup "current_supply")
  maximumSupply : OptionalDecimal (context.lookup "maximum_supply")

/-- What the schemas say of the members of a request that the evaluators do arithmetic with. -/
structure ValidRequest (request : Object) : Prop where
  usage : ∀ key ∈ ["amount", "quantity", "minted_supply"],
    OptionalDecimal (index (object (request.lookup "usage")) key)
  consumption : ∀ key ∈ ["amount", "quantity"],
    OptionalDecimal (index (object (request.lookup "consumption")) key)
  commerce : ∀ context, object (request.lookup "commerce") = some context →
    CommerceContextValid context
  rwa : ∀ context, object (request.lookup "rwa") = some context → RwaContextValid context

theorem DecimalMember.isDecimal {v : Option Value} (h : DecimalMember v) :
    isDecimal (str v) = true := by
  obtain ⟨s, rfl, hs⟩ := h
  exact hs

theorem OptionalDecimal.isDecimal_fallback {v : Option Value} (h : OptionalDecimal v) :
    isDecimal (fallback (str v) "0") = true := by
  rcases h with rfl | h
  · exact denotes_zero.isDecimal
  · have hne : str v ≠ "" := fun hempty => by
      have hdecimal := h.isDecimal
      rw [hempty] at hdecimal
      exact absurd hdecimal (by decide)
    rw [fallback, if_neg hne]
    exact h.isDecimal

theorem OptionalDecimal.isDecimal_getD {v : Option Value} (h : OptionalDecimal v) :
    isDecimal (str (some (v.getD (.str "0")))) = true := by
  rcases h with rfl | h
  · exact denotes_zero.isDecimal
  · obtain ⟨s, rfl, hs⟩ := h
    exact hs

/-! ### Accounting -/

/-- The quantity that a Commerce context consumes parses. It always does in the SDK; in the CLI
it is the number as it is written, which may have an exponent. -/
def QuantityParses (program : Program) (request : Object) : Prop :=
  ∀ context, object (request.lookup "commerce") = some context →
    Parses (program.commerceQuantity (context.lookup "quantity"))

theorem normalizeUsage_isDecimal (program : Program) {request : Object} (h : ValidRequest request) :
    isDecimal (normalizeUsage program (object (request.lookup "usage"))).amount = true ∧
      isDecimal (normalizeUsage program (object (request.lookup "usage"))).quantity = true ∧
      isDecimal (normalizeUsage program (object (request.lookup "usage"))).mintedSupply = true :=
  ⟨(h.usage "amount" (by simp)).isDecimal_fallback,
    (h.usage "quantity" (by simp)).isDecimal_fallback,
    (h.usage "minted_supply" (by simp)).isDecimal_fallback⟩

theorem effectiveAmount_isDecimal (program : Program) (mandate : Object) {request : Object}
    (h : ValidRequest request) :
    isDecimal (str (some (effectiveConsumption program request mandate).amount)) = true := by
  cases hcontext : object (request.lookup "commerce") with
  | some context =>
    have htotal := (h.commerce context hcontext).total.isDecimal
    simpa [effectiveConsumption, hcontext, str] using htotal
  | none =>
    have hsupplied := (h.consumption "amount" (by simp)).isDecimal_getD
    simpa [effectiveConsumption, hcontext] using hsupplied

/-- The quantity of a Commerce context is a decimal of the grammar if it parses. -/
theorem commerceQuantity_isDecimal (program : Program) {context : Object}
    (h : CommerceContextValid context) :
    isDecimal (program.commerceQuantity (context.lookup "quantity")) = true ↔
      Parses (program.commerceQuantity (context.lookup "quantity")) := by
  refine ⟨parses_of_isDecimal, fun hparses => ?_⟩
  obtain ⟨n, hquantity, hn⟩ := h.quantity
  rw [hquantity] at hparses ⊢
  cases program with
  | sdk => exact isDecimal_itoa (@integer_nonneg .sdk n hn)
  | cli => exact isDecimal_of_parses_literal hn hparses

theorem effectiveQuantity_isDecimal (program : Program) (mandate : Object) {request : Object}
    (h : ValidRequest request) :
    isDecimal (str (some (effectiveConsumption program request mandate).quantity)) = true ↔
      QuantityParses program request := by
  unfold QuantityParses
  cases hcontext : object (request.lookup "commerce") with
  | some context =>
    have hdecimal := commerceQuantity_isDecimal program (h.commerce context hcontext)
    simpa [effectiveConsumption, hcontext, str] using hdecimal
  | none =>
    simp only [reduceCtorEq, false_implies, implies_true, iff_true]
    cases hrwa : object (request.lookup "rwa") with
    | some context =>
      have hquantity := (h.rwa context hrwa).quantity.isDecimal
      simpa [effectiveConsumption, hcontext, hrwa, str] using hquantity
    | none =>
      have hsupplied := (h.consumption "quantity" (by simp)).isDecimal_getD
      simpa [effectiveConsumption, hcontext, hrwa] using hsupplied

/-- The limits that are compared parse. -/
structure LimitsSettled (program : Program) (request mandate limits : Object) : Prop where
  quantity : str (mandate.lookup "profile") = "" → (limits.lookup "max_quantity").isSome = true →
    Parses (program.limitText (limits.lookup "max_quantity")) ∧ QuantityParses program request
  total : str (limits.lookup "max_total") ≠ "" →
    str (some (effectiveConsumption program request mandate).amount) ≠ "0" →
      Parses (str (limits.lookup "max_total"))

theorem returns_quantityLimitExceeded {request mandate limits : Object} (h : ValidRequest request) :
    Returns (quantityLimitExceeded program mandate limits
        (normalizeUsage program (object (request.lookup "usage")))
        (effectiveConsumption program request mandate)) ↔
      (str (mandate.lookup "profile") = "" → (limits.lookup "max_quantity").isSome = true →
        Parses (program.limitText (limits.lookup "max_quantity")) ∧
          QuantityParses program request) := by
  obtain ⟨-, husage, -⟩ := normalizeUsage_isDecimal program h
  have hquantity := effectiveQuantity_isDecimal program mandate h
  unfold quantityLimitExceeded
  split_ifs with happlies
  · simp only [happlies.1, happlies.2, forall_const]
    by_cases hparses : QuantityParses program request
    · rw [returns_sumExceeds husage (hquantity.mpr hparses)]
      exact (and_iff_left hparses).symm
    · -- without a quantity there is no sum
      refine iff_of_false (fun hreturns => ?_) fun hboth => hparses hboth.2
      obtain ⟨_, hsum⟩ := hreturns
      obtain ⟨sum, hadd, -⟩ := bind_eq_ok.mp hsum
      have hdelta := (returns_decimalAdd.mp ⟨sum, hadd⟩).2
      refine hparses fun context hcontext => ?_
      simpa [effectiveConsumption, hcontext, str] using hdelta
  · simp only [returns_ok, true_iff]
    exact fun hprofile hlimit => absurd ⟨hprofile, hlimit⟩ happlies

theorem returns_checkBudget {request mandate limits : Object} (h : ValidRequest request)
    {reasons : Reasons} :
    Returns (checkBudget limits (normalizeUsage program (object (request.lookup "usage")))
        (effectiveConsumption program request mandate) reasons) ↔
      (str (limits.lookup "max_total") ≠ "" →
        str (some (effectiveConsumption program request mandate).amount) ≠ "0" →
          Parses (str (limits.lookup "max_total"))) := by
  obtain ⟨husage, -, -⟩ := normalizeUsage_isDecimal program h
  have hamount := effectiveAmount_isDecimal program mandate h
  unfold checkBudget
  simp only
  split_ifs with happlies
  · have hassoc : Returns (decimalAdd (normalizeUsage program (object (request.lookup "usage"))).amount
          (str (some (effectiveConsumption program request mandate).amount)) >>= fun sum =>
        exceeds sum (str (limits.lookup "max_total"))) ↔
        Parses (str (limits.lookup "max_total")) := returns_sumExceeds husage hamount
    rw [← hassoc]
    simp only [happlies.1, happlies.2, ne_eq, not_false_eq_true, forall_const]
    cases decimalAdd (normalizeUsage program (object (request.lookup "usage"))).amount
      (str (some (effectiveConsumption program request mandate).amount)) with
    | error e => exact iff_of_false (not_returns_error e) (not_returns_error e)
    | ok sum => exact returns_bind_pure
  · simp only [returns_ok, true_iff]
    exact fun htotal hne => absurd ⟨htotal, hne⟩ happlies

theorem returns_checkConsumption {request mandate : Object} (h : ValidRequest request)
    {reasons : Reasons} :
    Returns (checkConsumption program mandate
        (normalizeUsage program (object (request.lookup "usage")))
        (effectiveConsumption program request mandate) reasons) ↔
      ∀ limits, object (mandate.lookup "limits") = some limits →
        LimitsSettled program request mandate limits := by
  unfold checkConsumption
  simp only
  split
  next hnone => simp [hnone]
  next limits hlimits =>
    rw [returns_bind_iff fun _ _ => returns_checkBudget h, returns_quantityLimitExceeded h]
    simp only [hlimits, Option.some.injEq, forall_eq']
    exact ⟨fun hboth => ⟨hboth.1, hboth.2⟩, fun hsettled => ⟨hsettled.quantity, hsettled.total⟩⟩

/-! ### Profiles -/

/-- The terms of a Commerce limit that are compared parse. -/
structure CommerceSettled (program : Program) (limits : Object) : Prop where
  unitPrice : Parses (str (limits.lookup "max_unit_price"))
  total : Parses (str (limits.lookup "max_total"))
  quantity : program = .cli → Parses (numberString (limits.lookup "max_quantity"))

theorem returns_quantityExceeded {n : Literal} {limit : Option Value} (hn : 1 ≤ n.value) :
    Returns (program.quantityExceeded (some (.num n)) limit) ↔
      (program = .cli → Parses (numberString limit)) := by
  cases program with
  | sdk => simp [Program.quantityExceeded]
  | cli =>
    have hitoa := parses_of_isDecimal (isDecimal_itoa (@integer_nonneg .cli n hn))
    simp only [Program.integer] at hitoa
    simp [Program.quantityExceeded, hitoa]

theorem returns_checkCommerceTerms {request mandate envelope : Object} (h : ValidRequest request)
    {reasons : Reasons} :
    Returns (checkCommerceTerms program request mandate envelope
        (normalizeUsage program (object (request.lookup "usage"))) reasons) ↔
      ∀ context, object (request.lookup "commerce") = some context →
        ∀ limits, terms mandate "commerce" = some limits → CommerceSettled program limits := by
  obtain ⟨husage, -, -⟩ := normalizeUsage_isDecimal program h
  unfold checkCommerceTerms
  simp only
  split_ifs with hneeds
  · unfold checkCommerce
    split
    next context limits hcontext hlimits =>
      have hvalid := h.commerce context hcontext
      obtain ⟨n, hquantity, hn⟩ := hvalid.quantity
      have hunit := parses_of_isDecimal hvalid.unitPrice.isDecimal
      have htotal := parses_of_isDecimal hvalid.total.isDecimal
      obtain ⟨product, hproduct⟩ := (@returns_decimalMultiply _
        (program.integer (context.lookup "quantity") 0)).mpr hunit
      obtain ⟨sum, hsum⟩ := returns_decimalAdd.mpr ⟨parses_of_isDecimal husage, htotal⟩
      have hproductParses := parses_of_decimalMultiply hvalid.unitPrice.isDecimal
        (by rw [hquantity]; exact integer_nonneg hn) hproduct
      have hsumParses := parses_of_isDecimal
        (isDecimal_of_decimalAdd husage hvalid.total.isDecimal hsum)
      have hcompare := returns_decimalCompare.mpr ⟨htotal, hproductParses⟩
      simp only [hproduct, hsum, ok_bind, Option.some.injEq, forall_eq', hcontext, hlimits]
      rw [returns_bind_iff (P := Parses (str (limits.lookup "max_total")) ∧
        (program = .cli → Parses (numberString (limits.lookup "max_quantity")))) fun _ _ => ?_]
      · rw [returns_exceeds, and_iff_right hunit]
        exact ⟨fun hall => ⟨hall.1, hall.2.1, hall.2.2⟩,
          fun hsettled => ⟨hsettled.unitPrice, hsettled.total, hsettled.quantity⟩⟩
      · rw [returns_bind_iff (P := Parses (str (limits.lookup "max_total")) ∧
          (program = .cli → Parses (numberString (limits.lookup "max_quantity")))) fun _ _ => ?_,
          and_iff_right hcompare]
        rw [returns_bind_iff (P := program = .cli →
          Parses (numberString (limits.lookup "max_quantity"))) fun _ _ => ?_, returns_exceeds,
          and_iff_right hsumParses]
        rw [returns_bind_pure, hquantity]
        exact returns_quantityExceeded hn
    next hn =>
      simp only [returns_ok, true_iff]
      exact fun context hcontext limits hlimits => absurd hlimits (hn context limits hcontext)
  · simp only [returns_ok, true_iff]
    intro context hcontext
    simp [hcontext] at hneeds

theorem returns_checkRWATerms {request mandate envelope : Object} (h : ValidRequest request)
    {now : ℤ} {reasons : Reasons} :
    Returns (checkRWATerms runtime program request mandate envelope
        (normalizeUsage program (object (request.lookup "usage"))) now reasons) ↔
      ∀ context, object (request.lookup "rwa") = some context →
        ∀ limits, terms mandate "rwa" = some limits →
          Parses (str (limits.lookup "max_quantity")) := by
  obtain ⟨-, husage, hminted⟩ := normalizeUsage_isDecimal program h
  unfold checkRWATerms
  simp only
  split_ifs with hneeds
  · unfold checkRWA
    split
    next context limits hcontext hlimits =>
      have hvalid := h.rwa context hcontext
      have hquantity := hvalid.quantity.isDecimal
      have hsupply := hvalid.currentSupply.isDecimal
      have hreserve := parses_of_isDecimal hvalid.reserve.isDecimal
      obtain ⟨supply, hadd⟩ := returns_decimalAdd.mpr
        ⟨parses_of_isDecimal hsupply, parses_of_isDecimal hquantity⟩
      have hsum := parses_of_isDecimal (isDecimal_of_decimalAdd hsupply hquantity hadd)
      have hmaximum : Returns (andAlso (.ok (str (context.lookup "maximum_supply") != ""))
          (exceeds supply (str (context.lookup "maximum_supply")))) := by
        rw [returns_andAlso, returns_exceeds]
        refine ⟨returns_ok _, fun hset => ⟨hsum, ?_⟩⟩
        rcases hvalid.maximumSupply with hnone | hmember
        · simp [hnone, str] at hset
        · exact parses_of_isDecimal hmember.isDecimal
      have htracked : Returns (andAlso
          (.ok (index (object (request.lookup "usage")) "minted_supply").isSome) do
            return decide ((← decimalCompare
              (normalizeUsage program (object (request.lookup "usage"))).mintedSupply
              (str (context.lookup "current_supply"))) ≠ 0)) := by
        rw [returns_andAlso, returns_bind_pure, returns_decimalCompare]
        exact ⟨returns_ok _, fun _ => ⟨parses_of_isDecimal hminted, parses_of_isDecimal hsupply⟩⟩
      obtain ⟨reserve, hreserve⟩ := returns_exceeds.mpr ⟨hsum, hreserve⟩
      obtain ⟨maximum, hmaximum⟩ := hmaximum
      obtain ⟨mismatch, hmismatch⟩ := htracked
      simp only [hadd, hreserve, hmaximum, hmismatch, ok_bind, Option.some.injEq, forall_eq',
        hcontext, hlimits]
      rw [← returns_sumExceeds husage hquantity]
      cases decimalAdd (normalizeUsage program (object (request.lookup "usage"))).quantity
        (str (context.lookup "quantity")) with
      | error e => exact iff_of_false (not_returns_error e) (not_returns_error e)
      | ok sum => exact returns_bind_pure
    next hn =>
      simp only [returns_ok, true_iff]
      exact fun context hcontext limits hlimits => absurd hlimits (hn context limits hcontext)
  · simp only [returns_ok, true_iff]
    intro context hcontext
    simp [hcontext] at hneeds

/-! ### The whole evaluation -/

section Settled

variable (runtime : Runtime) (program : Program)

/-- Whatever the evaluation of a mandate and an envelope does arithmetic with parses. -/
structure Settled (request mandate envelope : Object) (now : ℤ) : Prop where
  parent : ∀ parent, object (request.lookup "parent_mandate") = some parent →
    ParentSettled runtime program mandate parent
  limits : ∀ limits, object (mandate.lookup "limits") = some limits →
    LimitsSettled program request mandate limits
  commerce : ∀ context, object (request.lookup "commerce") = some context →
    ∀ limits, terms mandate "commerce" = some limits → CommerceSettled program limits
  rwa : ∀ context, object (request.lookup "rwa") = some context →
    ∀ limits, terms mandate "rwa" = some limits → Parses (str (limits.lookup "max_quantity"))
  allowed : Permits runtime program request mandate envelope now → QuantityParses program request

/-- The same of a request, if it has a mandate, an envelope and a time. -/
def RequestSettled (request : Object) : Prop :=
  ∀ mandate, object (request.lookup "mandate") = some mandate →
    ∀ envelope, object (request.lookup "envelope") = some envelope →
      ∀ now, parseTime runtime (str (request.lookup "evaluation_time")) = some now →
        Settled runtime program request mandate envelope now

end Settled

theorem returns_checkAuthority {request mandate envelope : Object} {now : ℤ}
    (h : ValidRequest request) :
    Returns (checkAuthority runtime program request mandate envelope now) ↔
      (∀ parent, object (request.lookup "parent_mandate") = some parent →
        ParentSettled runtime program mandate parent) ∧
      (∀ limits, object (mandate.lookup "limits") = some limits →
        LimitsSettled program request mandate limits) ∧
      (∀ context, object (request.lookup "commerce") = some context →
        ∀ limits, terms mandate "commerce" = some limits → CommerceSettled program limits) ∧
      ∀ context, object (request.lookup "rwa") = some context →
        ∀ limits, terms mandate "rwa" = some limits →
          Parses (str (limits.lookup "max_quantity")) := by
  have hcommerce := fun reasons => returns_bind_iff
    (x := checkCommerceTerms program request mandate envelope
      (normalizeUsage program (object (request.lookup "usage"))) reasons)
    fun next _ => @returns_checkRWATerms runtime program request mandate envelope h now next
  have hconsumption := fun reasons => returns_bind_iff
    (x := checkConsumption program mandate
      (normalizeUsage program (object (request.lookup "usage")))
      (effectiveConsumption program request mandate) reasons)
    fun next _ => (hcommerce next).trans (and_congr_left' (returns_checkCommerceTerms h))
  have hmandate := returns_bind_iff
    (x := checkMandate runtime program request mandate envelope now)
    fun next _ => (hconsumption (checkConsumptionContext request
      (effectiveConsumption program request mandate) next)).trans
        (and_congr_left' (returns_checkConsumption h))
  exact hmandate.trans (and_congr_left' returns_checkMandate)

/-- An allowed request updates the usage exactly if its quantity parses. -/
theorem returns_nextUsage {request mandate : Object} (h : ValidRequest request) :
    Returns (nextUsage program request mandate .allow) ↔ QuantityParses program request := by
  obtain ⟨hamountUsage, hquantityUsage, -⟩ := normalizeUsage_isDecimal program h
  have hamount := effectiveAmount_isDecimal program mandate h
  have hminted : Returns (nextMintedSupply
      (normalizeUsage program (object (request.lookup "usage"))) (object (request.lookup "rwa"))) := by
    unfold nextMintedSupply
    split
    next context hcontext =>
      have hvalid := h.rwa context hcontext
      exact returns_decimalAdd.mpr ⟨parses_of_isDecimal hvalid.currentSupply.isDecimal,
        parses_of_isDecimal hvalid.quantity.isDecimal⟩
    next => exact returns_ok _
  have hquantity : Parses (str (some (effectiveConsumption program request mandate).quantity)) ↔
      QuantityParses program request := by
    refine ⟨fun hparses context hcontext => ?_, fun hparses =>
      parses_of_isDecimal ((effectiveQuantity_isDecimal program mandate h).mpr hparses)⟩
    simpa [effectiveConsumption, hcontext, str] using hparses
  unfold nextUsage applyConsumption
  obtain ⟨amount, hamount⟩ := returns_decimalAdd.mpr
    ⟨parses_of_isDecimal hamountUsage, parses_of_isDecimal hamount⟩
  obtain ⟨minted, hminted⟩ := hminted
  simp only [hamount, hminted, ok_bind]
  rw [returns_bind_pure, returns_decimalAdd, hquantity]
  exact and_iff_right (parses_of_isDecimal hquantityUsage)

theorem returns_conclude {request mandate envelope : Object} {now : ℤ} (h : ValidRequest request) :
    Returns (conclude runtime program request mandate envelope now) ↔
      Settled runtime program request mandate envelope now := by
  unfold conclude
  constructor
  · intro hreturns
    obtain ⟨result, hresult⟩ := hreturns
    obtain ⟨reasons, hreasons, hnext⟩ := bind_eq_ok.mp hresult
    obtain ⟨hparent, hlimits, hcommerce, hrwa⟩ := (returns_checkAuthority h).mp ⟨reasons, hreasons⟩
    refine ⟨hparent, hlimits, hcommerce, hrwa, fun hpermits => ?_⟩
    rw [checkAuthority_eq_nil.mpr hpermits] at hreasons
    obtain rfl : [] = reasons := Except.ok.inj hreasons
    obtain ⟨next, hnext, -⟩ := bind_eq_ok.mp hnext
    exact (returns_nextUsage h).mp ⟨next, hnext⟩
  · intro hsettled
    obtain ⟨reasons, hreasons⟩ := (returns_checkAuthority h).mpr
      ⟨hsettled.parent, hsettled.limits, hsettled.commerce, hsettled.rwa⟩
    rw [hreasons, ok_bind, returns_bind_pure]
    split_ifs with hnil
    · have hempty : reasons = [] := by
        simpa [sortStrings, List.eq_nil_iff_forall_not_mem] using hnil
      rw [hempty] at hreasons
      exact (returns_nextUsage h).mpr (hsettled.allowed (checkAuthority_eq_nil.mp hreasons))
    · exact returns_ok _

/-- On a valid request neither Go evaluator panics, that is, each returns a result or an error,
exactly if whatever it does arithmetic with parses. -/
theorem evaluate_returns_iff {request : Object} (h : ValidRequest request) :
    ((∃ answer, EvaluateAuthority runtime request = .ok answer) ↔
      RequestSettled runtime .sdk request) ∧
    ((∃ answer, evaluateAuthority runtime request = .ok answer) ↔
      RequestSettled runtime .cli request) := by
  have hevaluate : ∀ program : Program, Returns (evaluate runtime program request) ↔
      RequestSettled runtime program request := by
    intro program
    unfold evaluate RequestSettled
    split
    next mandate envelope hmandate henvelope =>
      simp only [hmandate, henvelope, Option.some.injEq, forall_eq']
      split
      next now hnow => simp only [hnow, returns_map, returns_conclude h, Option.some.injEq, forall_eq']
      next hnone => simp [hnone]
    next hmissing =>
      simp only [returns_ok, true_iff]
      exact fun mandate hmandate envelope henvelope =>
        absurd henvelope (hmissing mandate envelope hmandate)
  exact ⟨hevaluate .sdk, hevaluate .cli⟩

/-! ### A limit that is no decimal -/

/-- A mandate whose budget is written as a word. -/
def unlimitedMandate : Object :=
  [("oati_version", .str "1.0"), ("id", .str "oati:mandate:research"),
    ("issuer", .str "oati:org:lab"), ("subject", .str "oati:agent:reader"),
    ("purpose", .str "research"), ("actions", .arr [.str "data.read"]),
    ("limits", .obj [("max_total", .str "unlimited")]),
    ("not_before", .str "2026-01-01T00:00:00Z"), ("expires_at", .str "2027-01-01T00:00:00Z"),
    ("status", .str "active")]

/-- A paid read under that mandate. -/
def unlimitedRead : Object :=
  [("oati_version", .str "1.0"), ("evaluation_time", .str "2026-07-27T12:00:00Z"),
    ("mandate", .obj unlimitedMandate),
    ("envelope", .obj
      [("oati_version", .str "1.0"), ("id", .str "oati:tx:1"), ("agent_id", .str "oati:agent:reader"),
        ("organisation_id", .str "oati:org:lab"), ("mandate_id", .str "oati:mandate:research"),
        ("action", .str "data.read"), ("resource", .str "oati:dataset:tides"),
        ("purpose", .str "research"), ("issued_at", .str "2026-07-27T12:00:00Z"),
        ("nonce", .str "0123456789abcdef")]),
    ("usage", .obj []), ("consumption", .obj [("amount", .str "2.50")])]

theorem validRequest_unlimitedRead : ValidRequest unlimitedRead where
  usage := by
    intro key hkey
    exact .inl rfl
  consumption := by
    intro key hkey
    simp only [List.mem_cons, List.not_mem_nil, or_false] at hkey
    obtain rfl | rfl := hkey
    · exact .inr ⟨"2.50", rfl, by decide⟩
    · exact .inl rfl
  commerce := by
    rintro context ⟨⟩
  rwa := by
    rintro context ⟨⟩

theorem evaluate_unlimitedRead (program : Program) :
    evaluate plainRuntime program unlimitedRead = .error .panic := by
  cases program <;> decide

/-- Both programs panic. -/
theorem unlimitedRead_panics : ValidRequest unlimitedRead ∧
    EvaluateAuthority plainRuntime unlimitedRead = .error .panic ∧
    evaluateAuthority plainRuntime unlimitedRead = .error .panic :=
  ⟨validRequest_unlimitedRead, evaluate_unlimitedRead .sdk, evaluate_unlimitedRead .cli⟩

theorem evaluate_returns_iff_unlimitedRead : ¬ RequestSettled plainRuntime .sdk unlimitedRead ∧
    ¬ RequestSettled plainRuntime .cli unlimitedRead := by
  obtain ⟨hsdk, hcli⟩ := @evaluate_returns_iff plainRuntime _ validRequest_unlimitedRead
  rw [← hsdk, ← hcli, EvaluateAuthority, evaluateAuthority, evaluate_unlimitedRead,
    evaluate_unlimitedRead]
  exact ⟨fun h => by simp at h, fun h => by simp at h⟩

end Oati.Go

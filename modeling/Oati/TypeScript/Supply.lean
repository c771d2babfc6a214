import Oati.TypeScript.Budget

/-!
# The supply of a tokenised asset

An allowed request with an RWA context records `current_supply + quantity` as the minted supply,
and the next one is only allowed if its `current_supply` is the recorded value. The recorded
quantity, which the mandate bounds, is another counter: with a Commerce context it grows by the
quantity of that context.

* `SupplyStep`: what an allowed request with an RWA context checks and records.
* `current_supply_eq`: between two such requests of a run the supply grows by the quantities in
  between, whatever their operations.
* `mintSum_eq_zero_or_le`: the quantities of a run stay within `max_quantity`, when each of its
  steps counts its quantity.
* `rwa_accounting`: the accounting of a run from no usage.
* `supply_follows_iff`: the recorded supply is the one that the operations lead to exactly if
  nothing but mints has a quantity.
-/

namespace Oati.TypeScript

variable {engine : Engine}

/-! ### The RWA context of a request -/

/-- The operations of the RWA profile. -/
inductive RwaOperation where
  | mint
  | burn
  | transfer
  | redeem
  | publishState
  deriving DecidableEq, Repr

namespace RwaOperation

/-- The text of an operation. -/
def text : RwaOperation → String
  | mint => "mint"
  | burn => "burn"
  | transfer => "transfer"
  | redeem => "redeem"
  | publishState => "publish_state"

/-- What an operation does to the supply: it mints its quantity, takes it out of circulation, or
leaves the supply as it is. -/
def supplyChange (operation : RwaOperation) (quantity : ℚ) : ℚ :=
  match operation with
  | mint => quantity
  | burn | redeem => -quantity
  | transfer | publishState => 0

/-- The supply after an operation on it. -/
def Follows (operation : RwaOperation) (current quantity supply : ℚ) : Prop :=
  match operation with
  | mint => supply = current + quantity
  | burn | redeem => supply ≤ current
  | transfer | publishState => supply = current

/-- An operation that adds its quantity: a mint, or one without a quantity. -/
def Adds (operation : RwaOperation) (quantity : ℚ) : Prop := operation = mint ∨ quantity = 0

/-- The sum is the supply after the operation exactly if the operation adds its quantity. -/
theorem follows_add_iff (operation : RwaOperation) (current : ℚ) {quantity : ℚ}
    (h : 0 ≤ quantity) :
    operation.Follows current quantity (current + quantity) ↔ operation.Adds quantity := by
  have hle : quantity ≤ 0 ↔ quantity = 0 := ⟨fun h' => le_antisymm h' h, fun h' => h'.le⟩
  cases operation <;> simp [Follows, Adds, hle]

/-- An operation changes the supply by its quantity at most. -/
theorem supplyChange_le {operation : RwaOperation} {quantity : ℚ} (h : 0 ≤ quantity) :
    operation.supplyChange quantity ≤ quantity := by
  cases operation <;> simp only [supplyChange] <;> linarith

/-- An operation changes the supply by its quantity exactly if it adds it. -/
theorem supplyChange_eq_iff {operation : RwaOperation} {quantity : ℚ} :
    operation.supplyChange quantity = quantity ↔ operation.Adds quantity := by
  have hneg : -quantity = quantity ↔ quantity = 0 := by
    constructor <;> intro h <;> linarith
  cases operation <;> simp [supplyChange, Adds, hneg, eq_comm]

end RwaOperation

/-- A decimal member of the RWA context, as the rational it denotes. -/
def rwaDecimal (request : EvaluationRequest) (field : String) : ℚ :=
  (((get request.rwa field).bind Json.string?).bind decimalValue).getD 0

/-- The operation of the RWA context. -/
def rwaOperation (request : EvaluationRequest) : Option RwaOperation :=
  (get request.rwa "operation").bind fun v => v.string?.bind fun s =>
    [RwaOperation.mint, .burn, .transfer, .redeem, .publishState].find? (·.text == s)

theorem rwaDecimal_eq {request : EvaluationRequest} {field s : String} {q : ℚ}
    (hs : get request.rwa field = some (.str s)) (hq : Denotes s q) :
    rwaDecimal request field = q := by
  have hvalue := decimalValue_eq_some_iff.mpr hq
  simp [rwaDecimal, hs, Json.string?, hvalue]

theorem rwaDecimal_nonneg (request : EvaluationRequest) (field : String) :
    0 ≤ rwaDecimal request field := by
  unfold rwaDecimal
  cases h : ((get request.rwa field).bind Json.string?).bind decimalValue with
  | none => exact le_rfl
  | some q =>
    obtain ⟨s, -, hs⟩ := Option.bind_eq_some_iff.mp h
    exact (decimalValue_eq_some_iff.mp hs).nonneg

/-! ### One step -/

/-- What an allowed request with an RWA context checks and records. -/
structure SupplyStep (request : EvaluationRequest) (next : UsageSnapshot) : Prop where
  tracked : ∀ s m, request.usage.mintedSupply = some s → Denotes s m →
    rwaDecimal request "current_supply" = m
  minted : ∃ s, next.mintedSupply = some s ∧
    Denotes s (rwaDecimal request "current_supply" + rwaDecimal request "quantity")
  reserve : ∃ s r, get request.rwa "reserve" = some (.str s) ∧ Denotes s r ∧
    rwaDecimal request "current_supply" + rwaDecimal request "quantity" ≤ r
  maximum : ∀ s m, get request.rwa "maximum_supply" = some (.str s) → Denotes s m →
    rwaDecimal request "current_supply" + rwaDecimal request "quantity" ≤ m

/-- A string that denotes a number is not empty. -/
theorem Denotes.truthy {s : String} {q : ℚ} (h : Denotes s q) :
    truthy (some (.str s)) = true := by
  have hne : s ≠ "" := by
    rintro rfl
    exact absurd h.isDecimal (by decide)
  simpa [Oati.TypeScript.truthy] using hne

theorem supplyStep_of_permits {request : EvaluationRequest} {now : ℤ}
    (hp : Permits engine request now) (hrwa : truthy request.rwa = true) {next : Usage}
    (hn : nextUsage engine request .allow = .ok next) :
    SupplyStep request next.toSnapshot := by
  have hneeds : needsRwa request = true := by simp [needsRwa, hrwa]
  obtain ⟨-, limits, -, hpermits⟩ := hp.rwa hneeds
  obtain ⟨supply, quantity, reserve, hsupply, hquantity, hreserve, c, q, r, hc, hq, hr, hle⟩ :=
    hpermits.supply.reserve
  have hcurrent := rwaDecimal_eq hsupply hc
  have hadded := rwaDecimal_eq hquantity hq
  refine ⟨fun s m hs hm => ?_, ?_, ⟨reserve, r, hreserve, hr, ?_⟩, fun s m hs hm => ?_⟩
  · obtain ⟨supply', m', hsupply', hm', hc'⟩ :=
      hpermits.supply.minted (by rw [hs]; rfl)
    have husage : (normalizedUsage request.usage).mintedSupply = s := by
      simp [normalizedUsage, hs]
    rw [husage] at hm'
    rw [hm.unique hm']
    exact rwaDecimal_eq hsupply' hc'
  · obtain ⟨_, _, _, minted, -, -, -, hminted, rfl⟩ := applyConsumption_eq_ok.mp hn
    simp only [nextMintedSupply, hrwa, if_true, hsupply, hquantity, bind_eq_ok,
      decimalText_eq_ok, Option.some.injEq, Json.str.injEq, exists_eq_left'] at hminted
    refine ⟨minted, rfl, (denotes_addDecimal hminted).mpr ⟨c, q, hc, hq, ?_⟩⟩
    rw [hcurrent, hadded]
  · rw [hcurrent, hadded]
    exact hle
  · obtain ⟨supply', quantity', s', hsupply', hquantity', hs', c', q', m', hc', hq', hm', hle'⟩ :=
      hpermits.supply.maximum (by rw [hs]; exact hm.truthy)
    obtain rfl : s = s' := by simpa [hs] using hs'
    rw [rwaDecimal_eq hsupply' hc', rwaDecimal_eq hquantity' hq', hm.unique hm']
    exact hle'

theorem supplyStep_of_allow {request : EvaluationRequest} {result : EvaluationResult}
    (heval : evaluateAuthority engine request = .ok result) (hallow : result.decision = .allow)
    (hrwa : truthy request.rwa = true) : SupplyStep request result.nextUsage := by
  obtain ⟨⟨now, hp⟩, next, hn, rfl⟩ := evaluateAuthority_allow_iff.mp ⟨heval, hallow⟩
  exact supplyStep_of_permits hp hrwa hn

/-- The step is allowed and has an RWA context. -/
def Minting (step : Step) : Prop := step.2.decision = .allow ∧ truthy step.1.rwa = true

instance (step : Step) : Decidable (Minting step) := by unfold Minting; infer_instance

/-- What a step adds to the minted supply. -/
def stepMint (step : Step) : ℚ :=
  if Minting step then rwaDecimal step.1 "quantity" else 0

/-- What the steps add to the minted supply. -/
def mintSum (steps : List Step) : ℚ := (steps.map stepMint).sum

/-- A tracked supply stays tracked, and grows by what the step adds. -/
theorem minted_of_step {request : EvaluationRequest} {result : EvaluationResult}
    (heval : evaluateAuthority engine request = .ok result) {s : String} {m : ℚ}
    (hs : request.usage.mintedSupply = some s) (hm : Denotes s m) :
    ∃ s', result.nextUsage.mintedSupply = some s' ∧
      Denotes s' (m + stepMint (request, result)) := by
  have husage : (normalizedUsage request.usage).mintedSupply = s := by
    simp [normalizedUsage, hs]
  rcases evaluateAuthority_cases heval with ⟨hdeny, hnext⟩ | ⟨hallow, ⟨now, hp⟩, next, hn, hnext⟩
  · have hstep : stepMint (request, result) = 0 := by simp [stepMint, Minting, hdeny]
    rw [hstep, add_zero, hnext]
    exact ⟨s, congrArg some husage, hm⟩
  · by_cases hrwa : truthy request.rwa = true
    · have hstep : stepMint (request, result) = rwaDecimal request "quantity" := by
        simp [stepMint, Minting, hallow, hrwa]
      have hsupply := supplyStep_of_permits hp hrwa hn
      rw [hstep, hnext, ← hsupply.tracked s m hs hm]
      exact hsupply.minted
    · have hstep : stepMint (request, result) = 0 := by simp [stepMint, Minting, hrwa]
      obtain ⟨_, _, _, minted, -, -, -, hminted, rfl⟩ := applyConsumption_eq_ok.mp hn
      simp only [nextMintedSupply, hrwa, Bool.false_eq_true, if_false, Except.ok.injEq]
        at hminted
      rw [hstep, add_zero, hnext]
      exact ⟨s, congrArg some (hminted.symm.trans husage), hm⟩

/-! ### Runs -/

/-- From a tracked supply on, a request with an RWA context is only allowed on that supply and
what the steps before it have added. Induction on these steps. -/
theorem current_supply_eq {mandate : AgentMandate} {usage : UsageSnapshot}
    {between after : List Step} {later : Step}
    (hrun : IsRun engine mandate usage (between ++ later :: after)) {s : String} {m : ℚ}
    (hs : usage.mintedSupply = some s) (hm : Denotes s m) (hlater : Minting later) :
    rwaDecimal later.1 "current_supply" = m + mintSum between := by
  induction between generalizing usage s m with
  | nil =>
    obtain ⟨-, rfl, heval, -⟩ := hrun
    rw [(supplyStep_of_allow heval hlater.1 hlater.2).tracked s m hs hm]
    simp [mintSum]
  | cons step rest ih =>
    obtain ⟨-, rfl, heval, hrest⟩ := hrun
    obtain ⟨s', hs', hm'⟩ := minted_of_step heval hs hm
    rw [ih hrest hs' hm']
    simp only [mintSum, List.map_cons, List.sum_cons, add_assoc]

/-- Between two allowed requests with an RWA context the supply grows by the quantity of the
first and of those in between. -/
theorem current_supply_after {mandate : AgentMandate} {usage : UsageSnapshot}
    {before between after : List Step} {step later : Step}
    (hrun : IsRun engine mandate usage (before ++ step :: (between ++ later :: after)))
    (hstep : Minting step) (hlater : Minting later) :
    rwaDecimal later.1 "current_supply"
      = rwaDecimal step.1 "current_supply" + mintSum (step :: between) := by
  obtain ⟨-, heval⟩ := hrun.eval_of_mem (List.mem_append_right _ List.mem_cons_self)
  obtain ⟨s, hs, hm⟩ := (supplyStep_of_allow heval hstep.1 hstep.2).minted
  rw [current_supply_eq hrun.of_append hs hm hlater]
  simp only [mintSum, List.map_cons, List.sum_cons, stepMint, if_pos hstep, add_assoc]

/-! ### The quantity of a mandate -/

/-- The recorded quantity grows by that of the RWA context at least: there is no Commerce
context, or one with a quantity as large. -/
def CountsQuantity (engine : Engine) (request : EvaluationRequest) : Prop :=
  ∀ context, request.commerce = some context →
    ∀ n, Denotes (numberText engine context.quantity) n → rwaDecimal request "quantity" ≤ n

/-- What an allowed step with an RWA context adds to the recorded quantity. -/
theorem CountsQuantity.le {request : EvaluationRequest} (h : CountsQuantity engine request)
    {quantity text : String} {q d : ℚ} (hquantity : get request.rwa "quantity" = some (.str quantity))
    (hq : Denotes quantity q)
    (htext : (effectiveConsumption engine request).quantity = .str text) (hd : Denotes text d) :
    q ≤ d := by
  cases hcontext : request.commerce with
  | none =>
    obtain rfl : quantity = text := by
      simpa [effectiveConsumption, hcontext, hquantity, nullish] using htext
    exact (hq.unique hd).le
  | some context =>
    obtain rfl : numberText engine context.quantity = text := by
      simpa [effectiveConsumption, hcontext] using htext
    rw [← rwaDecimal_eq hquantity hq]
    exact h context hcontext d hd

/-- The quantities of a run, added to the one it starts from, stay within `max_quantity`, unless
there are none. Induction on the run: an allowed step with an RWA context checks the recorded
quantity together with its own, and records as much. -/
theorem mintSum_eq_zero_or_le {mandate : AgentMandate} {terms : Record}
    (hterms : objectAt mandate.extensions "rwa" = some terms) {usage : UsageSnapshot}
    {steps : List Step} (hrun : IsRun engine mandate usage steps)
    (hcounts : ∀ step ∈ steps, Minting step → CountsQuantity engine step.1) {a : ℚ}
    (ha : Denotes (normalizedUsage usage).quantity a) :
    mintSum steps = 0 ∨
      ∃ m, Denotes (optionText engine (terms.lookup "max_quantity")) m ∧
        a + mintSum steps ≤ m := by
  induction steps generalizing usage a with
  | nil => exact .inl rfl
  | cons step rest ih =>
    obtain ⟨request, result⟩ := step
    obtain ⟨hmandate, rfl, heval, hrest⟩ := hrun
    have hcountsRest := fun s hs => hcounts s (List.mem_cons_of_mem _ hs)
    have hsum : mintSum ((request, result) :: rest) = stepMint (request, result) + mintSum rest := by
      simp [mintSum]
    rw [hsum]
    rcases evaluateAuthority_cases heval with ⟨hdeny, hnext⟩ | ⟨hallow, ⟨now, hp⟩, next, hn, hnext⟩
    · have hstep : stepMint (request, result) = 0 := by simp [stepMint, Minting, hdeny]
      rw [hstep, zero_add]
      exact ih hrest hcountsRest (by rw [hnext]; exact ha)
    · obtain ⟨text, a', d, htext, ha', hd, hnextQuantity⟩ := (effect_of_nextUsage hn).quantity
      obtain rfl := ha'.unique ha
      have hrec := ih hrest hcountsRest (a := a' + d) (by rw [hnext]; exact hnextQuantity)
      have hd0 := hd.nonneg
      by_cases hrwa : truthy request.rwa = true
      · have hminting : Minting (request, result) := ⟨hallow, hrwa⟩
        obtain ⟨-, limits, hlimits, hpermits⟩ := hp.rwa (by simp [needsRwa, hrwa])
        obtain rfl : terms = limits := by simpa [← hmandate, hlimits] using hterms.symm
        obtain ⟨quantity, hquantity, x, q, m, hx, hq, hm, hle⟩ := hpermits.quantity
        obtain rfl := hx.unique ha
        have hcounted := (hcounts _ List.mem_cons_self hminting).le hquantity hq htext hd
        rw [stepMint, if_pos hminting, rwaDecimal_eq hquantity hq]
        refine .inr ?_
        rcases hrec with hzero | ⟨m', hm', hle'⟩
        · exact ⟨m, hm, by rw [hzero, add_zero]; exact hle⟩
        · exact ⟨m', hm', by linarith⟩
      · have hstep : stepMint (request, result) = 0 := by simp [stepMint, Minting, hrwa]
        rw [hstep, zero_add]
        exact hrec.imp id fun ⟨m, hm, hle⟩ => ⟨m, hm, by linarith⟩

theorem mintSum_eq_zero {steps : List Step} (h : ∀ step ∈ steps, step.2.decision = .deny) :
    mintSum steps = 0 := by
  refine List.sum_eq_zero fun x hx => ?_
  obtain ⟨step, hstep, rfl⟩ := List.mem_map.mp hx
  simp [stepMint, Minting, h step hstep]

/-- The RWA accounting of a run from no usage whose allowed steps count their quantities, for
whichever operations: the quantities stay within the mandate's, each allowed request starts from
the supply the one before it led to, and that supply is within the reserve and the maximum. -/
theorem rwa_accounting {mandate : AgentMandate} {terms : Record}
    (hterms : objectAt mandate.extensions "rwa" = some terms) {steps : List Step}
    (hrun : IsRun engine mandate {} steps)
    (hcounts : ∀ step ∈ steps, Minting step → CountsQuantity engine step.1) :
    (∀ m, Denotes (optionText engine (terms.lookup "max_quantity")) m → mintSum steps ≤ m) ∧
    (∀ before step between later after,
      steps = before ++ step :: (between ++ later :: after) → Minting step → Minting later →
      (∀ other ∈ between, other.2.decision = .deny) →
      rwaDecimal later.1 "current_supply"
        = rwaDecimal step.1 "current_supply" + rwaDecimal step.1 "quantity") ∧
    ∀ step ∈ steps, Minting step → ∃ s supply, step.2.nextUsage.mintedSupply = some s ∧
      Denotes s supply ∧
      (∃ s r, get step.1.rwa "reserve" = some (.str s) ∧ Denotes s r ∧ supply ≤ r) ∧
      ∀ s m, get step.1.rwa "maximum_supply" = some (.str s) → Denotes s m → supply ≤ m := by
  refine ⟨fun m hm => ?_, ?_, fun step hstep hminting => ?_⟩
  · rcases mintSum_eq_zero_or_le hterms hrun hcounts denotes_zero with hzero | ⟨m', hm', hle⟩
    · exact hzero.le.trans hm.nonneg
    · rw [hm.unique hm', ← zero_add (mintSum steps)]
      exact hle
  · rintro before step between later after rfl hstep hlater hdenied
    rw [current_supply_after hrun hstep hlater]
    have hbetween := mintSum_eq_zero hdenied
    simp only [mintSum, List.map_cons, List.sum_cons, stepMint, if_pos hstep] at hbetween ⊢
    rw [hbetween, add_zero]
  · obtain ⟨-, heval⟩ := hrun.eval_of_mem hstep
    have hsupply := supplyStep_of_allow heval hminting.1 hminting.2
    obtain ⟨s, hs, hm⟩ := hsupply.minted
    exact ⟨s, _, hs, hm, hsupply.reserve, hsupply.maximum⟩

/-! ### The supply that the operations lead to -/

/-- What the operation of a step does to the supply. -/
def stepSupplyChange (step : Step) : ℚ :=
  if Minting step then
    ((rwaOperation step.1).map (·.supplyChange (rwaDecimal step.1 "quantity"))).getD 0
  else 0

/-- The recorded supply of a step is the one its operation leads to. -/
def FollowsOperation (step : Step) : Prop :=
  ∃ s supply operation, step.2.nextUsage.mintedSupply = some s ∧ Denotes s supply ∧
    rwaOperation step.1 = some operation ∧
    operation.Follows (rwaDecimal step.1 "current_supply") (rwaDecimal step.1 "quantity") supply

/-- The operation adds its quantity to the supply. -/
def AddsQuantity (request : EvaluationRequest) : Prop :=
  ∃ operation, rwaOperation request = some operation ∧
    operation.Adds (rwaDecimal request "quantity")

/-- An operation changes the supply by what the evaluator records at most, and by as much
exactly if it adds its quantity. -/
theorem stepSupplyChange_le {step : Step}
    (hoperation : Minting step → (rwaOperation step.1).isSome = true) :
    stepSupplyChange step ≤ stepMint step ∧
      (stepSupplyChange step = stepMint step ↔ (Minting step → AddsQuantity step.1)) := by
  by_cases hminting : Minting step
  · obtain ⟨operation, hsome⟩ := Option.isSome_iff_exists.mp (hoperation hminting)
    have hnonneg := rwaDecimal_nonneg step.1 "quantity"
    simp only [stepSupplyChange, stepMint, hsome, Option.map_some, Option.getD_some,
      AddsQuantity, Option.some.injEq, exists_eq_left', hminting, forall_const]
    exact ⟨RwaOperation.supplyChange_le hnonneg, RwaOperation.supplyChange_eq_iff⟩
  · simp [stepSupplyChange, stepMint, hminting]

/-- The operations of some steps change the supply by what the evaluator records exactly if all
of them add their quantities. -/
theorem sum_supplyChange_eq_iff {steps : List Step}
    (hoperation : ∀ step ∈ steps, Minting step → (rwaOperation step.1).isSome = true) :
    (steps.map stepSupplyChange).sum = mintSum steps ↔
      ∀ step ∈ steps, Minting step → AddsQuantity step.1 := by
  induction steps with
  | nil => simp [mintSum]
  | cons step rest ih =>
    obtain ⟨hstep, hrest⟩ := List.forall_mem_cons.mp hoperation
    obtain ⟨hle, heq⟩ := stepSupplyChange_le hstep
    have hrestLe : (rest.map stepSupplyChange).sum ≤ mintSum rest :=
      List.sum_le_sum fun s hs => (stepSupplyChange_le (hrest s hs)).1
    have hsum : mintSum (step :: rest) = stepMint step + mintSum rest := by simp [mintSum]
    rw [List.forall_mem_cons, ← heq, ← ih hrest, hsum, List.map_cons, List.sum_cons]
    constructor
    · intro h
      constructor <;> linarith
    · rintro ⟨h, h'⟩
      rw [h, h']

/-- In a run of requests with operations of the profile: a step records the supply that its
operation leads to exactly if the operation adds its quantity, and a later request is allowed on
the supply that the operations since then lead to exactly if all of them do. -/
theorem supply_follows_iff {mandate : AgentMandate} {usage : UsageSnapshot} {steps : List Step}
    (hrun : IsRun engine mandate usage steps)
    (hoperation : ∀ step ∈ steps, Minting step → (rwaOperation step.1).isSome = true) :
    (∀ step ∈ steps, Minting step → (FollowsOperation step ↔ AddsQuantity step.1)) ∧
    ∀ before step between later after,
      steps = before ++ step :: (between ++ later :: after) → Minting step → Minting later →
      (rwaDecimal later.1 "current_supply"
          = rwaDecimal step.1 "current_supply" + ((step :: between).map stepSupplyChange).sum ↔
        ∀ other ∈ step :: between, Minting other → AddsQuantity other.1) := by
  constructor
  · intro step hstep hminting
    obtain ⟨-, heval⟩ := hrun.eval_of_mem hstep
    obtain ⟨s, hs, hm⟩ := (supplyStep_of_allow heval hminting.1 hminting.2).minted
    obtain ⟨operation, hsome⟩ := Option.isSome_iff_exists.mp (hoperation step hstep hminting)
    have hiff := operation.follows_add_iff (rwaDecimal step.1 "current_supply")
      (rwaDecimal_nonneg step.1 "quantity")
    constructor
    · rintro ⟨s', supply, operation', hs', hsupply, hsome', hfollows⟩
      obtain rfl : s = s' := by simpa [hs] using hs'
      obtain rfl : operation = operation' := by simpa [hsome] using hsome'
      rw [hsupply.unique hm] at hfollows
      exact ⟨operation, hsome, hiff.mp hfollows⟩
    · rintro ⟨operation', hsome', hadds⟩
      obtain rfl : operation = operation' := by simpa [hsome] using hsome'
      exact ⟨s, _, operation, hs, hm, hsome, hiff.mpr hadds⟩
  · rintro before step between later after rfl hstep hlater
    have hbetween : ∀ other ∈ step :: between, Minting other →
        (rwaOperation other.1).isSome = true := by
      intro other hother
      refine hoperation other (List.mem_append_right _ ?_)
      rcases List.mem_cons.mp hother with rfl | hmem
      · exact List.mem_cons_self
      · exact List.mem_cons_of_mem _ (List.mem_append_left _ hmem)
    rw [← sum_supplyChange_eq_iff hbetween, current_supply_after hrun hstep hlater,
      add_right_inj, eq_comm]

/-! ### A sample issuance -/

/-- The members by which a mandate and a context name the asset. -/
def sampleTarget (operation : String) : Record :=
  [("asset_id", .str "building-7"), ("state_claim_id", .str "claim-7"),
    ("network", .str "testnet"), ("token_contract", .str "0x07"),
    ("operation", .str operation), ("unit", .str "share")]

/-- An issuer may do one operation, on up to a hundred shares. -/
def issuerMandate (operation : String) : AgentMandate :=
  { brokerMandate with
    extensions := some [("commerce", .obj (quoteTerms "100" 8)),
      ("rwa", .obj (sampleTarget operation
        ++ [("max_quantity", .str "100"), ("minimum_approvals", .num 1)]))] }

/-- The operation on a quantity of shares, out of a reserve of five hundred. -/
def issuance (operation quantity currentSupply : String) : EvaluationRequest :=
  { evaluationTime := "2026-06-01T12:00:00Z", mandate := issuerMandate operation
    envelope :=
      { id := "oati:transaction:7", agentId := "oati:agent:broker"
        organisationId := "oati:organisation:desk", mandateId := "oati:mandate:broker"
        action := "purchase", resource := "building-7", purpose := some "procurement" }
    rwa := some (.obj (sampleTarget operation
      ++ [("quantity", .str quantity), ("reserve", .str "500"), ("approval_count", .num 1),
        ("approval_roles", .arr []), ("current_supply", .str currentSupply),
        ("claim_valid_until", .str "2026-12-31T00:00:00Z")])) }

/-- The answer to an issuance that leaves the given usage. -/
def issuanceResult (usage : UsageSnapshot) : EvaluationResult :=
  { decision := .allow, mandateId := "oati:mandate:broker", transactionId := "oati:transaction:7"
    reasonCodes := [], nextUsage := usage }

/-- Usage without amounts. -/
def sharesUsage (calls : ℕ) (quantity mintedSupply : String) : UsageSnapshot :=
  { calls := some calls, amount := some "0", currency := some "", quantity := some quantity
    consumed := some false, idempotencyKeys := some [], mintedSupply := some mintedSupply }

/-- Sixty shares, and then forty. -/
def twoIssuances : List Step :=
  [(issuance "mint" "60" "0", issuanceResult (sharesUsage 1 "60" "60")),
    ({ issuance "mint" "40" "60" with usage := sharesUsage 1 "60" "60" },
      issuanceResult (sharesUsage 2 "100" "100"))]

theorem isRun_twoIssuances : IsRun plainEngine (issuerMandate "mint") {} twoIssuances :=
  ⟨rfl, rfl, by decide, rfl, rfl, by decide, trivial⟩

theorem rwa_accounting_twoIssuances :
    mintSum twoIssuances ≤ 100 ∧
      rwaDecimal (issuance "mint" "40" "60") "current_supply" = 0 + 60 := by
  have hterms : objectAt (issuerMandate "mint").extensions "rwa"
      = some (sampleTarget "mint"
        ++ [("max_quantity", .str "100"), ("minimum_approvals", .num 1)]) := rfl
  have hcounts : ∀ step ∈ twoIssuances, Minting step → CountsQuantity plainEngine step.1 := by
    intro step hstep _ context hcontext
    simp only [twoIssuances, List.mem_cons, List.not_mem_nil, or_false] at hstep
    obtain rfl | rfl := hstep <;> cases hcontext
  have hkept := rwa_accounting hterms isRun_twoIssuances hcounts
  have hsixty : rwaDecimal (issuance "mint" "60" "0") "current_supply" = 0 ∧
      rwaDecimal (issuance "mint" "60" "0") "quantity" = 60 := by decide +kernel
  have hsupply := hkept.2.1 [] _ [] _ [] rfl ⟨rfl, by decide⟩ ⟨rfl, by decide⟩ (by simp)
  refine ⟨hkept.1 100 (by exact_mod_cast denotes_repr 100), ?_⟩
  rw [← hsixty.1, ← hsixty.2]
  exact hsupply

theorem supply_follows_iff_twoIssuances :
    rwaDecimal (issuance "mint" "40" "60") "current_supply"
        = 0 + (([(issuance "mint" "60" "0", issuanceResult (sharesUsage 1 "60" "60"))] :
          List Step).map stepSupplyChange).sum ↔
      ∀ other ∈ ([(issuance "mint" "60" "0", issuanceResult (sharesUsage 1 "60" "60"))] :
        List Step), Minting other → AddsQuantity other.1 := by
  have hoperation : ∀ step ∈ twoIssuances, Minting step →
      (rwaOperation step.1).isSome = true := by decide +kernel
  have hzero : rwaDecimal (issuance "mint" "60" "0") "current_supply" = 0 := by decide +kernel
  have hiff := (supply_follows_iff isRun_twoIssuances hoperation).2 [] _ [] _ [] rfl
    ⟨rfl, by decide⟩ ⟨rfl, by decide⟩
  rw [hzero] at hiff
  exact hiff

/-- One share is sold with each issuance. -/
def saleContext (key : String) : CommerceEvaluationContext :=
  { orderContext with quantity := 1, totalAmount := "2.50", idempotencyKey := key }

/-- Usage after sales of one share each. -/
def salesUsage (calls : ℕ) (amount quantity : String) (keys : List String)
    (mintedSupply : String) : UsageSnapshot :=
  { calls := some calls, amount := some amount, currency := some "EUR", quantity := some quantity
    consumed := some false, idempotencyKeys := some keys, mintedSupply := some mintedSupply }

/-- Two issuances of sixty shares, each with the sale of one. -/
def soldIssuances : List Step :=
  [({ issuance "mint" "60" "0" with commerce := some (saleContext "sale-1") },
      issuanceResult (salesUsage 1 "2.50" "1" ["sale-1"] "60")),
    ({ issuance "mint" "60" "60" with
        commerce := some (saleContext "sale-2")
        usage := salesUsage 1 "2.50" "1" ["sale-1"] "60" },
      issuanceResult (salesUsage 2 "5.00" "2" ["sale-1", "sale-2"] "120"))]

/-- A run of mints whose quantities exceed the hundred shares of the mandate. -/
theorem mintSum_soldIssuances :
    IsRun plainEngine (issuerMandate "mint") {} soldIssuances ∧
      (∀ step ∈ soldIssuances, Minting step ∧ rwaOperation step.1 = some .mint) ∧
      objectAt (issuerMandate "mint").extensions "rwa"
        = some (sampleTarget "mint"
          ++ [("max_quantity", .str "100"), ("minimum_approvals", .num 1)]) ∧
      ¬ mintSum soldIssuances ≤ 100 :=
  ⟨⟨rfl, rfl, by decide +kernel, rfl, rfl, by decide +kernel, trivial⟩, by decide +kernel, rfl,
    by decide +kernel⟩

/-- A burn of five shares out of ten, recorded as fifteen shares. -/
theorem burn_increases_supply :
    evaluateAuthority plainEngine (issuance "burn" "5" "10")
        = .ok (issuanceResult (sharesUsage 1 "5" "15")) ∧
      ¬ FollowsOperation (issuance "burn" "5" "10", issuanceResult (sharesUsage 1 "5" "15")) := by
  refine ⟨by decide +kernel, ?_⟩
  rintro ⟨s, supply, operation, hs, hsupply, hoperation, hfollows⟩
  have hburn : rwaOperation (issuance "burn" "5" "10") = some .burn := by decide +kernel
  have hcurrent : rwaDecimal (issuance "burn" "5" "10") "current_supply" = 10 := by
    decide +kernel
  obtain rfl : "15" = s := by simpa [issuanceResult, sharesUsage] using hs
  obtain rfl : RwaOperation.burn = operation := by simpa [hburn] using hoperation
  have hfifteen : Denotes "15" 15 := by exact_mod_cast denotes_repr 15
  rw [hsupply.unique hfifteen, hcurrent] at hfollows
  change (15 : ℚ) ≤ 10 at hfollows
  norm_num at hfollows

end Oati.TypeScript

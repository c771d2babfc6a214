import Mathlib.Data.List.Basic

/-!
# Bounded walks

A walk goes from a node to the next one until it is at a goal. It ends without success at a node
that has no next one or that was visited, and after a number of rounds; on the way it asks whether
each node is clear. Such a walk succeeds exactly along a path (`Path`), and which of these
questions it asks first makes no difference.

`same` is the comparison of the visited nodes with the current one.
-/

namespace Walk

variable {α : Type} {goal clear : α → Prop} {next : α → Option α} {same : α → α → Prop}

/-- The nodes of a successful walk: each leads to the next, and the last one alone is a goal. -/
inductive Links (goal : α → Prop) (next : α → Option α) : List α → Prop where
  | goal {a : α} (h : goal a) : Links goal next [a]
  | next {a b : α} {rest : List α} (ha : ¬ goal a) (hab : next a = some b)
      (h : Links goal next (b :: rest)) : Links goal next (a :: b :: rest)

/-- A path from a node to a goal, of at most `rounds` nodes: none of them is among the visited ones
or repeats, and all are clear. -/
structure Path (goal clear : α → Prop) (next : α → Option α) (same : α → α → Prop) (rounds : ℕ)
    (visited : List α) (start : α) (path : List α) : Prop where
  links : Links goal next path
  head : path.head? = some start
  clear : ∀ a ∈ path, clear a
  distinct : path.Pairwise fun a b => ¬ same b a
  fresh : ∀ a ∈ path, ∀ v ∈ visited, ¬ same a v
  length : path.length ≤ rounds

/-- What asks less of the nodes on the way has the same paths. -/
theorem Path.of_clear {clear' : α → Prop} {rounds : ℕ} {visited : List α} {start : α}
    {path : List α} (h : Path goal clear next same rounds visited start path)
    (hclear : ∀ a, clear a → clear' a) : Path goal clear' next same rounds visited start path :=
  { h with clear := fun a ha => hclear a (h.clear a ha) }

/-- A path from a node that is no goal is the node and a path from the next one. -/
theorem Path.cons_iff {rounds : ℕ} {visited : List α} {a b : α} {path : List α}
    (ha : ¬ goal a) (hab : next a = some b) :
    Path goal clear next same (rounds + 1) visited a (a :: path) ∧ path ≠ [] ↔
      clear a ∧ (∀ v ∈ visited, ¬ same a v) ∧
        Path goal clear next same rounds (a :: visited) b path := by
  constructor
  · rintro ⟨h, hne⟩
    obtain ⟨hclear, hrest⟩ := List.forall_mem_cons.mp h.clear
    obtain ⟨hfresh, hfreshes⟩ := List.forall_mem_cons.mp h.fresh
    obtain ⟨hdistinct, hpairs⟩ := List.pairwise_cons.mp h.distinct
    refine ⟨hclear, hfresh, ?_⟩
    have hlinks := h.links
    cases hlinks with
    | goal => exact absurd rfl hne
    | next _ hnext hlinks =>
      obtain rfl := Option.some.inj (hab.symm.trans hnext)
      exact ⟨hlinks, rfl, hrest, hpairs, fun c hc => List.forall_mem_cons.mpr
        ⟨hdistinct c hc, hfreshes c hc⟩, Nat.le_of_succ_le_succ h.length⟩
  · rintro ⟨hclear, hfresh, h⟩
    have hfreshes : ∀ c ∈ path, ¬ same c a ∧ ∀ v ∈ visited, ¬ same c v :=
      fun c hc => List.forall_mem_cons.mp (h.fresh c hc)
    obtain ⟨rest, rfl⟩ : ∃ rest, path = b :: rest := by
      cases path with
      | nil => cases h.head
      | cons c rest => exact ⟨rest, by rw [Option.some.inj h.head]⟩
    exact ⟨⟨.next ha hab h.links, rfl, List.forall_mem_cons.mpr ⟨hclear, h.clear⟩,
      List.pairwise_cons.mpr ⟨fun c hc => (hfreshes c hc).1, h.distinct⟩,
      List.forall_mem_cons.mpr ⟨hfresh, fun c hc => (hfreshes c hc).2⟩,
      Nat.succ_le_succ h.length⟩, List.cons_ne_nil _ _⟩

/-- A path from a goal is the goal alone. -/
theorem Path.goal_iff {rounds : ℕ} {visited : List α} {a : α} {path : List α} (ha : goal a) :
    Path goal clear next same (rounds + 1) visited a path ↔
      path = [a] ∧ clear a ∧ ∀ v ∈ visited, ¬ same a v := by
  constructor
  · intro h
    have hlinks := h.links
    cases hlinks with
    | goal =>
      obtain rfl := Option.some.inj h.head
      exact ⟨rfl, h.clear _ (List.mem_singleton.mpr rfl), h.fresh _ (List.mem_singleton.mpr rfl)⟩
    | next hb =>
      obtain rfl := Option.some.inj h.head
      exact absurd ha hb
  · rintro ⟨rfl, hclear, hfresh⟩
    exact ⟨.goal ha, rfl, by simpa using hclear, List.pairwise_singleton _ _, by simpa using hfresh,
      Nat.succ_le_succ (Nat.zero_le _)⟩

/-- What a round of a walk does, for any predicate that says whether it succeeds. -/
theorem succeeds_iff {succeeds : ℕ → List α → α → Prop}
    (hzero : ∀ visited a, ¬ succeeds 0 visited a)
    (hsucc : ∀ rounds visited a, (∀ v ∈ visited, ¬ goal v) →
      (succeeds (rounds + 1) visited a ↔ clear a ∧ (∀ v ∈ visited, ¬ same a v) ∧
        (goal a ∨ ¬ goal a ∧ ∃ b, next a = some b ∧ succeeds rounds (a :: visited) b))) :
    ∀ rounds visited a, (∀ v ∈ visited, ¬ goal v) →
      (succeeds rounds visited a ↔ ∃ path, Path goal clear next same rounds visited a path) := by
  intro rounds
  induction rounds with
  | zero =>
    intro visited a _
    refine iff_of_false (hzero visited a) ?_
    rintro ⟨path, h⟩
    have hnil : path = [] := List.length_eq_zero_iff.mp (Nat.le_zero.mp h.length)
    rw [hnil] at h
    cases h.head
  | succ rounds ih =>
    intro visited a hvisited
    rw [hsucc rounds visited a hvisited]
    by_cases ha : goal a
    · constructor
      · rintro ⟨hclear, hfresh, -⟩
        exact ⟨[a], (Path.goal_iff ha).mpr ⟨rfl, hclear, hfresh⟩⟩
      · rintro ⟨path, h⟩
        obtain ⟨-, hclear, hfresh⟩ := (Path.goal_iff ha).mp h
        exact ⟨hclear, hfresh, .inl ha⟩
    · have hstep : ∀ v ∈ a :: visited, ¬ goal v := List.forall_mem_cons.mpr ⟨ha, hvisited⟩
      constructor
      · rintro ⟨hclear, hfresh, hgoal | ⟨-, b, hab, hb⟩⟩
        · exact absurd hgoal ha
        obtain ⟨path, h⟩ := (ih (a :: visited) b hstep).mp hb
        exact ⟨a :: path, ((Path.cons_iff ha hab).mpr ⟨hclear, hfresh, h⟩).1⟩
      · rintro ⟨path, h⟩
        have hlinks := h.links
        cases hlinks with
        | goal hgoal =>
          rw [Option.some.inj h.head] at hgoal
          exact absurd hgoal ha
        | @next a' b rest _ hab _ =>
          obtain rfl := Option.some.inj h.head
          obtain ⟨hclear, hfresh, hpath⟩ :=
            (Path.cons_iff ha hab).mp ⟨h, List.cons_ne_nil _ _⟩
          exact ⟨hclear, hfresh, .inr ⟨ha, b, hab, (ih _ b hstep).mpr ⟨_, hpath⟩⟩⟩

end Walk

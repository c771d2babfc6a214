import Mathlib.Logic.Function.Basic
import Oati.Go.Value

/-!
# The replay file of the CLI

`consumeReplay` reads the file, and renames a new one over it. Processes that share the file do
this at the same time: their reads, the writes of their temporary files and their renames
interleave in any order (`ReplayRun`), while the clock does not go back.

* `ReplaySafe`: no proof is accepted again before it expires, and those that have not expired are
  in the file.
* `Undisturbed`: a rename replaces the file that its process has read.
* `replaySafe_of_undisturbed`: every run of such renames is safe.
-/

namespace Oati.Cli

open Go (parseTime)

/-- The file: the expiry of each key. A file that does not exist holds none. -/
abbrev ReplayEntries := String → Option String

/-- What a process calls `consumeReplay` with, besides the path and the time. -/
structure ReplayCall where
  key : String
  expires : String

/-- `err == nil && expiry.After(now)`. -/
def expiresAfter (times : Go.Runtime) (raw : String) (now : ℤ) : Bool :=
  (parseTime times raw).any fun expiry => now < expiry

/-- What `consumeReplay` makes of the entries it has read, if it does not refuse the key. -/
def consumeEntries (times : Go.Runtime) (entries : ReplayEntries) (call : ReplayCall) (now : ℤ) :
    Option ReplayEntries :=
  if (entries call.key).any fun raw => expiresAfter times raw now then none
  else some fun key =>
    if key = call.key then some call.expires
    else (entries key).filter fun raw => expiresAfter times raw now

/-- How far a process has come. It keeps the file it has read beside the entries that replace it. -/
inductive ReplayPhase where
  | idle
  | started (now : ℤ)
  | loaded (now : ℤ) (base next : ReplayEntries)
  | written (now : ℤ) (base next : ReplayEntries)
  | accepted
  | refused
  | failed

/-- A key that a process accepted, and when. -/
structure AcceptedKey where
  key : String
  expires : String
  time : ℤ

/-- The file, the processes and the clock, and the keys that were accepted, the last one first. -/
structure ReplayState (P : Type) where
  file : ReplayEntries
  phase : P → ReplayPhase
  clock : ℤ
  accepted : List AcceptedKey

inductive ReplayAction (P : Type) where
  | tick (t : ℤ)
  | start (p : P)
  | read (p : P)
  | write (p : P)
  | rename (p : P)
  | fail (p : P)

section Run

variable {P : Type} [DecidableEq P]

def ReplayState.enter (s : ReplayState P) (p : P) (phase : ReplayPhase) : ReplayState P :=
  { s with phase := Function.update s.phase p phase }

/-- One step, if it can be made. A process takes its time when it starts, and an error may end it
before its rename. -/
def replayStep (times : Go.Runtime) (calls : P → ReplayCall) (s : ReplayState P) :
    ReplayAction P → Option (ReplayState P)
  | .tick t => if s.clock ≤ t then some { s with clock := t } else none
  | .start p =>
    match s.phase p with
    | .idle => some (s.enter p (.started s.clock))
    | _ => none
  | .read p =>
    match s.phase p with
    | .started now =>
      match consumeEntries times s.file (calls p) now with
      | some next => some (s.enter p (.loaded now s.file next))
      | none => some (s.enter p .refused)
    | _ => none
  | .write p =>
    match s.phase p with
    | .loaded now base next => some (s.enter p (.written now base next))
    | _ => none
  | .rename p =>
    match s.phase p with
    | .written _ _ next =>
      some { s.enter p .accepted with
        file := next
        accepted := ⟨(calls p).key, (calls p).expires, s.clock⟩ :: s.accepted }
    | _ => none
  | .fail p =>
    match s.phase p with
    | .started _ => some (s.enter p .failed)
    | .loaded _ _ _ => some (s.enter p .failed)
    | .written _ _ _ => some (s.enter p .failed)
    | _ => none

/-- A run whose steps are all allowed in the states they are made in. -/
inductive ReplayRun (times : Go.Runtime) (calls : P → ReplayCall)
    (allowed : ReplayState P → ReplayAction P → Prop) (first : ReplayState P) :
    ReplayState P → Prop where
  | start : ReplayRun times calls allowed first first
  | step {s s' : ReplayState P} {a : ReplayAction P}
      (hrun : ReplayRun times calls allowed first s) (hallowed : allowed s a)
      (hstep : replayStep times calls s a = some s') :
      ReplayRun times calls allowed first s'

/-- No process has begun. -/
def ReplayState.Fresh (s : ReplayState P) : Prop := (∀ p, s.phase p = .idle) ∧ s.accepted = []

/-- A rename finds the file as its process has read it. -/
def Undisturbed (s : ReplayState P) : ReplayAction P → Prop
  | .rename p => ∀ now base next, s.phase p = .written now base next → s.file = base
  | _ => True

/-- A key is accepted again only after it has expired, and until then it is in the file. -/
structure ReplaySafe (times : Go.Runtime) (s : ReplayState P) : Prop where
  once : s.accepted.Pairwise fun later earlier =>
    later.key = earlier.key → expiresAfter times earlier.expires later.time = false
  present : ∀ a ∈ s.accepted, expiresAfter times a.expires s.clock = true →
    s.file a.key = some a.expires

/-! ### The invariant -/

variable {times : Go.Runtime} {calls : P → ReplayCall} {s s' first : ReplayState P}

/-- What a process knows in a phase. -/
def PhaseHolds (times : Go.Runtime) (call : ReplayCall) (clock : ℤ) : ReplayPhase → Prop
  | .started now => now ≤ clock
  | .loaded now base next => now ≤ clock ∧ consumeEntries times base call now = some next
  | .written now base next => now ≤ clock ∧ consumeEntries times base call now = some next
  | _ => True

theorem PhaseHolds.mono {call : ReplayCall} {clock clock' : ℤ} {phase : ReplayPhase}
    (h : PhaseHolds times call clock phase) (hclock : clock ≤ clock') :
    PhaseHolds times call clock' phase := by
  cases phase with
  | started now => exact le_trans h hclock
  | loaded now base next => exact ⟨h.1.trans hclock, h.2⟩
  | written now base next => exact ⟨h.1.trans hclock, h.2⟩
  | _ => trivial

/-- The state is safe and every process knows what its phase says. -/
structure ReplayInvariant (times : Go.Runtime) (calls : P → ReplayCall) (s : ReplayState P) :
    Prop where
  safe : ReplaySafe times s
  phases : ∀ p, PhaseHolds times (calls p) s.clock (s.phase p)

theorem ReplayInvariant.enter (h : ReplayInvariant times calls s) {p : P} {phase : ReplayPhase}
    (hphase : PhaseHolds times (calls p) s.clock phase) :
    ReplayInvariant times calls (s.enter p phase) where
  safe := ⟨h.safe.once, h.safe.present⟩
  phases q := by
    unfold ReplayState.enter
    by_cases hq : q = p
    · subst hq
      simpa using hphase
    · simpa [hq] using h.phases q

theorem expiresAfter_of_le {raw : String} {now later : ℤ}
    (h : expiresAfter times raw later = true) (hle : now ≤ later) :
    expiresAfter times raw now = true := by
  unfold expiresAfter at h ⊢
  cases hparse : parseTime times raw with
  | none =>
    rw [hparse] at h
    cases h
  | some expiry =>
    rw [hparse] at h
    simp only [Option.any_some, decide_eq_true_eq] at h ⊢
    exact lt_of_le_of_lt hle h

theorem consumeEntries_eq_some {entries next : ReplayEntries} {call : ReplayCall} {now : ℤ}
    (h : consumeEntries times entries call now = some next) :
    (∀ raw, entries call.key = some raw → expiresAfter times raw now = false) ∧
      next call.key = some call.expires ∧ ∀ key ≠ call.key, ∀ raw, entries key = some raw →
        expiresAfter times raw now = true → next key = some raw := by
  unfold consumeEntries at h
  split_ifs at h with hlive
  cases h
  refine ⟨fun raw hraw => ?_, if_pos rfl, fun key hkey raw hraw hafter => ?_⟩
  · rw [hraw, Option.any_some] at hlive
    exact Bool.eq_false_iff.mpr hlive
  · dsimp only
    rw [if_neg hkey, hraw, Option.filter_some, if_pos hafter]

/-- A rename over the file that was read keeps the invariant: what has not expired is still in the
file, so it was kept, and was not accepted again. -/
theorem ReplayInvariant.rename (h : ReplayInvariant times calls s) {p : P} {now : ℤ}
    {next : ReplayEntries} (hphase : s.phase p = .written now s.file next) :
    ReplayInvariant times calls { s.enter p .accepted with
      file := next
      accepted := ⟨(calls p).key, (calls p).expires, s.clock⟩ :: s.accepted } := by
  have hknown := h.phases p
  rw [hphase] at hknown
  obtain ⟨hnow, hconsumed⟩ := hknown
  obtain ⟨hfree, hadded, hkept⟩ := consumeEntries_eq_some hconsumed
  have hother : ∀ a ∈ s.accepted, expiresAfter times a.expires s.clock = true →
      a.key ≠ (calls p).key := by
    intro a ha hafter hkey
    have hexpired := hfree _ (hkey ▸ h.safe.present a ha hafter)
    rw [expiresAfter_of_le hafter hnow] at hexpired
    cases hexpired
  have hentered : ReplayInvariant times calls (s.enter p .accepted) := h.enter trivial
  refine ⟨⟨List.pairwise_cons.mpr ⟨?_, h.safe.once⟩, ?_⟩, hentered.phases⟩
  · intro a ha hkey
    exact Bool.eq_false_iff.mpr fun hafter => hother a ha hafter hkey.symm
  · intro a ha hafter
    rcases List.mem_cons.mp ha with rfl | ha
    · exact hadded
    · exact hkept _ (hother a ha hafter) _ (h.safe.present a ha hafter)
        (expiresAfter_of_le hafter hnow)

theorem ReplayInvariant.step (h : ReplayInvariant times calls s) {action : ReplayAction P}
    (hundisturbed : Undisturbed s action) (hstep : replayStep times calls s action = some s') :
    ReplayInvariant times calls s' := by
  cases action with
  | tick t =>
    dsimp only [replayStep] at hstep
    split_ifs at hstep with hclock
    cases hstep
    exact ⟨⟨h.safe.once, fun a ha hafter =>
      h.safe.present a ha (expiresAfter_of_le hafter hclock)⟩, fun p => (h.phases p).mono hclock⟩
  | start p =>
    dsimp only [replayStep] at hstep
    split at hstep
    · cases hstep
      exact h.enter le_rfl
    · cases hstep
  | read p =>
    have hknown := h.phases p
    dsimp only [replayStep] at hstep
    split at hstep
    · next now hphase =>
      rw [hphase] at hknown
      split at hstep
      · next next hconsumed =>
        cases hstep
        exact h.enter ⟨hknown, hconsumed⟩
      · cases hstep
        exact h.enter trivial
    · cases hstep
  | write p =>
    have hknown := h.phases p
    dsimp only [replayStep] at hstep
    split at hstep
    · next now base next hphase =>
      rw [hphase] at hknown
      cases hstep
      exact h.enter hknown
    · cases hstep
  | rename p =>
    dsimp only [replayStep] at hstep
    split at hstep
    · next now base next hphase =>
      obtain rfl := hundisturbed now base next hphase
      cases hstep
      exact h.rename hphase
    · cases hstep
  | fail p =>
    dsimp only [replayStep] at hstep
    split at hstep
    · cases hstep
      exact h.enter trivial
    · cases hstep
      exact h.enter trivial
    · cases hstep
      exact h.enter trivial
    · cases hstep

theorem ReplayRun.invariant (hfresh : first.Fresh)
    (hrun : ReplayRun times calls Undisturbed first s) : ReplayInvariant times calls s := by
  induction hrun with
  | start =>
    obtain ⟨hidle, haccepted⟩ := hfresh
    refine ⟨⟨by rw [haccepted]; exact .nil, by rw [haccepted]; simp⟩, fun p => ?_⟩
    rw [hidle]
    trivial
  | step _ hallowed hstep ih => exact ih.step hallowed hstep

/-- Over every run in which no rename finds the file changed since its process read it, a key is
accepted again only after it has expired, and until then it is in the file. -/
theorem replaySafe_of_undisturbed (hfresh : first.Fresh)
    (hrun : ReplayRun times calls Undisturbed first s) : ReplaySafe times s :=
  (hrun.invariant hfresh).safe

end Run

/-! ### Two processes with one proof -/

def sharedCall : Bool → ReplayCall := fun _ => ⟨"oati:key:1", "2027-01-01T00:00:00Z"⟩

def noReplays : ReplayState Bool := ⟨fun _ => none, fun _ => .idle, 0, []⟩

theorem fresh_noReplays : noReplays.Fresh := ⟨fun _ => rfl, rfl⟩

theorem expiresAfter_sharedCall :
    expiresAfter Go.plainRuntime "2027-01-01T00:00:00Z" 0 = true := by decide

/-- One after the other: the first accepts the proof, and the second refuses it. -/
theorem replaySafe_sharedCall : ∃ s : ReplayState Bool, s.phase false = .accepted ∧
    s.phase true = .refused ∧ ReplaySafe Go.plainRuntime s := by
  have hnone : ReplayRun Go.plainRuntime sharedCall Undisturbed noReplays noReplays := .start
  have hstarted := hnone.step (a := .start false) trivial rfl
  have hread := hstarted.step (a := .read false) trivial rfl
  have hwritten := hread.step (a := .write false) trivial rfl
  have haccepted := hwritten.step (a := .rename false)
    (fun _ _ _ h => (ReplayPhase.written.inj h).2.1) rfl
  have hsecond := haccepted.step (a := .start true) trivial rfl
  have hrefused := hsecond.step (a := .read true) trivial rfl
  exact ⟨_, rfl, rfl, replaySafe_of_undisturbed fresh_noReplays hrefused⟩

/-- Both read the file before either renames: both accept the proof. -/
theorem not_replaySafe : ¬ ∀ (times : Go.Runtime) (calls : Bool → ReplayCall)
    (first s : ReplayState Bool), first.Fresh →
      ReplayRun times calls (fun _ _ => True) first s → ReplaySafe times s := by
  intro h
  have hnone : ReplayRun Go.plainRuntime sharedCall (fun _ _ => True) noReplays noReplays := .start
  have hstarted := (hnone.step (a := .start false) trivial rfl).step (a := .start true) trivial rfl
  have hread := (hstarted.step (a := .read false) trivial rfl).step (a := .read true) trivial rfl
  have hwritten := (hread.step (a := .write false) trivial rfl).step (a := .write true) trivial rfl
  have hrun := (hwritten.step (a := .rename false) trivial rfl).step (a := .rename true) trivial rfl
  have hsafe := h _ _ _ _ fresh_noReplays hrun
  have hexpired := (List.pairwise_cons.mp hsafe.once).1 _ (List.mem_singleton.mpr rfl) rfl
  exact Bool.false_ne_true (hexpired.symm.trans expiresAfter_sharedCall)

end Oati.Cli

import Mathlib.Logic.Function.Basic
import Oati.Library.ExpiringSet
import Oati.TypeScript.CryptoSpec

/-!
# Replayed proofs

Sequences of verifications that share one replay cache: the in-memory one of the SDK, or the one
the Envoy authorizer keeps in Valkey. Both are sets of keys that expire (`ExpiringSet`), but a
proof is accepted for the clock skew longer than its key is kept, since the key's lifetime is
computed from `expires` alone.

* `Session`: a sequence of presentations of documents, each with its verification's trace, whose
  calls of `checkAndStore` the cache answers.
* `session_attempts`: the cache's part in a session is a run of an expiring set.
* `replay_refused`: outside the gap between a key's deadline and the end of its proof's window,
  no triple of verification method, audience and nonce is verified twice.
* `note_replayed`: inside the gap it is.
-/

namespace Oati.TypeScript

open Prog

/-! ### Sessions -/

/-- One verification of a sequence: what is verified and when, what the calls were answered, and
how it ended. `servedAt` is the time of the Valkey server when it serves the request. -/
structure Presentation where
  document : Record
  policy : VerificationPolicy
  now : ℤ
  servedAt : ℤ
  trace : TrustTrace
  outcome : Except JsError VerificationResult

namespace Presentation

/-- The policy with the instant of the presentation. -/
def policyNow (p : Presentation) : VerificationPolicy := { p.policy with now := some p.now }

/-- The verification ended with `verified = true`. -/
def Verified (p : Presentation) : Prop := ∃ result, p.outcome = .ok result ∧ result.verified = true

/-- The proof the document carries. -/
def proof? (p : Presentation) : Option OatiJwsProof :=
  match parseProof (p.document.lookup "proof") with
  | .ok proof => some proof
  | .error _ => none

theorem proof?_eq_some {p : Presentation} {proof : OatiJwsProof}
    (h : parseProof (p.document.lookup "proof") = .ok proof) : p.proof? = some proof := by
  rw [proof?, h]

/-- The same verification method, audience and nonce. -/
def SameTriple (p q : Presentation) : Prop :=
  ∃ x y, p.proof? = some x ∧ q.proof? = some y ∧ x.verificationMethod = y.verificationMethod ∧
    p.policy.expectedAudience = q.policy.expectedAudience ∧ x.nonce = y.nonce

/-- `Date.parse(proof.expires)`. -/
def Expires (engine : Engine) (p : Presentation) (expires : ℤ) : Prop :=
  ∃ proof, p.proof? = some proof ∧ dateParse engine proof.expires = some expires

end Presentation

/-- A replay cache: how it answers `checkAndStore(key, expiresAt, now)` in a state. -/
structure ReplayStore where
  State : Type
  Step : Presentation → State → String → Option ℤ → ℤ → Except JsError Bool → State → Prop

/-- The cache answers the calls of a trace, in order. -/
inductive Serves (store : ReplayStore) (p : Presentation) :
    store.State → TrustTrace → store.State → Prop where
  | nil (s : store.State) : Serves store p s [] s
  | other {s s' : store.State} {event : Event TrustAnswer JsError} {trace : TrustTrace}
      (h : ∀ key expiresAt now, event.call ≠ .checkAndStore key expiresAt now)
      (hrest : Serves store p s trace s') : Serves store p s (event :: trace) s'
  | store {s s' s'' : store.State} {key : String} {expiresAt : Option ℤ} {now : ℤ}
      {answer : Except JsError Bool} {trace : TrustTrace}
      (h : store.Step p s key expiresAt now answer s') (hrest : Serves store p s' trace s'') :
      Serves store p s (⟨.checkAndStore key expiresAt now, answer⟩ :: trace) s''

/-- A sequence of verifications that share the cache. -/
inductive Session (engine : Engine) (store : ReplayStore) :
    store.State → List Presentation → store.State → Prop where
  | nil (s : store.State) : Session engine store s [] s
  | cons {s s' s'' : store.State} {p : Presentation} {ps : List Presentation}
      (hrun : Run (verifyDocument engine p.document p.policyNow) p.trace p.outcome)
      (hserves : Serves store p s p.trace s') (hrest : Session engine store s' ps s'') :
      Session engine store s (p :: ps) s''

/-! ### The caches -/

/-- `MemoryReplayCache`. -/
def memoryStore : ReplayStore where
  State := MemoryReplayCache
  Step _ s key expiresAt now answer s' :=
    answer = .ok (s.checkAndStore key expiresAt now).1 ∧
      s' = (s.checkAndStore key expiresAt now).2

/-- The deadlines of the keys a Valkey server holds, in its own time. -/
abbrev Valkey := String → Option ℤ

/-- `SET key 1 PX ttl NX` at an instant of the server: whether it answers `OK`. -/
def Valkey.setNX (s : Valkey) (key : String) (ttl time : ℤ) : Bool × Valkey :=
  if (s key).any (time < ·) then (false, s) else (true, Function.update s key (some (time + ttl)))

/-- The time to live of `ValkeyReplayCache`. -/
def replayTtl (expiresAt now : ℤ) : ℤ := max 1 (Double.roundInt (expiresAt - now))

/-- `ValkeyReplayCache.checkAndStore`. A command may fail before or after the server executes it,
and one with an invalid time to live always does. `keyOf` is `this.prefix + digestKey(key)`. -/
inductive ValkeyStep (keyOf : String → String) (p : Presentation) (s : Valkey) (key : String) :
    Option ℤ → ℤ → Except JsError Bool → Valkey → Prop where
  | reply (expiresAt now : ℤ) : ValkeyStep keyOf p s key (some expiresAt) now
      (.ok (s.setNX (keyOf key) (replayTtl expiresAt now) p.servedAt).1)
      (s.setNX (keyOf key) (replayTtl expiresAt now) p.servedAt).2
  | lost (expiresAt now : ℤ) (e : JsError) : ValkeyStep keyOf p s key (some expiresAt) now
      (.error e) (s.setNX (keyOf key) (replayTtl expiresAt now) p.servedAt).2
  | failed (expiresAt : Option ℤ) (now : ℤ) (e : JsError) :
      ValkeyStep keyOf p s key expiresAt now (.error e) s

theorem ValkeyStep.of_setNX {keyOf : String → String} {p : Presentation} {s s' : Valkey}
    {key : String} {expiresAt now : ℤ} {stored : Bool}
    (h : s.setNX (keyOf key) (replayTtl expiresAt now) p.servedAt = (stored, s')) :
    ValkeyStep keyOf p s key (some expiresAt) now (.ok stored) s' := by
  have hstep : ValkeyStep keyOf p s key _ _ _ _ := .reply expiresAt now
  rwa [h] at hstep

/-- `ValkeyReplayCache`. -/
def valkeyStore (keyOf : String → String) : ReplayStore where
  State := Valkey
  Step := ValkeyStep keyOf

/-! ### Caches are expiring sets -/

/-- How a cache is an expiring set: what it holds, under which keys, and until when. -/
structure ReplayStore.Model (store : ReplayStore) where
  abs : store.State → ExpiringSet.State String ℤ
  keyOf : String → String
  clock : Presentation → ℤ
  deadline : Presentation → ℤ → ℤ
  /-- Every step is an attempt, or changes nothing and is not a success. -/
  step : ∀ {p s key expiresAt answer s'}, store.Step p s key expiresAt p.now answer s' →
    (abs s' = abs s ∧ answer ≠ .ok true) ∨
    ∃ a : ExpiringSet.Attempt String ℤ, a.key = keyOf key ∧ a.clock = clock p ∧
      (∀ e, expiresAt = some e → a.deadline = deadline p e) ∧
      (answer = .ok true → a.accepted = true) ∧ ExpiringSet.Step (abs s) a (abs s')

theorem lookup_set (entries : MemoryReplayCache) (key k : String) (value : Option ℤ) :
    (entries.set key value).lookup k = if k = key then some value else entries.lookup k := by
  induction entries with
  | nil =>
    rw [MemoryReplayCache.set]
    split_ifs with h
    · rw [h, List.lookup_cons_self]
    · exact List.lookup_cons_of_ne h _ _
  | cons entry rest ih =>
    obtain ⟨k', v⟩ := entry
    rw [MemoryReplayCache.set]
    by_cases h : k' = key
    · rw [if_pos h]
      split_ifs with hk
      · rw [hk, h, List.lookup_cons_self]
      · rw [List.lookup_cons_of_ne (h ▸ hk), List.lookup_cons_of_ne (h ▸ hk)]
    · rw [if_neg h]
      by_cases hk : k = k'
      · rw [hk, List.lookup_cons_self, List.lookup_cons_self, if_neg h]
      · rw [List.lookup_cons_of_ne hk, List.lookup_cons_of_ne hk, ih]

/-- A filter keeps the first entry of a key, or that entry does not pass it. -/
theorem lookup_filter_eq_or (entries : MemoryReplayCache) (test : String × Option ℤ → Bool)
    (k : String) : (entries.filter test).lookup k = entries.lookup k ∨
      ∃ v, entries.lookup k = some v ∧ test (k, v) = false := by
  induction entries with
  | nil => exact .inl rfl
  | cons entry rest ih =>
    obtain ⟨k', v⟩ := entry
    by_cases h : k = k'
    · subst h
      rcases htest : test (k, v) with _ | _
      · exact .inr ⟨v, List.lookup_cons_self, htest⟩
      · rw [List.filter_cons_of_pos htest]
        exact .inl (by rw [List.lookup_cons_self, List.lookup_cons_self])
    · rw [List.lookup_cons_of_ne h]
      rcases htest : test (k', v) with _ | _
      · rwa [List.filter_cons_of_neg (by simp [htest])]
      · rwa [List.filter_cons_of_pos htest, List.lookup_cons_of_ne h]

/-- The deadlines of the map; an entry with an invalid date is as good as none. -/
def MemoryReplayCache.deadlines (entries : MemoryReplayCache) : ExpiringSet.State String ℤ :=
  fun key => (entries.lookup key).join

theorem live_deadlines_iff {entries : MemoryReplayCache} {now : ℤ} {key : String} :
    ExpiringSet.Live entries.deadlines now key ↔
      (entries.lookup key).any (fun existing => existing.any (now < ·)) = true := by
  rw [ExpiringSet.Live, MemoryReplayCache.deadlines]
  rcases entries.lookup key with _ | _ | d
  · simp
  · simp
  · simp

/-- What the eviction leaves of an entry: the entry, or its date has passed. -/
theorem evict_lookup (entries : MemoryReplayCache) (now : ℤ) (k : String) :
    (if entries.length > 10000 then entries.filter fun entry => !entry.2.any (· ≤ now)
      else entries).lookup k = entries.lookup k ∨
    ∃ d, entries.lookup k = some (some d) ∧ d ≤ now := by
  split_ifs
  · rcases lookup_filter_eq_or entries (fun entry => !entry.2.any (· ≤ now)) k with h | ⟨v, hv, h⟩
    · exact .inl h
    · rcases v with _ | d
      · simp at h
      · exact .inr ⟨d, hv, by simpa using h⟩
  · exact .inl rfl

/-- `MemoryReplayCache.checkAndStore` is an attempt; an invalid date has passed at once. -/
theorem step_checkAndStore (entries : MemoryReplayCache) (key : String) (expiresAt : Option ℤ)
    (now : ℤ) : ExpiringSet.Step entries.deadlines
      { key, clock := now, deadline := expiresAt.getD now,
        accepted := (entries.checkAndStore key expiresAt now).1 }
      (entries.checkAndStore key expiresAt now).2.deadlines := by
  rw [MemoryReplayCache.checkAndStore]
  split_ifs with hlive
  · exact .refused (live_deadlines_iff.mpr hlive) rfl
  · refine .accepted (fun h => hlive (live_deadlines_iff.mp h)) rfl ?_ fun k hk => ?_
    · rcases evict_lookup (entries.set key expiresAt) now key with h | ⟨d, hd, hle⟩
      · rcases expiresAt with _ | e
        · exact .inr le_rfl
        · rw [lookup_set, if_pos rfl] at h
          exact .inl (congrArg Option.join h)
      · rw [lookup_set, if_pos rfl] at hd
        obtain rfl := Option.some.inj hd
        exact .inr hle
    · rcases evict_lookup (entries.set key expiresAt) now k with h | ⟨d, hd, hle⟩
      · rw [lookup_set, if_neg hk] at h
        exact .inl (congrArg Option.join h)
      · rw [lookup_set, if_neg hk] at hd
        exact .inr ⟨d, congrArg Option.join hd, hle⟩

/-- The in-memory cache keeps a key until the proof expires, by the time of the policy. -/
def memoryModel : memoryStore.Model where
  abs := MemoryReplayCache.deadlines
  keyOf key := key
  clock p := p.now
  deadline _ expiresAt := expiresAt
  step := by
    rintro p s key expiresAt answer s' ⟨rfl, rfl⟩
    refine .inr ⟨_, rfl, rfl, ?_, ?_, step_checkAndStore s key expiresAt p.now⟩
    · rintro e rfl
      rfl
    · exact fun h => Except.ok.inj h

/-- The attempt a `SET` is. -/
def Valkey.attempt (s : Valkey) (key : String) (ttl time : ℤ) : ExpiringSet.Attempt String ℤ :=
  { key, clock := time, deadline := time + ttl, accepted := (s.setNX key ttl time).1 }

theorem step_setNX (s : Valkey) (key : String) (ttl time : ℤ) :
    ExpiringSet.Step s (s.attempt key ttl time) (s.setNX key ttl time).2 := by
  have hlive : ExpiringSet.Live s time key ↔ (s key).any (time < ·) = true := by
    rw [ExpiringSet.Live]
    rcases s key with _ | d
    · simp
    · simp
  rw [Valkey.attempt, Valkey.setNX]
  split_ifs with h
  · exact .refused (hlive.mpr h) rfl
  · refine .accepted (fun hl => h (hlive.mp hl)) rfl (.inl ?_) fun k hk => .inl ?_
    · exact Function.update_self ..
    · exact Function.update_of_ne hk ..

theorem valkeyStep_attempt {keyOf : String → String} {p : Presentation} {s s' : Valkey}
    {key : String} {expiresAt : Option ℤ} {now : ℤ} {answer : Except JsError Bool}
    (h : ValkeyStep keyOf p s key expiresAt now answer s') :
    (s' = s ∧ answer ≠ .ok true) ∨
    ∃ a : ExpiringSet.Attempt String ℤ, a.key = keyOf key ∧ a.clock = p.servedAt ∧
      (∀ e, expiresAt = some e → a.deadline = p.servedAt + replayTtl e now) ∧
      (answer = .ok true → a.accepted = true) ∧ ExpiringSet.Step s a s' := by
  cases h with
  | reply expiresAt now =>
    refine .inr ⟨s.attempt (keyOf key) (replayTtl expiresAt now) p.servedAt, rfl, rfl, ?_,
      fun h => Except.ok.inj h, step_setNX ..⟩
    rintro e ⟨⟩
    rfl
  | lost expiresAt now e =>
    refine .inr ⟨s.attempt (keyOf key) (replayTtl expiresAt now) p.servedAt, rfl, rfl, ?_,
      (by rintro ⟨⟩), step_setNX ..⟩
    rintro e ⟨⟩
    rfl
  | failed => exact .inl ⟨rfl, by simp⟩

/-- Valkey keeps a key for the time to live, by its own time. -/
def valkeyModel (keyOf : String → String) : (valkeyStore keyOf).Model where
  abs s := s
  keyOf := keyOf
  clock p := p.servedAt
  deadline p expiresAt := p.servedAt + replayTtl expiresAt p.now
  step := valkeyStep_attempt

/-! ### Sessions -/

/-- A call of `checkAndStore` with another instant. -/
def OtherInstant (now : ℤ) (c : TrustCall) : Prop :=
  ∃ key expiresAt time, c = .checkAndStore key expiresAt time ∧ time ≠ now

theorem chainLoop_avoids_otherInstant {engine : Engine} {trustAnchors : List String} {now time : ℤ}
    {skew : ℚ} {start : String} : ∀ {rounds : ℕ} {current : String} {visited : List String}
    {issues : Issues}, Avoids (OtherInstant now)
      (chainLoop engine trustAnchors time skew start rounds current visited issues) := by
  intro rounds
  induction rounds with
  | zero => intros; exact avoids_pure _
  | succ rounds ih =>
    intro current visited issues
    rw [chainLoop]
    refine Avoids.ite (avoids_pure _) ((checkRevocationFrom_avoids (by simp [OtherInstant])).bind
      fun _ => Avoids.ite (avoids_pure _)
        (Avoids.bind (Avoids.attempt (avoids_perform (by simp [OtherInstant]))) fun answer => ?_))
    rcases chainStep engine current answer time skew with parent | _ | ⟨code, message⟩
    · exact ih
    · exact avoids_pure _
    · exact avoids_pure _

theorem checkSignature_avoids_otherInstant {engine : Engine} {document : Record}
    {proof : OatiJwsProof} {key : VerificationKey} {issues : Issues} {now : ℤ} :
    Avoids (OtherInstant now) (checkSignature engine document proof key issues) := by
  refine Avoids.ite (avoids_pure _) (Avoids.bind (Avoids.attempt ?_) fun _ => avoids_pure _)
  refine (avoids_ofExcept _).bind fun _ => Avoids.bind (avoids_perform (by simp [OtherInstant]))
    fun _ => (avoids_ofExcept _).bind fun _ => avoids_perform (by simp [OtherInstant])

theorem checkReplay_avoids_otherInstant {engine : Engine} {proof : OatiJwsProof}
    {policy : VerificationPolicy} {now : ℤ} {issues : Issues} :
    Avoids (OtherInstant now) (checkReplay engine proof policy now issues) := by
  refine Avoids.ite (Avoids.bind (avoids_perform ?_) fun _ => avoids_pure _) (avoids_pure _)
  rintro ⟨key, expiresAt, time, ⟨⟩, hne⟩
  exact hne rfl

/-- The cache is only asked about the instant of the policy. -/
theorem verifyDocument_avoids_otherInstant {engine : Engine} {document : Record}
    {policy : VerificationPolicy} {now : ℤ} (hnow : policy.now = some now) :
    Avoids (OtherInstant now) (verifyDocument engine document policy) := by
  rw [verifyDocument]
  rcases parseProof (document.lookup "proof") with issue | proof
  · exact avoids_pure _
  · have htime : currentTime policy = pure now := by rw [currentTime, hnow]
    have hpure : ∀ f : ℤ → TrustProg VerificationResult,
        (pure now : TrustProg ℤ) >>= f = f now := fun f => rfl
    simp only [verifyProof, htime, hpure]
    refine Avoids.bind (Avoids.attempt (avoids_perform (by simp [OtherInstant]))) fun answer => ?_
    rcases answer with e | _ | key
    · exact avoids_pure _
    · exact avoids_pure _
    · exact (avoids_ofExcept _).bind fun _ => chainLoop_avoids_otherInstant.bind fun _ =>
        (checkRevocationFrom_avoids (by simp [OtherInstant])).bind fun _ =>
          checkSignature_avoids_otherInstant.bind fun _ =>
            checkReplay_avoids_otherInstant.bind fun _ => avoids_pure _

/-- What the cache does with the calls of one verification: a run of an expiring set, in which
every success is an accepted attempt. -/
theorem Serves.attempts {store : ReplayStore} (model : store.Model) {p : Presentation}
    {s s' : store.State} {trace : TrustTrace} (h : Serves store p s trace s')
    (hnow : ∀ event ∈ trace, ¬ OtherInstant p.now event.call) :
    ∃ attempts, ExpiringSet.Run (model.abs s) attempts (model.abs s') ∧
      (∀ a ∈ attempts, a.clock = model.clock p) ∧
      ∀ key expiresAt, Answered trace (.checkAndStore key (some expiresAt) p.now) (.ok true) →
        ∃ a ∈ attempts, a.key = model.keyOf key ∧ a.deadline = model.deadline p expiresAt ∧
          a.accepted = true := by
  induction h with
  | nil s =>
    refine ⟨[], .nil _, by simp, ?_⟩
    rintro key expiresAt ⟨⟩
  | other h _ ih =>
    obtain ⟨attempts, hrun, hclock, hanswered⟩ := ih fun e he => hnow e (by simp [he])
    refine ⟨attempts, hrun, hclock, ?_⟩
    rintro key expiresAt (_ | ⟨_, hmem⟩)
    · exact absurd rfl (h _ _ _)
    · exact hanswered key expiresAt hmem
  | @store s s' s'' key expiresAt now answer trace h _ ih =>
    obtain ⟨attempts, hrun, hclock, hanswered⟩ := ih fun e he => hnow e (by simp [he])
    have hinstant : now = p.now := by
      by_contra hne
      exact hnow _ (List.mem_cons_self ..) ⟨_, _, _, rfl, hne⟩
    subst hinstant
    rcases model.step h with ⟨hsame, hfail⟩ | ⟨a, hkey, haclock, hdeadline, haccepted, hstep⟩
    · rw [hsame] at hrun
      refine ⟨attempts, hrun, hclock, ?_⟩
      rintro k e (_ | ⟨_, hmem⟩)
      · exact absurd rfl hfail
      · exact hanswered k e hmem
    · refine ⟨a :: attempts, .cons hstep hrun, ?_, ?_⟩
      · rintro b (_ | ⟨_, hb⟩)
        · exact haclock
        · exact hclock b hb
      · rintro k e (_ | ⟨_, hmem⟩)
        · exact ⟨a, by simp, hkey, hdeadline e rfl, haccepted rfl⟩
        · obtain ⟨b, hb, hrest⟩ := hanswered k e hmem
          exact ⟨b, by simp [hb], hrest⟩

/-- What acceptance says about a presentation: the cache accepted the key of its proof, whose
window is not over. -/
theorem Presentation.Verified.accepted {engine : Engine} {p : Presentation} (h : p.Verified)
    (hrun : Run (verifyDocument engine p.document p.policyNow) p.trace p.outcome) :
    ∃ proof expires, p.proof? = some proof ∧ dateParse engine proof.expires = some expires ∧
      minus p.now p.policy.skew < expires ∧
      Answered p.trace (.checkAndStore (replayKey proof p.policy) (some expires) p.now)
        (.ok true) := by
  obtain ⟨result, houtcome, hverified⟩ := h
  rw [houtcome] at hrun
  rw [verifyDocument] at hrun
  split at hrun
  · obtain ⟨-, hr⟩ := run_pure_iff.mp hrun
    cases hr
    cases hverified
  · next proof hproof =>
    obtain ⟨key, now, path, haccepted, -⟩ :=
      verifyProof_accepted (parseProof_eq_ok hproof) hrun hverified
    obtain rfl : now = p.now := haccepted.now_eq _ rfl
    obtain ⟨created, expires, -, hexpires, -, -, hwindow, -⟩ := haccepted.proofTimely
    refine ⟨proof, expires, proof?_eq_some hproof, hexpires, hwindow, ?_⟩
    rw [← hexpires]
    exact haccepted.replay

/-- What the cache saw of a presentation. -/
structure Seen (engine : Engine) {store : ReplayStore} (model : store.Model) (p : Presentation)
    (attempts : List (ExpiringSet.Attempt String ℤ)) : Prop where
  clock : ∀ a ∈ attempts, a.clock = model.clock p
  accepted : p.Verified → ∃ proof expires, p.proof? = some proof ∧
    dateParse engine proof.expires = some expires ∧ minus p.now p.policy.skew < expires ∧
    ∃ a ∈ attempts, a.key = model.keyOf (replayKey proof p.policy) ∧
      a.deadline = model.deadline p expires ∧ a.accepted = true

/-- The cache's part in a session is a run of an expiring set. -/
theorem session_attempts {engine : Engine} {store : ReplayStore} (model : store.Model)
    {s s' : store.State} {ps : List Presentation} (h : Session engine store s ps s') :
    ∃ seen : List (Presentation × List (ExpiringSet.Attempt String ℤ)),
      seen.map Prod.fst = ps ∧ (∀ x ∈ seen, Seen engine model x.1 x.2) ∧
      ExpiringSet.Run (model.abs s) (seen.flatMap Prod.snd) (model.abs s') := by
  induction h with
  | nil s => exact ⟨[], rfl, by simp, .nil _⟩
  | @cons s s' s'' p ps hrun hserves _ ih =>
    obtain ⟨seen, rfl, hseen, hattempts⟩ := ih
    obtain ⟨as, has, hclock, hanswered⟩ := hserves.attempts model
      (@verifyDocument_avoids_otherInstant engine p.document p.policyNow p.now rfl _ _ hrun)
    refine ⟨(p, as) :: seen, rfl, ?_, ?_⟩
    · rintro x (_ | ⟨_, hx⟩)
      · refine ⟨hclock, fun hverified => ?_⟩
        obtain ⟨proof, expires, hproof, hexpires, hwindow, hstored⟩ := hverified.accepted hrun
        exact ⟨proof, expires, hproof, hexpires, hwindow, hanswered _ _ hstored⟩
      · exact hseen x hx
    · rw [List.flatMap_cons]
      exact has.append hattempts

/-! ### No proof is accepted twice outside the gap -/

/-- The later presentation `q` does not fall in the gap that `p` leaves: the key of `p` is still
kept, or the proof of `q` has expired for good. -/
def OutsideGap (engine : Engine) (clock : Presentation → ℤ) (deadline : Presentation → ℤ → ℤ)
    (p q : Presentation) : Prop :=
  ∀ expires expires', p.Expires engine expires → q.Expires engine expires' →
    clock q < deadline p expires ∨ expires' ≤ minus q.now q.policy.skew

theorem replayKey_congr {p q : Presentation} {x y : OatiJwsProof} (h : p.SameTriple q)
    (hx : p.proof? = some x) (hy : q.proof? = some y) :
    replayKey x p.policy = replayKey y q.policy := by
  obtain ⟨x', y', hx', hy', hmethod, haudience, hnonce⟩ := h
  obtain rfl := Option.some.inj (hx.symm.trans hx')
  obtain rfl := Option.some.inj (hy.symm.trans hy')
  rw [replayKey, replayKey, hmethod, haudience, hnonce]

/-- With any cache that is an expiring set: outside the gap no triple is verified twice. -/
theorem Session.verified_once {engine : Engine} {store : ReplayStore} (model : store.Model)
    {s s' : store.State} {ps : List Presentation} (h : Session engine store s ps s')
    (hclock : ps.Pairwise fun p q => model.clock p ≤ model.clock q)
    (hgap : ps.Pairwise fun p q =>
      p.SameTriple q → OutsideGap engine model.clock model.deadline p q) :
    ps.Pairwise fun p q => p.SameTriple q → ¬ (p.Verified ∧ q.Verified) := by
  obtain ⟨seen, rfl, hseen, hrun⟩ := session_attempts model h
  rw [List.pairwise_map] at hclock hgap ⊢
  have hmono : (seen.flatMap Prod.snd).Pairwise (·.clock ≤ ·.clock) := by
    refine List.pairwise_flatMap.mpr ⟨fun x hx => ?_, ?_⟩
    · refine List.pairwise_of_forall_mem_list fun a ha b hb => ?_
      rw [(hseen x hx).clock a ha, (hseen x hx).clock b hb]
    · refine hclock.imp_of_mem fun {x y} hx hy hle a ha b hb => ?_
      rw [(hseen x hx).clock a ha, (hseen y hy).clock b hb]
      exact hle
  have hdeadlines := (List.pairwise_flatMap.mp (hrun.deadline_le hmono)).2
  refine (hgap.and hdeadlines).imp_of_mem fun {x y} hx hy h hsame hboth => ?_
  obtain ⟨hgap, hdeadline⟩ := h
  obtain ⟨proof, expires, hproof, hexpires, -, a, ha, hakey, hadeadline, haccepted⟩ :=
    (hseen x hx).accepted hboth.1
  obtain ⟨proof', expires', hproof', hexpires', hwindow, b, hb, hbkey, -, hbaccepted⟩ :=
    (hseen y hy).accepted hboth.2
  have hkey : b.key = a.key := by rw [hakey, hbkey, replayKey_congr hsame hproof hproof']
  have hle := hdeadline a ha b hb hkey haccepted hbaccepted
  rw [hadeadline, (hseen y hy).clock b hb] at hle
  rcases hgap hsame expires expires' ⟨proof, hproof, hexpires⟩ ⟨proof', hproof', hexpires'⟩ with
    hlt | hpast
  · exact absurd hle (not_le.mpr hlt)
  · exact absurd hwindow (not_lt.mpr hpast)

/-! ### Presentations of the note -/

/-- The cache's part in the verification of a document with a key of an anchor. -/
theorem serves_anchorTrace {store : ReplayStore} {p : Presentation} {s s' : store.State}
    {document : Record} {proof : OatiJwsProof} {policy : VerificationPolicy}
    {key : VerificationKey} {engine : Engine} {now : ℤ} {publicKey : ℕ}
    {signature input : List UInt8} {stored : Bool} {expiresAt : Option ℤ}
    (hexpires : dateParse engine proof.expires = expiresAt)
    (h : store.Step p s (replayKey proof policy) expiresAt now (.ok stored) s') :
    Serves store p s
      (anchorTrace document proof policy key engine now publicKey signature input stored) s' := by
  subst hexpires
  exact .other (by simp) <| .other (by simp) <| .other (by simp) <| .other (by simp) <|
    .other (by simp) <| .other (by simp) <| .other (by simp) <| .store h (.nil _)

/-- The note presented at an instant. -/
theorem exists_presentation (engine : Engine) (now : ℤ) (stored : Bool)
    (hstart : noteExpires - 60000 ≤ now) (hend : now < noteExpires + 30000) :
    ∃ p : Presentation, ∃ proof,
      Run (verifyDocument engine p.document p.policyNow) p.trace p.outcome ∧
      p.now = now ∧ p.servedAt = now ∧ p.policy = notePolicy now ∧ p.proof? = some proof ∧
      parseProof (note.lookup "proof") = .ok proof ∧ (p.Verified ↔ stored = true) ∧
      p.Expires engine noteExpires ∧
      ∀ store : ReplayStore, ∀ s s' : store.State,
        store.Step p s (replayKey proof p.policy) (some noteExpires) now (.ok stored) s' →
        Serves store p s p.trace s' := by
  obtain ⟨proof, input, hrun, hproof, hexpires⟩ := run_note engine now stored hstart hend
  refine ⟨⟨note, notePolicy now, now, now, _, _⟩, proof, hrun, rfl, rfl, rfl,
    Presentation.proof?_eq_some hproof, hproof, ?_,
    ⟨proof, Presentation.proof?_eq_some hproof, hexpires⟩, ?_⟩
  · constructor
    · rintro ⟨result, hresult, hverified⟩
      cases hresult
      cases stored
      · cases hverified
      · rfl
    · rintro rfl
      exact ⟨_, rfl, rfl⟩
  · intro store s s' h
    exact serves_anchorTrace hexpires h

theorem sameTriple_of_note {p q : Presentation} {x y : OatiJwsProof} (hp : p.proof? = some x)
    (hq : q.proof? = some y) (hx : parseProof (note.lookup "proof") = .ok x)
    (hy : parseProof (note.lookup "proof") = .ok y)
    (haudience : p.policy.expectedAudience = q.policy.expectedAudience) : p.SameTriple q := by
  obtain rfl : x = y := Except.ok.inj (hx.symm.trans hy)
  exact ⟨x, x, hp, hq, rfl, haudience, rfl⟩

/-- The note is verified twice: once before it expires, and once within the clock skew after. -/
theorem note_replayed : ∃ p q : Presentation, p.now ≤ q.now ∧ p.servedAt ≤ q.servedAt ∧
    0 ≤ p.policy.skew ∧ 0 ≤ q.policy.skew ∧ p.SameTriple q ∧ p.Verified ∧ q.Verified ∧
    (∃ s', Session plainEngine memoryStore [] [p, q] s') ∧
    ∃ s', Session plainEngine (valkeyStore id) (fun _ => none) [p, q] s' := by
  obtain ⟨p, x, hprun, hpnow, hpserved, hppolicy, hpproof, hx, hpverified, -, hpserves⟩ :=
    exists_presentation plainEngine (noteExpires - 1000) true (by decide) (by decide)
  obtain ⟨q, y, hqrun, hqnow, hqserved, hqpolicy, hqproof, hy, hqverified, -, hqserves⟩ :=
    exists_presentation plainEngine (noteExpires + 10000) true (by decide) (by decide)
  have haudience : p.policy.expectedAudience = q.policy.expectedAudience := by
    rw [hppolicy, hqpolicy]
    rfl
  have hsame := sameTriple_of_note hpproof hqproof hx hy haudience
  have hkey : replayKey x p.policy = replayKey y q.policy := replayKey_congr hsame hpproof hqproof
  refine ⟨p, q, by rw [hpnow, hqnow]; decide, by rw [hpserved, hqserved]; decide,
    by rw [hppolicy]; exact (by norm_num : (0 : ℚ) ≤ 30000),
    by rw [hqpolicy]; exact (by norm_num : (0 : ℚ) ≤ 30000), hsame, hpverified.mpr rfl,
    hqverified.mpr rfl, ?_, ?_⟩
  · refine ⟨_, .cons hprun (hpserves memoryStore [] [(replayKey x p.policy, some noteExpires)]
      ⟨rfl, rfl⟩) (.cons hqrun (hqserves memoryStore _ [(replayKey x p.policy, some noteExpires)] ?_)
        (.nil _))⟩
    have hstore : MemoryReplayCache.checkAndStore [(replayKey x p.policy, some noteExpires)]
        (replayKey x p.policy) (some noteExpires) (noteExpires + 10000)
        = (true, [(replayKey x p.policy, some noteExpires)]) := by
      simp [MemoryReplayCache.checkAndStore, MemoryReplayCache.set]
    rw [← hkey]
    exact ⟨(congrArg (Except.ok ∘ Prod.fst) hstore).symm, (congrArg Prod.snd hstore).symm⟩
  · -- the entry of the first presentation is gone when the proof expires
    have hfirst : Valkey.setNX (fun _ => none) (replayKey x p.policy)
        (replayTtl noteExpires (noteExpires - 1000)) p.servedAt
        = (true, Function.update (fun _ => none) (replayKey x p.policy) (some noteExpires)) := by
      rw [hpserved]
      rfl
    have hsecond : Valkey.setNX
        (Function.update (fun _ => none) (replayKey x p.policy) (some noteExpires))
        (replayKey y q.policy) (replayTtl noteExpires (noteExpires + 10000)) q.servedAt
        = (true, Function.update
          (Function.update (fun _ => none) (replayKey x p.policy) (some noteExpires))
          (replayKey y q.policy) (some (noteExpires + 10001))) := by
      rw [hqserved, ← hkey, Valkey.setNX, Function.update_self]
      rfl
    exact ⟨_, .cons hprun (hpserves (valkeyStore id) _ _ (ValkeyStep.of_setNX hfirst))
      (.cons hqrun (hqserves (valkeyStore id) _ _ (ValkeyStep.of_setNX hsecond)) (.nil _))⟩

/-! ### The two caches -/

/-- In every session without a presentation in a gap, no triple of verification method, audience
and nonce is verified twice. The in-memory cache keeps a key until `expires` has come by the time
of the policies; Valkey keeps it for the time to live, by its own time. -/
theorem replay_refused (engine : Engine) (keyOf : String → String) (ps : List Presentation) :
    (∀ s s', Session engine memoryStore s ps s' → ps.Pairwise (fun p q => p.now ≤ q.now) →
      ps.Pairwise (fun p q => p.SameTriple q →
        OutsideGap engine (fun p => p.now) (fun _ expires => expires) p q) →
      ps.Pairwise fun p q => p.SameTriple q → ¬ (p.Verified ∧ q.Verified)) ∧
    ∀ s s', Session engine (valkeyStore keyOf) s ps s' →
      ps.Pairwise (fun p q => p.servedAt ≤ q.servedAt) →
      ps.Pairwise (fun p q => p.SameTriple q → OutsideGap engine (fun p => p.servedAt)
        (fun p expires => p.servedAt + replayTtl expires p.now) p q) →
      ps.Pairwise fun p q => p.SameTriple q → ¬ (p.Verified ∧ q.Verified) :=
  ⟨fun _ _ h => h.verified_once memoryModel, fun _ _ h => h.verified_once (valkeyModel keyOf)⟩

/-- The note presented twice before it expires. -/
theorem replay_refused_note : ∃ p q : Presentation, p.SameTriple q ∧
    (∃ s', Session plainEngine memoryStore [] [p, q] s' ∧ ¬ (p.Verified ∧ q.Verified)) ∧
    ∃ s', Session plainEngine (valkeyStore id) (fun _ => none) [p, q] s' ∧
      ¬ (p.Verified ∧ q.Verified) := by
  obtain ⟨p, x, hprun, hpnow, hpserved, hppolicy, hpproof, hx, -, hpexpires, hpserves⟩ :=
    exists_presentation plainEngine (noteExpires - 2000) true (by decide) (by decide)
  obtain ⟨q, y, hqrun, hqnow, hqserved, hqpolicy, hqproof, hy, -, -, hqserves⟩ :=
    exists_presentation plainEngine (noteExpires - 1000) false (by decide) (by decide)
  have haudience : p.policy.expectedAudience = q.policy.expectedAudience := by
    rw [hppolicy, hqpolicy]
    rfl
  have hsame := sameTriple_of_note hpproof hqproof hx hy haudience
  have hkey : replayKey x p.policy = replayKey y q.policy := replayKey_congr hsame hpproof hqproof
  have hexpires : ∀ e, p.Expires plainEngine e → e = noteExpires := by
    rintro e ⟨proof, hproof, he⟩
    obtain ⟨proof', hproof', he'⟩ := hpexpires
    obtain rfl := Option.some.inj (hproof.symm.trans hproof')
    exact Option.some.inj (he.symm.trans he')
  have hmemory : ∃ s', Session plainEngine memoryStore [] [p, q] s' := by
    refine ⟨_, .cons hprun (hpserves memoryStore [] [(replayKey x p.policy, some noteExpires)]
      ⟨rfl, rfl⟩) (.cons hqrun (hqserves memoryStore _ [(replayKey x p.policy, some noteExpires)] ?_)
        (.nil _))⟩
    have hstore : MemoryReplayCache.checkAndStore [(replayKey x p.policy, some noteExpires)]
        (replayKey x p.policy) (some noteExpires) (noteExpires - 1000)
        = (false, [(replayKey x p.policy, some noteExpires)]) := by
      simp [MemoryReplayCache.checkAndStore]
    rw [← hkey]
    exact ⟨(congrArg (Except.ok ∘ Prod.fst) hstore).symm, (congrArg Prod.snd hstore).symm⟩
  have hvalkey : ∃ s', Session plainEngine (valkeyStore id) (fun _ => none) [p, q] s' := by
    have hfirst : Valkey.setNX (fun _ => none) (replayKey x p.policy)
        (replayTtl noteExpires (noteExpires - 2000)) p.servedAt
        = (true, Function.update (fun _ => none) (replayKey x p.policy) (some noteExpires)) := by
      rw [hpserved]
      rfl
    have hsecond : Valkey.setNX
        (Function.update (fun _ => none) (replayKey x p.policy) (some noteExpires))
        (replayKey y q.policy) (replayTtl noteExpires (noteExpires - 1000)) q.servedAt
        = (false, Function.update (fun _ => none) (replayKey x p.policy) (some noteExpires)) := by
      rw [hqserved, ← hkey, Valkey.setNX, Function.update_self]
      rfl
    exact ⟨_, .cons hprun (hpserves (valkeyStore id) _ _ (ValkeyStep.of_setNX hfirst))
      (.cons hqrun (hqserves (valkeyStore id) _ _ (ValkeyStep.of_setNX hsecond)) (.nil _))⟩
  obtain ⟨s, hs⟩ := hmemory
  obtain ⟨v, hv⟩ := hvalkey
  refine ⟨p, q, hsame, ⟨s, hs, ?_⟩, v, hv, ?_⟩
  · refine List.rel_of_pairwise_cons ((replay_refused plainEngine id [p, q]).1 _ _ hs ?_ ?_)
      (List.mem_singleton.mpr rfl) hsame
    · exact List.pairwise_pair.mpr (by rw [hpnow, hqnow]; decide)
    · refine List.pairwise_pair.mpr fun _ e e' he _ => .inl ?_
      rw [hexpires e he]
      show q.now < noteExpires
      rw [hqnow]
      decide
  · refine List.rel_of_pairwise_cons ((replay_refused plainEngine id [p, q]).2 _ _ hv ?_ ?_)
      (List.mem_singleton.mpr rfl) hsame
    · exact List.pairwise_pair.mpr (by rw [hpserved, hqserved]; decide)
    · refine List.pairwise_pair.mpr fun _ e e' he _ => .inl ?_
      rw [hexpires e he]
      show q.servedAt < p.servedAt + replayTtl noteExpires p.now
      rw [hqserved, hpserved, hpnow]
      decide

end Oati.TypeScript

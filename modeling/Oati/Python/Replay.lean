import Oati.Library.SeenKeys
import Oati.Python.Acceptance

/-!
# Verifications in Python that share a replay cache

As in Go, a `ReplayCache` forgets nothing. A verification that raises has not asked it, so over a
whole run (`verifies_after_iff`) a document is accepted exactly if it passes every other check and
no document before it that passed had a proof with the same key.
-/

namespace Oati.Python.Crypto

variable {runtime : Runtime}

/-- What one call of `verify_document` is given besides the cache. -/
structure Presentation where
  document : Dict
  bundle : Bundle
  audience : String
  now : String

namespace Presentation

variable {p : Presentation} {seen : ReplayCache}

/-- `verify_document` under a cache. -/
def verify (runtime : Runtime) (seen : ReplayCache) (p : Presentation) :
    Except Raised (List String × Option ReplayCache) :=
  verifyDocument runtime p.document p.bundle p.audience p.now (some seen)

/-- The list of codes is empty. -/
def Verified (runtime : Runtime) (seen : ReplayCache) (p : Presentation) : Prop :=
  ∃ replay, p.verify runtime seen = .ok ([], replay)

/-- The cache after the call, whether it returns or raises. -/
def cacheAfter (runtime : Runtime) (seen : ReplayCache) (p : Presentation) : ReplayCache :=
  (p.verify runtime seen).toOption.elim seen fun result => result.2.getD seen

/-- The key under which the cache keeps the proof. -/
def key (p : Presentation) : String :=
  replayKey ((get p.document "proof").members?.getD []) p.audience

/-- The document passes every check but that for replays. -/
def Passes (runtime : Runtime) (p : Presentation) : Prop :=
  ∃ proof key created expires current,
    Accepted runtime p.document p.bundle p.audience p.now proof key created expires current

/-- Of a document that passes, the cache decides. -/
theorem Passes.verify_eq (h : p.Passes runtime) :
    p.verify runtime seen = .ok (acceptOnce (some seen) p.key []) := by
  obtain ⟨proof, key, created, expires, current, haccepted⟩ := h
  have hproof : (get p.document "proof").members?.getD [] = proof := by
    rw [haccepted.proof_eq]
    rfl
  rw [Presentation.key, hproof]
  exact haccepted.verifyDocument_eq _

/-- The cache then has seen its key. -/
theorem Passes.cacheAfter_eq (h : p.Passes runtime) :
    p.cacheAfter runtime seen = seen.insert p.key := by
  unfold cacheAfter
  rw [h.verify_eq]
  by_cases hseen : p.key ∈ seen
  · rw [List.insert_of_mem hseen, acceptOnce, if_pos hseen]
    rfl
  · rw [List.insert_of_not_mem hseen, acceptOnce, if_neg hseen]
    rfl

/-- A document that does not pass is refused, and the cache stays as it is. -/
theorem verify_of_not_passes (h : ¬ p.Passes runtime) :
    ¬ p.Verified runtime seen ∧ p.cacheAfter runtime seen = seen := by
  unfold Verified cacheAfter
  cases hverify : p.verify runtime seen with
  | error raised =>
    refine ⟨?_, rfl⟩
    rintro ⟨_, hok⟩
    cases hok
  | ok result =>
    obtain ⟨codes, replay⟩ := result
    obtain ⟨hne, rfl⟩ := (verifyDocument_refused_or_accepted hverify).resolve_right h
    refine ⟨?_, rfl⟩
    rintro ⟨_, heq⟩
    exact hne (Prod.ext_iff.mp (Except.ok.inj heq)).1

/-- What a call does to the cache. -/
theorem remembers (runtime : Runtime) : SeenKeys.Remembers (Passes runtime) key
    (fun seen : ReplayCache => {k | k ∈ seen}) (Verified runtime) (cacheAfter runtime) where
  accepts_iff seen p := by
    by_cases h : p.Passes runtime
    · rw [Verified, h.verify_eq, and_iff_right h]
      by_cases hseen : p.key ∈ seen <;> simp [acceptOnce, hseen]
    · exact iff_of_false (verify_of_not_passes h).1 fun hpasses => h hpasses.1
  mem_step seen p k := by
    by_cases h : p.Passes runtime
    · rw [h.cacheAfter_eq]
      simp only [Set.mem_ofPred_eq, List.mem_insert_iff]
      exact ⟨fun hk => hk.symm.imp_right fun hk => ⟨h, hk.symm⟩,
        fun hk => hk.symm.imp_left fun hk => hk.2.symm⟩
    · rw [(verify_of_not_passes h).2]
      exact ⟨.inl, fun hk => hk.elim id fun hk => absurd hk.1 h⟩

end Presentation

/-- After any verifications under one cache that began empty, a document is accepted exactly if it
passes every other check and none of the earlier ones that passed had a proof with its key. -/
theorem verifies_after_iff (before : List Presentation) (p : Presentation) :
    p.Verified runtime (before.foldl (Presentation.cacheAfter runtime) []) ↔
      p.Passes runtime ∧ ∀ q ∈ before, q.Passes runtime → q.key ≠ p.key := by
  rw [(Presentation.remembers runtime).accepts_run_iff before]
  refine and_congr_right fun _ => ?_
  simp

end Oati.Python.Crypto

import Oati.Go.Acceptance
import Oati.Library.SeenKeys

/-!
# Verifications in Go that share a replay cache

A `ReplayCache` is asked by one verification after the other and forgets nothing. Over a whole run
(`accepts_after_iff`) a document is accepted exactly if it passes every other check and no document
before it that passed had a proof with the same key.
-/

namespace Oati.Go

variable {runtime : CryptoRuntime}

/-- What one call of `VerifyDocument` is given besides the cache. -/
structure Presentation where
  document : Object
  bundle : Object
  audience : String
  now : ℤ

namespace Presentation

variable {p : Presentation} {seen : ReplayCache}

/-- `VerifyDocument` under a cache. -/
def verify (runtime : CryptoRuntime) (seen : ReplayCache) (p : Presentation) :
    List String × Option ReplayCache :=
  verifyDocument runtime p.document p.bundle p.audience p.now (some seen)

/-- The cache after the call. -/
def cacheAfter (runtime : CryptoRuntime) (seen : ReplayCache) (p : Presentation) : ReplayCache :=
  (p.verify runtime seen).2.getD seen

/-- The key under which the cache keeps the proof. -/
def key (p : Presentation) : String :=
  replayKey ((object (p.document.lookup "proof")).getD []) p.audience

/-- The document passes every check but that for replays. -/
def Passes (runtime : CryptoRuntime) (p : Presentation) : Prop :=
  ∃ proof key created expires,
    Accepted runtime p.document p.bundle p.audience p.now proof key created expires

/-- Of a document that passes, the cache decides. -/
theorem Passes.verify_eq (h : p.Passes runtime) :
    p.verify runtime seen = acceptOnce (some seen) p.key [] := by
  obtain ⟨proof, key, created, expires, haccepted⟩ := h
  have hproof : (object (p.document.lookup "proof")).getD [] = proof := by
    rw [haccepted.proof_eq]
    rfl
  rw [Presentation.key, hproof]
  exact haccepted.verifyDocument_eq _

/-- The cache then has seen its key. -/
theorem Passes.cacheAfter_eq (h : p.Passes runtime) :
    p.cacheAfter runtime seen = seen.insert p.key := by
  unfold cacheAfter
  rw [h.verify_eq]
  by_cases hseen : p.key ∈ seen
  · rw [List.insert_of_mem hseen, acceptOnce, if_pos hseen]
    rfl
  · rw [List.insert_of_not_mem hseen, acceptOnce, if_neg hseen]
    rfl

/-- A document that does not pass is refused, and the cache stays as it is. -/
theorem verify_of_not_passes (h : ¬ p.Passes runtime) :
    (p.verify runtime seen).1 ≠ [] ∧ p.cacheAfter runtime seen = seen := by
  unfold cacheAfter
  cases hverify : p.verify runtime seen with
  | mk reasons replay =>
    obtain ⟨hne, rfl⟩ := (verifyDocument_refused_or_accepted hverify).resolve_right h
    exact ⟨hne, rfl⟩

/-- What a call does to the cache. -/
theorem remembers (runtime : CryptoRuntime) : SeenKeys.Remembers (Passes runtime) key
    (fun seen : ReplayCache => {k | k ∈ seen}) (fun seen p => (p.verify runtime seen).1 = [])
    (cacheAfter runtime) where
  accepts_iff seen p := by
    by_cases h : p.Passes runtime
    · rw [h.verify_eq, and_iff_right h]
      by_cases hseen : p.key ∈ seen <;> simp [acceptOnce, hseen]
    · exact iff_of_false (verify_of_not_passes h).1 fun hpasses => h hpasses.1
  mem_step seen p k := by
    by_cases h : p.Passes runtime
    · rw [h.cacheAfter_eq]
      simp only [Set.mem_ofPred_eq, List.mem_insert_iff]
      exact ⟨fun hk => hk.symm.imp_right fun hk => ⟨h, hk.symm⟩,
        fun hk => hk.symm.imp_left fun hk => hk.2.symm⟩
    · rw [(verify_of_not_passes h).2]
      exact ⟨.inl, fun hk => hk.elim id fun hk => absurd hk.1 h⟩

end Presentation

/-- After any verifications under one cache that began empty, a document is accepted exactly if it
passes every other check and none of the earlier ones that passed had a proof with its key. -/
theorem accepts_after_iff (before : List Presentation) (p : Presentation) :
    (p.verify runtime (before.foldl (Presentation.cacheAfter runtime) [])).1 = [] ↔
      p.Passes runtime ∧ ∀ q ∈ before, q.Passes runtime → q.key ≠ p.key := by
  rw [(Presentation.remembers runtime).accepts_run_iff before]
  refine and_congr_right fun _ => ?_
  simp

end Oati.Go

import Oati.Library.Walk
import Oati.Python.Verification

/-!
# What verification in Python accepts

An empty list of codes says that every check that was made added none (`Accepted`). The replay
cache only sees a proof without codes, so it is no part of this.
-/

namespace Oati.Python.Crypto

open Except

variable {runtime : Runtime}

theorem codeIf_eq_nil {condition : Bool} {code : String} :
    codeIf condition code = [] ↔ condition = false := by
  cases condition <;> simp [codeIf]

theorem sortedCodes_eq_nil {codes : List String} : sortedCodes codes = [] ↔ codes = [] := by
  unfold sortedCodes
  rw [← List.length_eq_zero_iff, List.length_insertionSort, List.length_eq_zero_iff]
  cases codes with
  | nil => simp
  | cons code codes =>
    have hmem : code ∈ (code :: codes).dedup := by simp
    exact iff_of_false (List.ne_nil_of_mem hmem) (List.cons_ne_nil _ _)

/-! ### The chain of issuers -/

section Chain

variable {bundle : Bundle} {current : DateTime}

/-- Nothing revokes the issuer. -/
def Clear (runtime : Runtime) (bundle : Bundle) (current : DateTime) (id : Value) : Prop :=
  checkTarget runtime bundle current id "ISSUER_REVOKED" = .ok []

/-- The issuer is an anchor. -/
def Anchored (bundle : Bundle) (id : Value) : Prop := inSet id bundle.trustAnchors = .ok true

/-- The parent of an issuer that is verified and open. -/
def parentOf (runtime : Runtime) (bundle : Bundle) (current : DateTime) (id : Value) :
    Option Value :=
  (bundle.issuers.find? fun item => equal (get item "id") id).bind fun issuer =>
    if hashable id = true ∧ issuer.isEmpty = false ∧ isVerified (get issuer "proof_status") = true ∧
        (match issuerClosed runtime issuer current with
          | .ok closed => !closed
          | .error _ => false) = true ∧ truthy (get issuer "parent") = true then
      some (get issuer "parent")
    else none

/-- The chain of issuers of a key: at most nine of them, to an anchor. -/
def IssuerPath (runtime : Runtime) (bundle : Bundle) (current : DateTime) (start : Value)
    (path : List Value) : Prop :=
  Walk.Path (Anchored bundle) (Clear runtime bundle current) (parentOf runtime bundle current)
    (fun a b => equal a b = true) 9 [] start path

theorem inSet_eq {v : Value} {names : List String} (h : hashable v = true) :
    inSet v names = .ok (names.any fun name => equal v (.str name)) := by
  cases v with
  | arr => cases h
  | obj => cases h
  | _ => rfl

theorem inSet_error {v : Value} {names : List String} (h : hashable v = false) :
    inSet v names = .error .typeError := by
  cases v with
  | arr => rfl
  | obj => rfl
  | _ => cases h

/-- One round of the walk. -/
theorem checkChain_succ {rounds : ℕ} {visited : List Value} {id : Value} :
    checkChain runtime bundle current (rounds + 1) visited id = .ok [] ↔
      Clear runtime bundle current id ∧ (∀ v ∈ visited, ¬ equal id v = true) ∧
        (Anchored bundle id ∨ ¬ Anchored bundle id ∧ ∃ parent,
          parentOf runtime bundle current id = some parent ∧
          checkChain runtime bundle current rounds (id :: visited) parent = .ok []) := by
  rw [checkChain, Anchored, parentOf]
  by_cases hhash : hashable id = true
  swap
  · rw [inSet_error (Bool.eq_false_iff.mpr hhash)]
    refine iff_of_false (by rintro ⟨⟩) ?_
    rintro ⟨-, -, h | ⟨-, parent, h, -⟩⟩
    · cases h
    · rw [Option.bind_eq_some_iff] at h
      obtain ⟨issuer, -, h⟩ := h
      rw [if_neg fun hc => hhash hc.1] at h
      cases h
  rw [inSet_eq hhash, ok_bind]
  by_cases hvisited : visited.any (equal id) = true
  · rw [if_pos hvisited]
    obtain ⟨v, hv, heq⟩ := List.any_eq_true.mp hvisited
    refine iff_of_false (by simp [pure, Except.pure]) fun h => h.2.1 v hv heq
  have hfresh : ∀ v ∈ visited, ¬ equal id v = true := fun v hv heq =>
    hvisited (List.any_eq_true.mpr ⟨v, hv, heq⟩)
  rw [if_neg hvisited]
  generalize (bundle.issuers.find? fun item => equal (get item "id") id) = found
  have hne : ∀ (codes : List String) (code : String),
      (pure (codes ++ [code]) : Except Raised (List String)) ≠ .ok [] := by
    intro codes code h
    exact absurd (Except.ok.inj h) (List.append_ne_nil_of_right_ne_nil _ (List.cons_ne_nil _ _))
  by_cases hanchor : (bundle.trustAnchors.any fun name => equal id (.str name)) = true
  · rw [hanchor]
    constructor
    · intro h
      obtain ⟨codes, hcodes, h⟩ := bind_ok_iff.mp h
      obtain rfl := Except.ok.inj h
      exact ⟨hcodes, hfresh, .inl rfl⟩
    · rintro ⟨hclear, -, -⟩
      rw [hclear]
      rfl
  rw [Bool.eq_false_iff.mpr hanchor]
  simp only [Bool.false_eq_true, if_false, Except.ok.injEq, not_false_eq_true, true_and, false_or]
  constructor
  · intro h
    obtain ⟨codes, hcodes, h⟩ := bind_ok_iff.mp h
    rcases found with _ | issuer
    · exact absurd h (hne _ _)
    dsimp only at h
    by_cases huntrusted : (issuer.isEmpty || !isVerified (get issuer "proof_status")) = true
    · rw [if_pos huntrusted] at h
      exact absurd h (hne _ _)
    rw [if_neg huntrusted] at h
    obtain ⟨closed, hclosed, h⟩ := bind_ok_iff.mp h
    by_cases hopen : closed = true
    · rw [if_pos hopen] at h
      exact absurd h (hne _ _)
    rw [if_neg hopen] at h
    by_cases hparent : (!truthy (get issuer "parent")) = true
    · rw [if_pos hparent] at h
      exact absurd h (hne _ _)
    rw [if_neg hparent] at h
    obtain ⟨rest, hrest, h⟩ := bind_ok_iff.mp h
    obtain ⟨rfl, rfl⟩ := List.append_eq_nil_iff.mp (Except.ok.inj h)
    refine ⟨hcodes, hfresh, get issuer "parent", ?_, hrest⟩
    rw [Bool.or_eq_true, not_or, Bool.not_eq_true, Bool.not_eq_true', Bool.not_eq_false] at huntrusted
    rw [Option.bind_some, hclosed]
    refine if_pos ⟨hhash, huntrusted.1, huntrusted.2, ?_, ?_⟩
    · simpa using hopen
    · simpa using hparent
  · rintro ⟨hclear, -, parent, hparent, hrest⟩
    rcases found with _ | issuer
    · cases hparent
    rw [Option.bind_some] at hparent
    split_ifs at hparent with hissuer
    obtain ⟨-, hempty, hverified, hopen, htruthy⟩ := hissuer
    obtain rfl := Option.some.inj hparent
    rcases hclosed : issuerClosed runtime issuer current with e | closed
    · rw [hclosed] at hopen
      cases hopen
    rw [hclosed] at hopen
    obtain rfl : closed = false := by simpa using hopen
    rw [hclear, ok_bind]
    dsimp only
    rw [hempty, hverified, hclosed, htruthy, hrest]
    rfl

/-- The chain adds no codes exactly along a path. -/
theorem checkChain_eq_nil {start : Value} :
    checkChain runtime bundle current 9 [] start = .ok [] ↔
      ∃ path, IssuerPath runtime bundle current start path := by
  have hwalk := @Walk.succeeds_iff Value (Anchored bundle) (Clear runtime bundle current)
    (parentOf runtime bundle current) (fun a b => equal a b = true)
    (fun rounds visited id => checkChain runtime bundle current rounds visited id = .ok [])
    (fun visited id => by rintro ⟨⟩) (fun _ _ _ _ => checkChain_succ)
  exact hwalk 9 [] start (by simp)

end Chain

/-! ### The checks -/

/-- The replay cache takes a proof only if there are no codes. -/
theorem acceptOnce_refused_or {replay replay' : Option ReplayCache} {key : String}
    {codes result : List String} (h : acceptOnce replay key codes = (result, replay')) :
    result ≠ [] ∧ replay' = replay ∨ codes = [] := by
  unfold acceptOnce at h
  split at h
  · exact .inr rfl
  · by_cases hcodes : codes = []
    · exact .inr hcodes
    · obtain ⟨hresult, hreplay⟩ := Prod.ext_iff.mp h
      exact .inl ⟨fun hnil => hcodes (sortedCodes_eq_nil.mp (hresult.trans hnil)), hreplay.symm⟩

/-- What the checks under a key establish if they add no codes. -/
structure KeyAccepted (runtime : Runtime) (document proof key : Dict) (bundle : Bundle)
    (created current : DateTime) : Prop where
  key_eq : checkKey runtime key proof created current = .ok []
  chain_eq : checkChain runtime bundle current 9 [] (get key "issuer") = .ok []
  revocations_eq : checkRevocations runtime bundle current (get key "id") (get key "issuer")
    (get document "id") = .ok []
  bound : foreignClaim document key = false
  signature_eq : signatureCodes runtime document proof key [] = []

theorem keyCodes_eq_nil {document proof key : Dict} {bundle : Bundle} {created current : DateTime} :
    keyCodes runtime document proof key bundle created current = .ok [] ↔
      KeyAccepted runtime document proof key bundle created current := by
  constructor
  · intro h
    obtain ⟨invalid, hkey, h⟩ := bind_ok_iff.mp h
    obtain ⟨chain, hchain, h⟩ := bind_ok_iff.mp h
    obtain ⟨revoked, hrevoked, h⟩ := bind_ok_iff.mp h
    obtain ⟨hcodes, hsignature⟩ := List.append_eq_nil_iff.mp (Except.ok.inj h)
    rw [hcodes] at hsignature
    simp only [List.append_eq_nil_iff, codeIf_eq_nil] at hcodes
    obtain ⟨⟨⟨rfl, rfl⟩, rfl⟩, hforeign⟩ := hcodes
    exact ⟨hkey, hchain, hrevoked, hforeign, hsignature⟩
  · intro h
    have hcodes : codeIf (foreignClaim document key) "KEY_INVALID" = [] := codeIf_eq_nil.mpr h.bound
    unfold keyCodes
    rw [h.key_eq, ok_bind, h.chain_eq, ok_bind, h.revocations_eq, ok_bind, hcodes]
    exact congrArg Except.ok h.signature_eq

/-- What a verification without codes has established. -/
structure Accepted (runtime : Runtime) (document : Dict) (bundle : Bundle) (audience now : String)
    (proof key : Dict) (created expires current : DateTime) : Prop where
  proof_eq : get document "proof" = .obj proof
  wellFormed : proofMalformed runtime proof = false
  now_eq : isoTime runtime now = some current
  created_eq : time runtime (get proof "created") = some created
  expires_eq : time runtime (get proof "expires") = some expires
  ordered : expires.atMost created = .ok false
  timely : checkTimes created expires current = .ok []
  heard : ((audiences (get proof "audience")).getD []).any (equal · (.str audience)) = true
  key_eq : findKey bundle proof = some key
  key_ne : key.isEmpty = false
  keyAccepted : KeyAccepted runtime document proof key bundle created current

theorem proofCodes_eq_nil {document proof : Dict} {bundle : Bundle} {audience : String}
    {created expires current : DateTime} :
    proofCodes runtime document proof bundle audience created expires current = .ok [] ↔
      checkTimes created expires current = .ok [] ∧
      ((audiences (get proof "audience")).getD []).any (equal · (.str audience)) = true ∧
      ∃ key, findKey bundle proof = some key ∧ key.isEmpty = false ∧
        KeyAccepted runtime document proof key bundle created current := by
  constructor
  · intro h
    obtain ⟨times, htimes, h⟩ := bind_ok_iff.mp h
    dsimp only at h
    split at h
    · simp [pure, Except.pure] at h
    next key hkey =>
      split_ifs at h with hempty
      · simp [pure, Except.pure] at h
      obtain ⟨codes, hcodes, h⟩ := bind_ok_iff.mp h
      obtain ⟨hfirst, rfl⟩ := List.append_eq_nil_iff.mp (Except.ok.inj h)
      obtain ⟨rfl, hforeign⟩ := List.append_eq_nil_iff.mp hfirst
      refine ⟨htimes, ?_, key, hkey, Bool.eq_false_iff.mpr hempty, keyCodes_eq_nil.mp hcodes⟩
      simpa using codeIf_eq_nil.mp hforeign
  · rintro ⟨htimes, hheard, key, hkey, hne, haccepted⟩
    unfold proofCodes
    rw [htimes, ok_bind, hkey, hheard]
    dsimp only
    rw [hne, keyCodes_eq_nil.mpr haccepted]
    rfl

/-- A verification that returns gives codes and leaves the replay cache as it is, unless there are
a proof and a key that pass every check. -/
theorem verifyDocument_refused_or_accepted {document : Dict} {bundle : Bundle}
    {audience now : String} {replay replay' : Option ReplayCache} {result : List String}
    (h : verifyDocument runtime document bundle audience now replay = .ok (result, replay')) :
    result ≠ [] ∧ replay' = replay ∨ ∃ proof key created expires current,
      Accepted runtime document bundle audience now proof key created expires current := by
  have hgiven : ∀ code, (.ok ([code], replay) : Except Raised _) = .ok (result, replay') →
      result ≠ [] ∧ replay' = replay := by
    rintro code heq
    cases heq
    exact ⟨List.cons_ne_nil _ _, rfl⟩
  unfold verifyDocument at h
  split at h
  · exact .inl (hgiven _ h)
  · next proof hproof =>
    split_ifs at h with hmalformed
    · exact .inl (hgiven _ h)
    split at h
    · cases h
    next current hcurrent =>
      split at h
      · next created expires hcreated hexpires =>
        obtain ⟨early, hearly, h⟩ := bind_ok_iff.mp h
        split_ifs at h with hbranch
        · exact .inl (hgiven _ h)
        obtain ⟨codes, hcodes, h⟩ := bind_ok_iff.mp h
        refine (acceptOnce_refused_or (Except.ok.inj h)).imp_right ?_
        rintro rfl
        obtain ⟨htimes, hheard, key, hkey, hne, haccepted⟩ := proofCodes_eq_nil.mp hcodes
        obtain rfl : early = false := Bool.eq_false_iff.mpr hbranch
        exact ⟨proof, key, created, expires, current, hproof, Bool.eq_false_iff.mpr hmalformed,
          hcurrent, hcreated, hexpires, hearly, htimes, hheard, hkey, hne, haccepted⟩
      · exact .inl (hgiven _ h)
  · exact .inl (hgiven _ h)

/-- A verification without codes has a proof and a key that pass every check. -/
theorem verifyDocument_accepted {document : Dict} {bundle : Bundle} {audience now : String}
    {replay replay' : Option ReplayCache}
    (h : verifyDocument runtime document bundle audience now replay = .ok ([], replay')) :
    ∃ proof key created expires current,
      Accepted runtime document bundle audience now proof key created expires current :=
  (verifyDocument_refused_or_accepted h).resolve_left fun hrefused => hrefused.1 rfl

/-- Under such a proof and key the replay cache decides. -/
theorem Accepted.verifyDocument_eq {document : Dict} {bundle : Bundle} {audience now : String}
    {proof key : Dict} {created expires current : DateTime}
    (h : Accepted runtime document bundle audience now proof key created expires current)
    (replay : Option ReplayCache) :
    verifyDocument runtime document bundle audience now replay
      = .ok (acceptOnce replay (replayKey proof audience) []) := by
  have hcodes : proofCodes runtime document proof bundle audience created expires current = .ok [] :=
    proofCodes_eq_nil.mpr ⟨h.timely, h.heard, key, h.key_eq, h.key_ne, h.keyAccepted⟩
  unfold verifyDocument
  rw [h.proof_eq]
  dsimp only
  rw [h.wellFormed, h.now_eq, h.created_eq, h.expires_eq]
  dsimp only
  rw [h.ordered, ok_bind, hcodes]
  rfl

/-- The replay cache has not seen the key. -/
def Unseen (replay : Option ReplayCache) (key : String) : Prop :=
  ∀ seen, replay = some seen → key ∉ seen

theorem acceptOnce_nil_iff {replay : Option ReplayCache} {key : String} :
    (∃ replay', acceptOnce replay key [] = ([], replay')) ↔ Unseen replay key := by
  cases replay with
  | none => exact iff_of_true ⟨none, rfl⟩ fun _ h => by cases h
  | some seen =>
    by_cases hseen : key ∈ seen
    · simp [acceptOnce, Unseen, hseen]
    · simp [acceptOnce, Unseen, hseen]

/-- The list of codes is empty exactly if every check passes and the proof is not replayed. -/
theorem verifyDocument_nil_iff {document : Dict} {bundle : Bundle} {audience now : String}
    {replay : Option ReplayCache} :
    (∃ replay', verifyDocument runtime document bundle audience now replay = .ok ([], replay')) ↔
      ∃ proof key created expires current,
        Accepted runtime document bundle audience now proof key created expires current ∧
        Unseen replay (replayKey proof audience) := by
  constructor
  · rintro ⟨replay', h⟩
    obtain ⟨proof, key, created, expires, current, haccepted⟩ := verifyDocument_accepted h
    rw [haccepted.verifyDocument_eq] at h
    exact ⟨proof, key, created, expires, current, haccepted,
      acceptOnce_nil_iff.mp ⟨replay', Except.ok.inj h⟩⟩
  · rintro ⟨proof, key, created, expires, current, haccepted, hunseen⟩
    obtain ⟨replay', hreplay⟩ := acceptOnce_nil_iff.mpr hunseen
    exact ⟨replay', by rw [haccepted.verifyDocument_eq, hreplay]⟩

end Oati.Python.Crypto

import Oati.Go.Crypto
import Oati.Library.Walk

/-!
# What verification in Go accepts

An empty list of reasons says that every check that was made gave none (`Accepted`). The replay
cache only sees a proof without reasons, so it is no part of this.
-/

namespace Oati.Go

open Oati.Cli (decodeString)
open Python.Crypto (splitDots)

variable {runtime : CryptoRuntime}

theorem reasonIf_eq_nil {condition : Bool} {code : String} :
    reasonIf condition code = [] ↔ condition = false := by
  cases condition <;> simp [reasonIf]

theorem sortStrings_dedup_eq_nil {reasons : List String} :
    sortStrings reasons.dedup = [] ↔ reasons = [] := by
  unfold sortStrings
  rw [← List.length_eq_zero_iff, List.length_insertionSort, List.length_eq_zero_iff]
  cases reasons with
  | nil => simp
  | cons code reasons =>
    have hmem : code ∈ (code :: reasons).dedup := by simp
    exact iff_of_false (List.ne_nil_of_mem hmem) (List.cons_ne_nil _ _)

/-! ### The chain of issuers -/

section Chain

variable {times : Runtime} {bundle : Object} {now : ℤ}

/-- Nothing revokes the issuer. -/
def Clear (times : Runtime) (bundle : Object) (now : ℤ) (id : String) : Prop :=
  checkTarget times bundle now id "ISSUER_REVOKED" = []

/-- The issuer of the bundle with an id. -/
def findIssuer (bundle : Object) (id : String) : Option Object :=
  ((match bundle.lookup "issuers" with
    | some (.arr items) => items
    | _ => []).find? fun raw => str (index (object (some raw)) "id") == id).bind
      fun raw => object (some raw)

/-- The parent of an issuer that is verified and open. -/
def parentOf (times : Runtime) (bundle : Object) (now : ℤ) (id : String) : Option String :=
  (findIssuer bundle id).bind fun issuer =>
    if (str (issuer.lookup "proof_status") = "" ∨ str (issuer.lookup "proof_status") = "verified") ∧
        issuerClosed times (some issuer) now = false ∧ str (issuer.lookup "parent") ≠ "" then
      some (str (issuer.lookup "parent"))
    else none

/-- The chain of issuers of a key: at most nine of them, to an anchor. -/
def IssuerPath (times : Runtime) (bundle : Object) (now : ℤ) (start : String) (path : List String) :
    Prop :=
  Walk.Path (· ∈ stringsFrom (bundle.lookup "trust_anchors")) (Clear times bundle now)
    (parentOf times bundle now) Eq 9 [] start path

/-- A round at an issuer that is new and no anchor. -/
theorem checkIssuerChain_round {rounds : ℕ} {visited : List String} {current : String}
    (hvisited : current ∉ visited)
    (hanchor : current ∉ stringsFrom (bundle.lookup "trust_anchors")) :
    checkIssuerChain times bundle now (rounds + 1) visited current =
      if (findIssuer bundle current).isNone
          || str (index (findIssuer bundle current) "proof_status") != ""
            && str (index (findIssuer bundle current) "proof_status") != "verified" then
        checkTarget times bundle now current "ISSUER_REVOKED" ++ ["ISSUER_NOT_TRUSTED"]
      else if issuerClosed times (findIssuer bundle current) now then
        checkTarget times bundle now current "ISSUER_REVOKED" ++ ["ISSUER_REVOKED"]
      else if str (index (findIssuer bundle current) "parent") = "" then
        checkTarget times bundle now current "ISSUER_REVOKED" ++ ["ISSUER_NOT_TRUSTED"]
      else checkTarget times bundle now current "ISSUER_REVOKED"
        ++ checkIssuerChain times bundle now rounds (current :: visited)
          (str (index (findIssuer bundle current) "parent")) := by
  rw [checkIssuerChain, if_neg (mt List.contains_iff_mem.mp hvisited),
    if_neg (mt List.contains_iff_mem.mp hanchor)]
  rfl

/-- One round of the walk. -/
theorem checkIssuerChain_succ {rounds : ℕ} {visited : List String} {current : String} :
    checkIssuerChain times bundle now (rounds + 1) visited current = [] ↔
      Clear times bundle now current ∧ current ∉ visited ∧
        (current ∈ stringsFrom (bundle.lookup "trust_anchors") ∨
          current ∉ stringsFrom (bundle.lookup "trust_anchors") ∧ ∃ parent,
            parentOf times bundle now current = some parent ∧
            checkIssuerChain times bundle now rounds (current :: visited) parent = []) := by
  rw [Clear, parentOf]
  by_cases hvisited : current ∈ visited
  · rw [checkIssuerChain, if_pos (List.contains_iff_mem.mpr hvisited)]
    exact iff_of_false (List.cons_ne_nil _ _) fun h => h.2.1 hvisited
  by_cases hanchor : current ∈ stringsFrom (bundle.lookup "trust_anchors")
  · rw [checkIssuerChain, if_neg (mt List.contains_iff_mem.mp hvisited),
      if_pos (List.contains_iff_mem.mpr hanchor)]
    exact ⟨fun h => ⟨h, hvisited, .inl hanchor⟩, fun h => h.1⟩
  rw [checkIssuerChain_round hvisited hanchor]
  generalize findIssuer bundle current = found
  simp only [hvisited, hanchor, not_false_eq_true, true_and, false_or]
  rcases found with _ | issuer
  · simp
  simp only [Option.isNone_some, Bool.false_or, index_some, Option.bind_some]
  by_cases hverified : str (issuer.lookup "proof_status") = "" ∨
      str (issuer.lookup "proof_status") = "verified"
  swap
  · have hunverified : (str (issuer.lookup "proof_status") != ""
        && str (issuer.lookup "proof_status") != "verified") = true := by
      simpa using hverified
    simp [hunverified, hverified]
  have hstatus : (str (issuer.lookup "proof_status") != ""
      && str (issuer.lookup "proof_status") != "verified") = false := by
    rw [Bool.and_eq_false_iff, bne_eq_false_iff_eq, bne_eq_false_iff_eq]
    exact hverified
  rw [hstatus]
  by_cases hclosed : issuerClosed times (some issuer) now = true
  · simp [hclosed]
  by_cases hparent : str (issuer.lookup "parent") = ""
  · simp [hclosed, hparent]
  · simp [hclosed, hparent, hverified]

/-- The chain gives no reasons exactly along a path. -/
theorem checkIssuerChain_eq_nil {start : String} :
    checkIssuerChain times bundle now 9 [] start = [] ↔
      ∃ path, IssuerPath times bundle now start path := by
  have hwalk := @Walk.succeeds_iff String (· ∈ stringsFrom (bundle.lookup "trust_anchors"))
    (Clear times bundle now) (parentOf times bundle now) Eq
    (fun rounds visited current => checkIssuerChain times bundle now rounds visited current = [])
    (fun visited current => List.cons_ne_nil _ _) ?_
  · exact hwalk 9 [] start (by simp)
  · intro rounds visited current _
    have hfresh : (∀ v ∈ visited, ¬ current = v) ↔ current ∉ visited :=
      ⟨fun h hmem => h current hmem rfl, fun h v hv heq => h (heq ▸ hv)⟩
    rw [checkIssuerChain_succ, hfresh]

end Chain

/-! ### The checks -/

/-- The replay cache takes a proof only if there are no reasons. -/
theorem acceptOnce_refused_or {replay replay' : Option ReplayCache} {key : String}
    {reasons codes : List String} (h : acceptOnce replay key reasons = (codes, replay')) :
    codes ≠ [] ∧ replay' = replay ∨ reasons = [] := by
  unfold acceptOnce at h
  split at h
  · exact .inr rfl
  · by_cases hreasons : reasons = []
    · exact .inr hreasons
    · obtain ⟨hcodes, hreplay⟩ := Prod.ext_iff.mp h
      exact .inl ⟨fun hnil => hreasons (sortStrings_dedup_eq_nil.mp (hcodes.trans hnil)),
        hreplay.symm⟩

/-- What the checks under a key establish if they give no reasons. -/
structure KeyAccepted (runtime : CryptoRuntime) (document proof key bundle : Object)
    (created now : ℤ) : Prop where
  key_eq : checkKeyConformance runtime.times key proof created now = []
  chain_eq : checkIssuerChain runtime.times bundle now 9 [] (str (key.lookup "issuer")) = []
  revocations_eq : checkBundleRevocations runtime.times bundle now (str (key.lookup "id"))
    (str (key.lookup "issuer")) (str (document.lookup "id")) = []
  bound : foreignClaim document key = false
  signed : verifyConformanceSignature runtime document proof key = true

theorem keyReasons_eq_nil {document proof key bundle : Object} {created now : ℤ} :
    keyReasons runtime document proof key bundle created now = [] ↔
      KeyAccepted runtime document proof key bundle created now := by
  constructor
  · intro h
    obtain ⟨hreasons, hsignature⟩ := List.append_eq_nil_iff.mp h
    rw [hreasons] at hsignature
    have hsigned := reasonIf_eq_nil.mp hsignature
    simp only [List.append_eq_nil_iff, reasonIf_eq_nil] at hreasons
    obtain ⟨⟨⟨hkey, hchain⟩, hrevoked⟩, hforeign⟩ := hreasons
    exact ⟨hkey, hchain, hrevoked, hforeign, by simpa using hsigned⟩
  · intro h
    have hreasons : reasonIf (foreignClaim document key) "KEY_INVALID" = [] :=
      reasonIf_eq_nil.mpr h.bound
    unfold keyReasons
    rw [h.key_eq, h.chain_eq, h.revocations_eq, hreasons, h.signed]
    rfl

/-- Where every step before it succeeds, the routine of the algorithm decides. -/
theorem verifyConformanceSignature_eq {document proof key fields : Object} {header encoded : List Char}
    {bytes signature : List UInt8} {payload : String}
    (hparts : splitDots (str (proof.lookup "signature")).toList = [header, encoded])
    (hbytes : decodeString header = some bytes)
    (hfields : runtime.primitives.unmarshal bytes = some fields)
    (hmatch : headerMatches fields proof = true) (hsignature : decodeString encoded = some signature)
    (hpayload : canonicalJSON runtime.digits ((Json.obj (unsigned document proof)).map .number)
      = .ok payload) :
    verifyConformanceSignature runtime document proof key
      = verifyRoutine runtime (str (proof.lookup "algorithm")) (object (key.lookup "public_key_jwk"))
        (Utf8.encode (header ++ '.' :: payload.toList)) signature := by
  unfold verifyConformanceSignature
  simp only [hparts, hbytes, Option.any_some, hfields, hmatch, Bool.true_and, hsignature, hpayload]

/-- What a verification without reasons has established. -/
structure Accepted (runtime : CryptoRuntime) (document bundle : Object) (audience : String)
    (now : ℤ) (proof key : Object) (created expires : ℤ) : Prop where
  proof_eq : document.lookup "proof" = some (.obj proof)
  wellFormed : validConformanceProof proof = true
  created_eq : parseTime runtime.times (str (proof.lookup "created")) = some created
  expires_eq : parseTime runtime.times (str (proof.lookup "expires")) = some expires
  ordered : created < expires
  timely : checkTimes created expires now = []
  heard : (audiences proof).contains audience = true
  key_eq : findKey bundle proof = some key
  keyAccepted : KeyAccepted runtime document proof key bundle created now

/-- A verification gives reasons and leaves the replay cache as it is, unless there are a proof and
a key that pass every check. -/
theorem verifyDocument_refused_or_accepted {document bundle : Object} {audience : String} {now : ℤ}
    {replay replay' : Option ReplayCache} {reasons : List String}
    (h : verifyDocument runtime document bundle audience now replay = (reasons, replay')) :
    reasons ≠ [] ∧ replay' = replay ∨ ∃ proof key created expires,
      Accepted runtime document bundle audience now proof key created expires := by
  have hgiven : ∀ code, (([code] : List String), replay) = (reasons, replay') →
      reasons ≠ [] ∧ replay' = replay := by
    rintro code heq
    cases heq
    exact ⟨List.cons_ne_nil _ _, rfl⟩
  unfold verifyDocument at h
  split at h
  · exact .inl (hgiven _ h)
  · exact .inl (hgiven _ h)
  · next proof hproof =>
    split_ifs at h with hmalformed
    · exact .inl (hgiven _ h)
    split at h
    · next created expires hcreated hexpires =>
      split_ifs at h with hordered
      · exact .inl (hgiven _ h)
      refine (acceptOnce_refused_or h).imp_right fun hreasons => ?_
      obtain ⟨hfirst, hkeyed⟩ := List.append_eq_nil_iff.mp hreasons
      obtain ⟨htimely, hheard⟩ := List.append_eq_nil_iff.mp hfirst
      split at hkeyed
      · cases hkeyed
      next key hkey =>
        exact ⟨proof, key, created, expires, hproof, by simpa using hmalformed, hcreated, hexpires,
          not_le.mp hordered, htimely, by simpa using reasonIf_eq_nil.mp hheard, hkey,
          keyReasons_eq_nil.mp hkeyed⟩
    · exact .inl (hgiven _ h)
  · exact .inl (hgiven _ h)

/-- A verification without reasons has a proof and a key that pass every check. -/
theorem verifyDocument_accepted {document bundle : Object} {audience : String} {now : ℤ}
    {replay replay' : Option ReplayCache}
    (h : verifyDocument runtime document bundle audience now replay = ([], replay')) :
    ∃ proof key created expires,
      Accepted runtime document bundle audience now proof key created expires :=
  (verifyDocument_refused_or_accepted h).resolve_left fun hrefused => hrefused.1 rfl

/-- The key of a proof in the replay cache. -/
def replayKey (proof : Object) (audience : String) : String :=
  str (proof.lookup "verification_method") ++ "\x00" ++ audience
    ++ "\x00" ++ str (proof.lookup "nonce")

/-- Under such a proof and key the replay cache decides. -/
theorem Accepted.verifyDocument_eq {document bundle : Object} {audience : String} {now : ℤ}
    {proof key : Object} {created expires : ℤ}
    (h : Accepted runtime document bundle audience now proof key created expires)
    (replay : Option ReplayCache) :
    verifyDocument runtime document bundle audience now replay
      = acceptOnce replay (replayKey proof audience) [] := by
  have hreasons : keyReasons runtime document proof key bundle created now = [] :=
    keyReasons_eq_nil.mpr h.keyAccepted
  unfold verifyDocument
  rw [h.proof_eq]
  dsimp only
  rw [h.wellFormed, h.created_eq, h.expires_eq]
  dsimp only
  rw [if_neg (not_le.mpr h.ordered), h.timely, h.heard, h.key_eq]
  dsimp only
  rw [hreasons]
  rfl

/-- The replay cache has not seen the key. -/
def Unseen (replay : Option ReplayCache) (key : String) : Prop :=
  ∀ seen, replay = some seen → key ∉ seen

theorem acceptOnce_nil_iff {replay : Option ReplayCache} {key : String} :
    (∃ replay', acceptOnce replay key [] = ([], replay')) ↔ Unseen replay key := by
  cases replay with
  | none => exact iff_of_true ⟨none, rfl⟩ fun _ h => by cases h
  | some seen =>
    by_cases hseen : key ∈ seen
    · simp [acceptOnce, Unseen, hseen]
    · simp [acceptOnce, Unseen, hseen]

/-- There are no reasons exactly if every check passes and the proof is not replayed. -/
theorem verifyDocument_nil_iff {document bundle : Object} {audience : String} {now : ℤ}
    {replay : Option ReplayCache} :
    (∃ replay', verifyDocument runtime document bundle audience now replay = ([], replay')) ↔
      ∃ proof key created expires,
        Accepted runtime document bundle audience now proof key created expires ∧
        Unseen replay (replayKey proof audience) := by
  constructor
  · rintro ⟨replay', h⟩
    obtain ⟨proof, key, created, expires, haccepted⟩ := verifyDocument_accepted h
    rw [haccepted.verifyDocument_eq] at h
    exact ⟨proof, key, created, expires, haccepted, acceptOnce_nil_iff.mp ⟨replay', h⟩⟩
  · rintro ⟨proof, key, created, expires, haccepted, hunseen⟩
    obtain ⟨replay', hreplay⟩ := acceptOnce_nil_iff.mpr hunseen
    exact ⟨replay', by rw [haccepted.verifyDocument_eq, hreplay]⟩

end Oati.Go

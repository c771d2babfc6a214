import Oati.Cli.Acceptance
import Oati.Conformance.DocumentTimes
import Oati.TypeScript.CryptoSpec

/-!
# The signer of an accepted document

A document names its signer as `issuer`, or without an issuer as `agent_id`, and the key of its
proof must be that signer's (`SignedFor`). The Go SDK and the command line take the member that is
a non-empty string. The TypeScript SDK takes an issuer that is any string and the Python SDK one
that is any value, so that an empty one claims nothing: the agent is then not looked at, and may be
foreign to the key.
-/

namespace Oati.Conformance

open Prog (Run)

variable {N : Type}

/-- A member that is a non-empty string. -/
def Names (document : List (String × Json N)) (member s : String) : Prop :=
  document.lookup member = some (.str s) ∧ s ≠ ""

/-- The key of the signers `signers` signs for the issuer of the document, or if it has none for its
agent. -/
structure SignedFor (signers : String → Prop) (document : List (String × Json N)) : Prop where
  issuer : ∀ s, Names document "issuer" s → signers s
  agent : (∀ s, ¬ Names document "issuer" s) → ∀ s, Names document "agent_id" s → signers s

/-- The agent of the document is not one of the signers. -/
def ForeignAgent (signers : String → Prop) (document : List (String × Json N)) : Prop :=
  ∃ s, Names document "agent_id" s ∧ ¬ signers s

variable {signers : String → Prop} {document : List (String × Json N)}

/-- A verifier that checks the issuer, and the agent unless some condition holds, binds the signer
exactly if that condition does not hide a foreign agent. -/
theorem signedFor_iff {hidden : Prop} (hissuer : ∀ s, Names document "issuer" s → signers s)
    (hagent : ¬ hidden → (∀ s, ¬ Names document "issuer" s) →
      ∀ s, Names document "agent_id" s → signers s)
    (hhidden : hidden → ∀ s, ¬ Names document "issuer" s) :
    SignedFor signers document ↔ ¬ (hidden ∧ ForeignAgent signers document) := by
  constructor
  · rintro h ⟨hh, s, hs, hforeign⟩
    exact hforeign (h.agent (hhidden hh) s hs)
  · intro h
    refine ⟨hissuer, fun hnone s hs => ?_⟩
    by_cases hh : hidden
    · by_contra hforeign
      exact h ⟨hh, s, hs, hforeign⟩
    · exact hagent hh hnone s hs

/-! ### The claims the verifiers check -/

/-- The TypeScript SDK takes the issuer if it is a string. -/
theorem typeScript_signedFor_iff {document : TypeScript.Record} {key : TypeScript.VerificationKey}
    (h : TypeScript.SignerBound document key) :
    SignedFor (fun s => s = key.controller ∨ s = key.issuer) document ↔
      ¬ (document.lookup "issuer" = some (.str "") ∧
        ForeignAgent (fun s => s = key.controller ∨ s = key.issuer) document) := by
  refine signedFor_iff ?_ ?_ ?_
  · rintro s ⟨hs, hne⟩
    refine h s ?_ hne
    rw [TypeScript.stringMember, hs]
    rfl
  · rintro hother hnone s ⟨hs, hne⟩
    refine h s ?_ hne
    have hissuer : TypeScript.stringMember document "issuer" = none := by
      rw [Option.eq_none_iff_forall_ne_some]
      intro issuer hissuer
      have hlookup := TypeScript.bind_string?_eq_some.mp hissuer
      by_cases hempty : issuer = ""
      · rw [hempty] at hlookup
        exact hother hlookup
      · exact hnone issuer ⟨hlookup, hempty⟩
    rw [hissuer, Option.none_or, TypeScript.stringMember, hs]
    rfl
  · rintro hempty s ⟨hs, hne⟩
    rw [hempty, Option.some.injEq, Json.str.injEq] at hs
    exact hne hs.symm

/-- A value that is one of two texts. -/
theorem equal_str_left {v : Python.Value} {s : String} :
    Python.equal (.str s) v = true ↔ v = .str s := by
  cases v with
  | str t =>
    rw [Json.str.injEq, @eq_comm _ t]
    exact beq_iff_eq (α := String)
  | _ => simp [Python.equal, Json.equalBy, Python.atomEqual, Python.numeric]

/-- The Python SDK takes the issuer if it is there. -/
theorem python_signedFor_iff {document key : Python.Dict}
    (h : Python.Crypto.foreignClaim document key = false) :
    SignedFor (fun s => key.lookup "controller" = some (.str s) ∨ key.lookup "issuer" = some (.str s))
        document ↔
      ¬ ((document.lookup "issuer" ≠ none ∧ ∀ s, ¬ Names document "issuer" s) ∧
        ForeignAgent (fun s => key.lookup "controller" = some (.str s) ∨
          key.lookup "issuer" = some (.str s)) document) := by
  have hget : ∀ name s, Python.Crypto.get key name = .str s → key.lookup name = some (.str s) := by
    intro name s hs
    unfold Python.Crypto.get at hs
    cases hlookup : key.lookup name with
    | none =>
      rw [hlookup] at hs
      cases hs
    | some v =>
      rw [hlookup, Option.getD_some] at hs
      rw [hs]
  have hclaimed : ∀ s, s ≠ "" →
      (document.lookup "issuer").getD (Python.Crypto.get document "agent_id") = .str s →
        key.lookup "controller" = some (.str s) ∨ key.lookup "issuer" = some (.str s) := by
    intro s hne hs
    unfold Python.Crypto.foreignClaim at h
    rw [hs] at h
    dsimp only at h
    have htruthy : Python.Crypto.truthy (.str s) = true := bne_iff_ne.mpr hne
    rw [htruthy, Bool.true_and, Bool.not_eq_false', Bool.or_eq_true, equal_str_left,
      equal_str_left] at h
    exact h.imp (hget _ s) (hget _ s)
  refine signedFor_iff ?_ ?_ fun hhidden => hhidden.2
  · rintro s ⟨hs, hne⟩
    refine hclaimed s hne ?_
    rw [hs]
    rfl
  · rintro hother hnone s ⟨hs, hne⟩
    have hissuer : document.lookup "issuer" = none := by
      by_contra hsome
      exact hother ⟨hsome, hnone⟩
    refine hclaimed s hne ?_
    rw [hissuer, Option.getD_none, Python.Crypto.get, hs]
    rfl

/-- The Go SDK and the command line take the first member that is a non-empty string. -/
theorem go_signedFor {document : Go.Object} {signers : String → Prop}
    (h : ∀ claimed, (if Go.str (document.lookup "issuer") = "" then Go.str (document.lookup "agent_id")
      else Go.str (document.lookup "issuer")) = claimed → claimed ≠ "" → signers claimed) :
    SignedFor signers document := by
  have hstr : ∀ name s, Names document name s → Go.str (document.lookup name) = s := by
    rintro name s ⟨hs, -⟩
    rw [hs]
    rfl
  refine ⟨fun s hs => h s ?_ hs.2, fun hnone s hs => h s ?_ hs.2⟩
  · rw [hstr "issuer" s hs, if_neg hs.2]
  · have hempty : Go.str (document.lookup "issuer") = "" := by
      by_contra hne
      refine hnone _ ⟨?_, hne⟩
      unfold Go.str at hne ⊢
      split
      · assumption
      · next hother =>
        split at hne
        · exact absurd ‹_› (hother _)
        · exact absurd rfl hne
    rw [if_pos hempty, hstr "agent_id" s hs]

/-! ### The four verifiers -/

/-- In every accepting run of the Go SDK and of the command line the key is the claimed signer's; in
one of the TypeScript SDK unless an empty issuer hides a foreign agent, in one of the Python SDK
unless an issuer that is no non-empty string does. -/
theorem accepted_signedFor (engine : TypeScript.Engine) (document : TypeScript.Record)
    (policy : TypeScript.VerificationPolicy) (trace : TypeScript.TrustTrace)
    (result : TypeScript.VerificationResult) :
    (Run (TypeScript.verifyDocument engine document policy) trace (.ok result) →
      result.verified = true →
      ∃ proof key now path,
        TypeScript.Acceptance engine document policy trace proof key now path ∧
        (SignedFor (fun s => s = key.controller ∨ s = key.issuer) document ↔
          ¬ (document.lookup "issuer" = some (.str "") ∧
            ForeignAgent (fun s => s = key.controller ∨ s = key.issuer) document))) ∧
    (∀ runtime document bundle audience now replay replay',
      Python.Crypto.verifyDocument runtime document bundle audience now replay
        = .ok ([], replay') →
      ∃ proof key, Python.Crypto.get document "proof" = .obj proof ∧
        Python.Crypto.findKey bundle proof = some key ∧
        (SignedFor (fun s => key.lookup "controller" = some (.str s) ∨
            key.lookup "issuer" = some (.str s)) document ↔
          ¬ ((document.lookup "issuer" ≠ none ∧ ∀ s, ¬ Names document "issuer" s) ∧
            ForeignAgent (fun s => key.lookup "controller" = some (.str s) ∨
              key.lookup "issuer" = some (.str s)) document))) ∧
    (∀ runtime document bundle audience now replay replay',
      Go.verifyDocument runtime document bundle audience now replay = ([], replay') →
      ∃ proof key, document.lookup "proof" = some (.obj proof) ∧
        Go.findKey bundle proof = some key ∧
        SignedFor (fun s => s = Go.str (key.lookup "controller") ∨
          s = Go.str (key.lookup "issuer")) document) ∧
    ∀ runtime value bundle audience now maxAge skew,
      (Cli.verifyObject runtime value bundle audience now maxAge skew).verified = true →
      ∃ p key, Cli.parseProof (value.lookup "proof") = .ok p ∧
        Cli.findKey bundle.keys p.verificationMethod = some key ∧
        SignedFor (fun s => s = key.controller ∨ s = key.issuer) value := by
  refine ⟨?_, ?_, ?_, ?_⟩
  · intro hrun hverified
    obtain ⟨proof, key, now, path, haccepted⟩ := TypeScript.verifyDocument_accepted hrun hverified
    exact ⟨proof, key, now, path, haccepted, typeScript_signedFor_iff haccepted.signerBound⟩
  · intro runtime document bundle audience now replay replay' h
    obtain ⟨proof, key, created, expires, current, haccepted⟩ :=
      Python.Crypto.verifyDocument_accepted h
    exact ⟨proof, key, haccepted.proof_eq, haccepted.key_eq,
      python_signedFor_iff haccepted.keyAccepted.bound⟩
  · intro runtime document bundle audience now replay replay' h
    obtain ⟨proof, key, created, expires, haccepted⟩ := Go.verifyDocument_accepted h
    refine ⟨proof, key, haccepted.proof_eq, haccepted.key_eq, go_signedFor ?_⟩
    rintro claimed rfl hne
    have hbound := haccepted.keyAccepted.bound
    unfold Go.foreignClaim at hbound
    by_contra hforeign
    simp_all
  · intro runtime value bundle audience now maxAge skew h
    obtain ⟨p, key, hverifies, hkey, hbound⟩ := Cli.verifyObject_verified h
    refine ⟨p, key, hverifies.1, hkey, go_signedFor ?_⟩
    rintro claimed rfl hne
    unfold Cli.foreignClaim Cli.claimedSigner at hbound
    by_contra hforeign
    simp_all

open TypeScript (plainEngine notePolicy noteExpires noteKey) in
/-- A run of each verifier that accepts. -/
theorem accepted_signedFor_samples :
    (∃ trace proof key now path,
      TypeScript.Acceptance plainEngine TypeScript.note (notePolicy noteExpires) trace proof key now
        path ∧
      (SignedFor (fun s => s = key.controller ∨ s = key.issuer) TypeScript.note ↔
        ¬ (TypeScript.note.lookup "issuer" = some (.str "") ∧
          ForeignAgent (fun s => s = key.controller ∨ s = key.issuer) TypeScript.note))) ∧
    (∃ proof key, Python.Crypto.get Python.Crypto.blankDocument "proof" = .obj proof ∧
      Python.Crypto.findKey Python.Crypto.blankBundle proof = some key) ∧
    (∃ proof key, lateDocument.lookup "proof" = some (.obj proof) ∧
      Go.findKey lateBundle proof = some key ∧
      SignedFor (fun s => s = Go.str (key.lookup "controller") ∨ s = Go.str (key.lookup "issuer"))
        lateDocument) ∧
    ∃ p key, Cli.parseProof ((Cli.sampleDocument "x").lookup "proof") = .ok p ∧
      Cli.findKey Cli.sampleBundle.keys p.verificationMethod = some key ∧
      SignedFor (fun s => s = key.controller ∨ s = key.issuer) (Cli.sampleDocument "x") := by
  obtain ⟨proof, input, hrun, -, -⟩ :=
    TypeScript.run_note plainEngine noteExpires true (by decide) (by decide)
  obtain ⟨htypeScript, hpython, hgo, hcli⟩ := accepted_signedFor _ _ _ _ _
  have haccepted := htypeScript hrun rfl
  obtain ⟨proof', key, hproof, hkey, -⟩ := hpython _ _ _ _ _ _ _
    Python.Crypto.verifyDocument_blank
  exact ⟨⟨_, haccepted⟩, ⟨proof', key, hproof, hkey⟩,
    hgo _ _ _ _ _ _ _ (accepted_late.verifyDocument_eq none),
    hcli _ _ _ _ _ _ _ (Cli.verifyObject_sample "x")⟩

/-! ### An empty issuer -/

/-- A document of nobody for an agent that the key does not know. -/
def emptyIssuerDocument : TypeScript.Record :=
  [("id", .str "oati:note:1"), ("issuer", .str ""), ("agent_id", .str "oati:agent:stranger"),
    ("proof", .obj TypeScript.noteProof)]

open TypeScript (plainEngine notePolicy noteExpires noteKey) in
/-- The TypeScript SDK accepts it. -/
theorem accepted_foreign_agent :
    ¬ ∀ engine document policy trace (result : TypeScript.VerificationResult),
      Run (TypeScript.verifyDocument engine document policy) trace (.ok result) →
      result.verified = true →
      ∃ proof key now path,
        TypeScript.Acceptance engine document policy trace proof key now path ∧
        SignedFor (fun s => s = key.controller ∨ s = key.issuer) document := by
  intro h
  have hage : TypeScript.minus noteExpires (noteExpires - 60000 : ℤ) = (60000 : ℤ) :=
    TypeScript.minus_natCast noteExpires 1785153600000 (by decide)
  have hmax : Double.round (300000 + 30000) = (330000 : ℤ) :=
    TypeScript.plus_natCast 300000 30000 (by decide)
  have hlike : TypeScript.SignedLikeNote plainEngine emptyIssuerDocument noteKey.controller none
      noteExpires := by
    refine ⟨rfl, by decide, ⟨?_, ?_⟩, ?_, ?_, _, rfl⟩
    · rintro s ⟨⟩
    · rintro s ⟨⟩
    · rw [hage, Option.getD_none, hmax]
      norm_num
    · rintro claimed ⟨⟩ hne
      exact absurd rfl hne
  obtain ⟨proof, input, hrun, -, -⟩ :=
    TypeScript.run_signedLikeNote hlike true (by decide) (by decide)
  obtain ⟨proof', key, now, path, haccepted, hsigned⟩ := h _ _ _ _ _ hrun rfl
  have hkey : key = noteKey := by
    have hresolved := haccepted.resolved
    simp only [TypeScript.anchorTrace, Prog.Answered, List.mem_cons, List.not_mem_nil, or_false,
      Prog.Event.mk.injEq, TypeScript.TrustCall.resolveKey.injEq, reduceCtorEq, false_and] at hresolved
    exact Option.some.inj (Except.ok.inj (eq_of_heq hresolved.2))
  have hforeign := hsigned.agent
    (by
      rintro s ⟨hs, hne⟩
      exact hne (Json.str.inj (Option.some.inj hs)).symm)
    "oati:agent:stranger" ⟨rfl, by decide⟩
  rw [hkey] at hforeign
  exact absurd hforeign (by decide)

end Oati.Conformance

import Oati.Library.Returns
import Oati.Python.Crypto

/-!
# When verification in Python returns

`verify_document` compares the times of the proof before it has checked that they carry an offset,
moves times by the clock skew, and looks for the id of the document in a set. Under a bundle of
entries as the schemas publish them and a time with an offset these are the ways in which an
exception leaves it (`Verifiable`); all other members of the document are read with care.
-/

namespace Oati.Python.Crypto

open Except

variable {runtime : Runtime}

/-! ### Times -/

namespace DateTime

/-- The time on a clock without offset, or on its own clock if the offset is not known. -/
def instant (t : DateTime) : ℤ := t.clock - t.offset.getD 0

variable {a b t u : DateTime} {δ : ℤ}

theorem sub_eq (h : a.aware = b.aware) : a.sub b = .ok (a.instant - b.instant) := by
  unfold sub instant
  unfold aware at h
  cases ha : a.offset <;> cases hb : b.offset <;> simp_all

theorem sub_returns_iff : (a.sub b).Returns ↔ a.aware = b.aware := by
  refine ⟨fun h => ?_, fun h => ⟨_, sub_eq h⟩⟩
  unfold sub at h
  unfold aware
  cases ha : a.offset <;> cases hb : b.offset <;> simp_all

theorem less_eq (h : a.aware = b.aware) : a.less b = .ok (decide (a.instant < b.instant)) := by
  rw [less, sub_eq h]
  simp [bind, Except.bind, pure, Except.pure, sub_neg]

theorem atMost_eq (h : a.aware = b.aware) : a.atMost b = .ok (decide (a.instant ≤ b.instant)) := by
  rw [atMost, sub_eq h]
  simp [bind, Except.bind, pure, Except.pure]

theorem less_returns_iff : (a.less b).Returns ↔ a.aware = b.aware :=
  returns_bind_pure.trans sub_returns_iff

theorem atMost_returns_iff : (a.atMost b).Returns ↔ a.aware = b.aware :=
  returns_bind_pure.trans sub_returns_iff

theorem shift_returns_iff :
    (t.shift δ).Returns ↔ 0 ≤ t.clock + δ ∧ t.clock + δ < maxTime := by
  unfold shift
  split_ifs with h
  · exact iff_of_true (returns_ok _) h
  · exact iff_of_false (not_returns_error _) h

/-- A time that is moved keeps its offset. -/
theorem of_shift (h : t.shift δ = .ok u) : u.aware = t.aware ∧ u.instant = t.instant + δ := by
  unfold shift at h
  split_ifs at h
  obtain rfl := Except.ok.inj h
  refine ⟨rfl, ?_⟩
  simp only [instant]
  omega

end DateTime

theorem isoTime_aware {s : String} {t : DateTime} (hformat : dateTimeFormat s = true)
    (h : isoTime runtime s = some t) : t.aware = true := by
  unfold isoTime at h
  cases hparse : Rfc3339.parse s with
  | none =>
    rw [hparse] at h
    exact runtime.time_aware s t h hformat
  | some f =>
    rw [hparse] at h
    dsimp only at h
    split_ifs at h
    obtain rfl := Option.some.inj h
    rfl

/-! ### Published bundles -/

/-- The members that are times have the format `date-time`. -/
def TimesPublished (d : Dict) (fields : List String) : Prop :=
  ∀ field ∈ fields, ∀ v, d.lookup field = some v → ∃ s, v = .str s ∧ dateTimeFormat s = true

/-- What the schemas promise of the members of a bundle that are read. -/
structure Bundle.Published (bundle : Bundle) : Prop where
  keyId : ∀ key ∈ bundle.keys, ∃ s, key.lookup "id" = some (.str s)
  keyIssuer : ∀ key ∈ bundle.keys, ∃ s, key.lookup "issuer" = some (.str s)
  publicKeyJwk : ∀ key ∈ bundle.keys, ∃ jwk, key.lookup "public_key_jwk" = some (.obj jwk)
  keyTimes : ∀ key ∈ bundle.keys, TimesPublished key ["valid_from", "valid_until", "revoked_at"]
  issuerParent : ∀ issuer ∈ bundle.issuers, ∀ v, issuer.lookup "parent" = some v → ∃ s, v = .str s
  issuerTimes : ∀ issuer ∈ bundle.issuers,
    TimesPublished issuer ["valid_from", "valid_until", "revoked_at"]
  revocationTimes : ∀ item ∈ bundle.revocations, TimesPublished item ["effective_at"]

theorem TimesPublished.aware {d : Dict} {fields : List String} (h : TimesPublished d fields)
    {field : String} (hfield : field ∈ fields) {t : DateTime}
    (ht : time runtime (get d field) = some t) : t.aware = true := by
  cases hlookup : d.lookup field with
  | none =>
    rw [get, hlookup] at ht
    cases ht
  | some v =>
    obtain ⟨s, rfl, hformat⟩ := h field hfield v hlookup
    rw [get, hlookup] at ht
    exact isoTime_aware hformat ht

/-- The value is a member of sets. -/
def hashable : Value → Bool
  | .arr _ => false
  | .obj _ => false
  | _ => true

theorem inSet_returns_iff {v : Value} {names : List String} :
    (inSet v names).Returns ↔ hashable v = true := by
  cases v <;> simp [inSet, hashable]

/-! ### The checks -/

section Checks

variable {created expires current : DateTime}

/-- The clock skew around the time stays within the years 1 to 9999. -/
def Margin (current : DateTime) : Prop :=
  skew ≤ current.clock ∧ current.clock + skew < maxTime

theorem shift_back_returns_iff {t : DateTime} :
    (t.shift (-skew)).Returns ↔ skew ≤ t.clock := by
  have hrange := t.inRange
  have hskew : 0 < skew := by decide
  rw [DateTime.shift_returns_iff]
  omega

theorem shift_forth_returns_iff {t : DateTime} :
    (t.shift skew).Returns ↔ t.clock + skew < maxTime := by
  have hrange := t.inRange
  have hskew : 0 < skew := by decide
  rw [DateTime.shift_returns_iff]
  omega

theorem not_returns_bind {α β : Type} {x : Except Raised α} {f : α → Except Raised β}
    (h : ¬ x.Returns) : ¬ (x >>= f).Returns := by
  cases x with
  | error e => exact not_returns_error e
  | ok a => exact absurd (returns_ok a) h

theorem checkTimes_returns_iff (hcurrent : current.aware = true)
    (hsame : created.aware = expires.aware) :
    (checkTimes created expires current).Returns ↔ Margin current ∧ created.aware = true := by
  unfold checkTimes
  cases hlow : current.shift (-skew) with
  | error e =>
    have hmargin : ¬ skew ≤ current.clock := by
      rw [← shift_back_returns_iff, hlow]
      exact not_returns_error e
    exact iff_of_false (not_returns_error e) fun h => hmargin h.1.1
  | ok low =>
    have hlower : skew ≤ current.clock := shift_back_returns_iff.mp ⟨low, hlow⟩
    have hlowaware : low.aware = true := (DateTime.of_shift hlow).1.trans hcurrent
    by_cases haware : created.aware = true
    · have hexpired := DateTime.atMost_eq ((hsame.symm.trans haware).trans hlowaware.symm)
      have hage := DateTime.sub_eq (hcurrent.trans haware.symm)
      rw [ok_bind, hexpired, ok_bind, hage]
      cases hhigh : current.shift skew with
      | error e =>
        have hmargin : ¬ current.clock + skew < maxTime := by
          rw [← shift_forth_returns_iff, hhigh]
          exact not_returns_error e
        exact iff_of_false (not_returns_error e) fun h => hmargin h.1.2
      | ok high =>
        have hupper : current.clock + skew < maxTime := shift_forth_returns_iff.mp ⟨high, hhigh⟩
        have hearly := DateTime.less_eq
          (((DateTime.of_shift hhigh).1.trans hcurrent).trans haware.symm)
        refine iff_of_true ?_ ⟨⟨hlower, hupper⟩, haware⟩
        change (high.less created >>= _).Returns
        rw [hearly]
        exact returns_pure _
    · refine iff_of_false ?_ fun h => haware h.2
      rw [ok_bind]
      refine not_returns_bind fun h => haware ?_
      rw [hsame, DateTime.atMost_returns_iff.mp h, hlowaware]

/-- Moving the times of the key by the clock skew stays within the years 1 to 9999, as far as the
check goes. -/
def PeriodInRange (runtime : Runtime) (key : Dict) (created : DateTime) : Prop :=
  ∀ validFrom, time runtime (get key "valid_from") = some validFrom →
    skew ≤ validFrom.clock ∧
    (validFrom.instant - skew ≤ created.instant →
      ∀ validUntil, time runtime (get key "valid_until") = some validUntil →
        validUntil.clock + skew < maxTime)

theorem revokedAt_returns {d : Dict} {fields : List String} (h : TimesPublished d fields)
    {field : String} (hfield : field ∈ fields) (hcurrent : current.aware = true) :
    (revokedAt runtime (get d field) current).Returns := by
  unfold revokedAt
  cases ht : time runtime (get d field) with
  | none => exact returns_ok _
  | some revoked => exact DateTime.atMost_returns_iff.mpr ((h.aware hfield ht).trans hcurrent.symm)

/-- A time of the published format is not the empty string. -/
theorem TimesPublished.truthy {d : Dict} {fields : List String} (h : TimesPublished d fields)
    {field : String} (hfield : field ∈ fields) {t : DateTime}
    (ht : time runtime (get d field) = some t) : truthy (get d field) = true := by
  cases hlookup : d.lookup field with
  | none =>
    rw [get, hlookup] at ht
    cases ht
  | some v =>
    obtain ⟨s, rfl, hformat⟩ := h field hfield v hlookup
    have hne : s ≠ "" := by
      rintro rfl
      cases hformat
    rw [get, hlookup]
    exact bne_iff_ne.mpr hne

theorem outsidePeriod_returns_iff {key : Dict}
    (hkey : TimesPublished key ["valid_from", "valid_until", "revoked_at"])
    (hcreated : created.aware = true) :
    (outsidePeriod runtime key created).Returns ↔ PeriodInRange runtime key created := by
  unfold outsidePeriod PeriodInRange
  cases hfrom : time runtime (get key "valid_from") with
  | none => exact iff_of_true (returns_ok _) fun validFrom h =>
      absurd h.symm (Option.some_ne_none validFrom)
  | some validFrom =>
    have hfromAware : validFrom.aware = true := hkey.aware (by decide) hfrom
    simp only [Option.some.injEq, forall_eq']
    cases hstart : validFrom.shift (-skew) with
    | error e =>
      have hclock : ¬ skew ≤ validFrom.clock := by
        rw [← shift_back_returns_iff, hstart]
        exact not_returns_error e
      exact iff_of_false (not_returns_error e) fun h => hclock h.1
    | ok start =>
      have hclock : skew ≤ validFrom.clock := shift_back_returns_iff.mp ⟨start, hstart⟩
      obtain ⟨hstartAware, hinstant⟩ := DateTime.of_shift hstart
      have hbefore := DateTime.less_eq (hcreated.trans (hstartAware.trans hfromAware).symm)
      rw [ok_bind, hbefore, ok_bind, and_iff_right hclock]
      by_cases hearly : created.instant < start.instant
      · rw [decide_eq_true hearly]
        exact iff_of_true (returns_ok _) fun hlate => by omega
      · rw [decide_eq_false hearly]
        have hlate : validFrom.instant - skew ≤ created.instant := by omega
        rw [forall_prop_of_true hlate]
        cases huntil : time runtime (get key "valid_until") with
        | none =>
          refine iff_of_true ?_ fun validUntil h =>
            absurd h.symm (Option.some_ne_none validUntil)
          cases truthy (get key "valid_until") <;> exact returns_ok _
        | some validUntil =>
          have htruthy := hkey.truthy (by decide) huntil
          have huntilAware : validUntil.aware = true := hkey.aware (by decide) huntil
          simp only [Option.some.injEq, forall_eq', htruthy]
          change (validUntil.shift skew >>= fun stop => stop.atMost created).Returns ↔ _
          rw [returns_bind_iff (P := True) fun stop hstop => iff_true_intro
            (DateTime.atMost_returns_iff.mpr
              (((DateTime.of_shift hstop).1.trans huntilAware).trans hcreated.symm)), and_true,
            shift_forth_returns_iff]

theorem wrongJwk_returns (algorithm : Value) (jwk : Dict) :
    (wrongJwk algorithm (.obj jwk)).Returns := by
  unfold wrongJwk
  split_ifs
  · exact returns_map.mpr (returns_ok _)
  · exact returns_map.mpr (returns_ok _)
  · exact returns_ok _

theorem checkKey_returns_iff {bundle : Bundle} (hbundle : bundle.Published) {key proof : Dict}
    (hkey : key ∈ bundle.keys) (hcreated : created.aware = true) (hcurrent : current.aware = true) :
    (checkKey runtime key proof created current).Returns ↔ PeriodInRange runtime key created := by
  obtain ⟨jwk, hjwk⟩ := hbundle.publicKeyJwk key hkey
  have hrevoked : (revokedAt runtime (get key "revoked_at") current).Returns :=
    revokedAt_returns (hbundle.keyTimes key hkey) (by decide) hcurrent
  unfold checkKey
  rw [hjwk, Option.getD_some]
  refine (returns_bind_iff (P := PeriodInRange runtime key created) fun wrong _ => ?_).trans
    (and_iff_right (wrongJwk_returns _ jwk))
  refine (returns_bind_iff (P := True) fun outside _ => iff_true_intro ?_).trans
    ((and_iff_left trivial).trans
      (outsidePeriod_returns_iff (hbundle.keyTimes key hkey) hcreated))
  dsimp only
  split_ifs
  · exact returns_ok _
  · exact returns_bind_pure.mpr hrevoked

theorem issuerClosed_returns {issuer : Dict}
    (hissuer : TimesPublished issuer ["valid_from", "valid_until", "revoked_at"])
    (hcurrent : current.aware = true) (hmargin : Margin current) :
    (issuerClosed runtime issuer current).Returns := by
  obtain ⟨revoked, hrevoked⟩ : (revokedAt runtime (get issuer "revoked_at") current).Returns :=
    revokedAt_returns hissuer (by decide) hcurrent
  obtain ⟨high, hhigh⟩ := shift_forth_returns_iff.mpr hmargin.2
  obtain ⟨low, hlow⟩ := shift_back_returns_iff.mpr hmargin.1
  have hhighAware := (DateTime.of_shift hhigh).1.trans hcurrent
  have hlowAware := (DateTime.of_shift hlow).1.trans hcurrent
  have hlate : ∀ {validUntil}, time runtime (get issuer "valid_until") = some validUntil →
      (current.shift (-skew) >>= fun start => validUntil.atMost start).Returns := by
    intro validUntil huntil
    rw [hlow, ok_bind]
    exact DateTime.atMost_returns_iff.mpr ((hissuer.aware (by decide) huntil).trans hlowAware.symm)
  unfold issuerClosed
  dsimp only
  split_ifs with hclosed
  · exact returns_ok _
  · rw [hrevoked, ok_bind]
    cases revoked with
    | true => exact returns_pure _
    | false =>
      rw [if_neg Bool.false_ne_true]
      cases hfrom : time runtime (get issuer "valid_from") with
      | none =>
        dsimp only
        rw [ok_bind, if_neg Bool.false_ne_true]
        cases huntil : time runtime (get issuer "valid_until") with
        | none => exact returns_ok _
        | some validUntil => exact hlate huntil
      | some validFrom =>
        have haware := hhighAware.trans (hissuer.aware (by decide) hfrom).symm
        dsimp only
        rw [hhigh, ok_bind, DateTime.less_eq haware, ok_bind]
        split_ifs with hearly
        · exact returns_pure _
        · cases huntil : time runtime (get issuer "valid_until") with
          | none => exact returns_ok _
          | some validUntil => exact hlate huntil

/-- A target is looked up in a set if it is not empty. -/
def Lookable (target : Value) : Prop := truthy target = true → hashable target = true

theorem checkTarget_returns_iff {bundle : Bundle} (hbundle : bundle.Published) {target : Value}
    {result : String} (hcurrent : current.aware = true) :
    (checkTarget runtime bundle current target result).Returns ↔ Lookable target := by
  unfold checkTarget Lookable
  cases htruthy : truthy target with
  | false => exact iff_of_true (returns_ok _) fun h => absurd h Bool.false_ne_true
  | true =>
    rw [forall_prop_of_true rfl, ← @inSet_returns_iff _ bundle.unavailableTargets]
    refine (returns_bind_iff (P := True) fun unavailable _ => iff_true_intro ?_).trans
      (and_iff_left trivial)
    cases unavailable with
    | true => exact returns_pure _
    | false =>
      rw [if_neg Bool.false_ne_true]
      generalize hitems : bundle.revocations.filter (fun item => equal (get item "target") target)
        = items
      match items, hitems with
      | [], _ => exact returns_ok _
      | [item], hitems =>
        have hitem : item ∈ bundle.revocations :=
          List.mem_of_mem_filter (hitems ▸ List.mem_singleton_self item)
        dsimp only
        split_ifs
        · exact returns_ok _
        · cases heffective : time runtime (get item "effective_at") with
          | none => exact returns_ok _
          | some effective =>
            have haware := (hbundle.revocationTimes item hitem).aware (by decide) heffective
            exact returns_bind_pure.mpr
              (DateTime.less_returns_iff.mpr (hcurrent.trans haware.symm))
      | _ :: _ :: _, _ => exact returns_ok _

theorem lookable_str (s : String) : Lookable (.str s) := fun _ => rfl

theorem checkTarget_returns_str {bundle : Bundle} (hbundle : bundle.Published) (s : String)
    {result : String} (hcurrent : current.aware = true) :
    (checkTarget runtime bundle current (.str s) result).Returns :=
  (checkTarget_returns_iff hbundle hcurrent).mpr (lookable_str s)

/-- The parent of a published issuer is missing or a string. -/
theorem Bundle.Published.parent_str {bundle : Bundle} (hbundle : bundle.Published) {issuer : Dict}
    (hissuer : issuer ∈ bundle.issuers) (h : truthy (get issuer "parent") = true) :
    ∃ s, get issuer "parent" = .str s := by
  cases hlookup : issuer.lookup "parent" with
  | none =>
    rw [get, hlookup] at h
    cases h
  | some v =>
    obtain ⟨s, rfl⟩ := hbundle.issuerParent issuer hissuer v hlookup
    exact ⟨s, by rw [get, hlookup, Option.getD_some]⟩

theorem checkChain_returns {bundle : Bundle} (hbundle : bundle.Published)
    (hcurrent : current.aware = true) (hmargin : Margin current) :
    ∀ (rounds : ℕ) (visited : List Value) (s : String),
      (checkChain runtime bundle current rounds visited (.str s)).Returns
  | 0, _, _ => returns_ok _
  | rounds + 1, visited, s => by
    obtain ⟨anchored, hanchored⟩ : (inSet (.str s) bundle.trustAnchors).Returns :=
      inSet_returns_iff.mpr rfl
    obtain ⟨revocationCodes, hcodes⟩ :
        (checkTarget runtime bundle current (.str s) "ISSUER_REVOKED").Returns :=
      checkTarget_returns_str hbundle s hcurrent
    unfold checkChain
    dsimp only
    rw [hanchored, ok_bind, hcodes, ok_bind]
    split_ifs
    · exact returns_pure _
    · exact returns_pure _
    cases hfind : bundle.issuers.find? fun item => equal (get item "id") (.str s) with
    | none => exact returns_pure _
    | some issuer =>
      have hissuer : issuer ∈ bundle.issuers := List.mem_of_find?_eq_some hfind
      obtain ⟨closed, hclosed⟩ : (issuerClosed runtime issuer current).Returns :=
        issuerClosed_returns (hbundle.issuerTimes issuer hissuer) hcurrent hmargin
      dsimp only
      rw [hclosed, ok_bind]
      split_ifs with hunverified hshut hparent
      · exact returns_pure _
      · exact returns_pure _
      · exact returns_pure _
      · obtain ⟨parent, hstr⟩ := hbundle.parent_str hissuer (by simpa using hparent)
        rw [hstr]
        exact returns_bind_pure.mpr
          (checkChain_returns hbundle hcurrent hmargin rounds (.str s :: visited) parent)

theorem keyCodes_returns_iff {bundle : Bundle} (hbundle : bundle.Published)
    {document key proof : Dict} (hkey : key ∈ bundle.keys) (hcreated : created.aware = true)
    (hcurrent : current.aware = true) (hmargin : Margin current) :
    (keyCodes runtime document proof key bundle created current).Returns
      ↔ PeriodInRange runtime key created ∧ Lookable (get document "id") := by
  obtain ⟨id, hid⟩ := hbundle.keyId key hkey
  obtain ⟨issuer, hissuer⟩ := hbundle.keyIssuer key hkey
  obtain ⟨keyRevoked, hkeyRevoked⟩ :
      (checkTarget runtime bundle current (.str id) "KEY_REVOKED").Returns :=
    checkTarget_returns_str hbundle id hcurrent
  obtain ⟨issuerRevoked, hissuerRevoked⟩ :
      (checkTarget runtime bundle current (.str issuer) "ISSUER_REVOKED").Returns :=
    checkTarget_returns_str hbundle issuer hcurrent
  obtain ⟨chain, hchain⟩ : (checkChain runtime bundle current 9 [] (.str issuer)).Returns :=
    checkChain_returns hbundle hcurrent hmargin 9 [] issuer
  have hidValue : get key "id" = .str id := by rw [get, hid, Option.getD_some]
  have hissuerValue : get key "issuer" = .str issuer := by rw [get, hissuer, Option.getD_some]
  unfold keyCodes checkRevocations
  rw [hidValue, hissuerValue, hchain, hkeyRevoked, hissuerRevoked]
  refine (returns_bind_iff (P := Lookable (get document "id")) fun invalid _ => ?_).trans
    (and_congr_left' (checkKey_returns_iff hbundle hkey hcreated hcurrent))
  simp only [ok_bind, bind_assoc]
  refine (returns_bind_iff (P := True) fun revoked _ => iff_true_intro ?_).trans
    ((and_iff_left trivial).trans (checkTarget_returns_iff hbundle hcurrent))
  exact returns_pure _

end Checks

/-! ### `verify_document` -/

/-- The checks under the key of the proof raise no exception: no time of the key is moved out of
the calendar, and the id of the document is looked up. -/
def KeyComputable (runtime : Runtime) (document proof : Dict) (bundle : Bundle)
    (created : DateTime) : Prop :=
  ∀ key, findKey bundle proof = some key →
    PeriodInRange runtime key created ∧ Lookable (get document "id")

/-- The times of a proof are compared without a surprise: both carry an offset or neither does.
If they are in order they carry one, and now is not at the edge of the calendar. -/
def Computable (runtime : Runtime) (document proof : Dict) (bundle : Bundle)
    (created expires current : DateTime) : Prop :=
  created.aware = expires.aware ∧
    (created.instant < expires.instant →
      (Margin current ∧ created.aware = true) ∧ KeyComputable runtime document proof bundle created)

/-- Every proof of the document that is well formed has times that are compared without a
surprise. -/
def Verifiable (runtime : Runtime) (document : Dict) (bundle : Bundle) (current : DateTime) :
    Prop :=
  ∀ proof, get document "proof" = .obj proof → proofMalformed runtime proof = false →
    ∀ created, time runtime (get proof "created") = some created →
      ∀ expires, time runtime (get proof "expires") = some expires →
        Computable runtime document proof bundle created expires current

section Document

variable {document proof : Dict} {bundle : Bundle} {audience now : String}
  {replay : Option ReplayCache} {created expires current : DateTime}

theorem Bundle.Published.ne_nil (hbundle : bundle.Published) {key : Dict}
    (hkey : key ∈ bundle.keys) : key.isEmpty = false := by
  obtain ⟨id, hid⟩ := hbundle.keyId key hkey
  cases key with
  | nil => cases hid
  | cons => rfl

theorem proofCodes_returns_iff (hbundle : bundle.Published) (hcurrent : current.aware = true)
    (hsame : created.aware = expires.aware) :
    (proofCodes runtime document proof bundle audience created expires current).Returns ↔
      (Margin current ∧ created.aware = true) ∧
        KeyComputable runtime document proof bundle created := by
  unfold proofCodes
  rw [← checkTimes_returns_iff hcurrent hsame]
  refine returns_bind_iff fun times htimes => ?_
  obtain ⟨hmargin, hcreated⟩ := (checkTimes_returns_iff hcurrent hsame).mp ⟨times, htimes⟩
  unfold KeyComputable
  dsimp only
  cases hfind : findKey bundle proof with
  | none => exact iff_of_true (returns_pure _) fun key h => absurd h.symm (Option.some_ne_none key)
  | some key =>
    have hkey : key ∈ bundle.keys := List.mem_of_find?_eq_some hfind
    dsimp only
    rw [if_neg (by simp [hbundle.ne_nil hkey])]
    simp only [Option.some.injEq, forall_eq']
    exact returns_bind_pure.trans
      (keyCodes_returns_iff hbundle hkey hcreated hcurrent hmargin)

theorem computable_iff_returns (hbundle : bundle.Published) (hcurrent : current.aware = true) :
    (do
      if ← expires.atMost created then return (["PROOF_MALFORMED"], replay)
      let codes ← proofCodes runtime document proof bundle audience created expires current
      return acceptOnce replay (replayKey proof audience) codes : Except Raised _).Returns
      ↔ Computable runtime document proof bundle created expires current := by
  unfold Computable
  by_cases hsame : created.aware = expires.aware
  · have hcodes :
        (proofCodes runtime document proof bundle audience created expires current).Returns ↔ _ :=
      proofCodes_returns_iff hbundle hcurrent hsame
    rw [DateTime.atMost_eq hsame.symm, ok_bind, and_iff_right hsame, ← hcodes]
    by_cases horder : created.instant < expires.instant
    · rw [decide_eq_false horder.not_ge, forall_prop_of_true horder]
      exact returns_bind_pure
    · rw [decide_eq_true (not_lt.mp horder)]
      exact iff_of_true (returns_pure _) fun h => absurd h horder
  · refine iff_of_false (not_returns_bind fun h => hsame ?_) fun h => hsame h.1
    exact (DateTime.atMost_returns_iff.mp h).symm

/-- `verify_document` returns, under a published bundle at a time with an offset, exactly for the
documents without a surprise. -/
theorem verifyDocument_returns_iff (hbundle : bundle.Published)
    (hnow : isoTime runtime now = some current) (hcurrent : current.aware = true) :
    (∃ result, verifyDocument runtime document bundle audience now replay = .ok result)
      ↔ Verifiable runtime document bundle current := by
  unfold verifyDocument Verifiable
  cases hproof : get document "proof" with
  | obj proof =>
    simp only [Json.obj.injEq, forall_eq']
    cases hmalformed : proofMalformed runtime proof with
    | true => exact iff_of_true (returns_ok _) fun h => absurd h.symm Bool.false_ne_true
    | false =>
      rw [if_neg Bool.false_ne_true, hnow, forall_prop_of_true rfl]
      cases hcreated : time runtime (get proof "created") with
      | none =>
        exact iff_of_true (returns_ok _) fun created h =>
          absurd h.symm (Option.some_ne_none created)
      | some created =>
        cases hexpires : time runtime (get proof "expires") with
        | none =>
          exact iff_of_true (returns_ok _) fun _ _ expires h =>
            absurd h.symm (Option.some_ne_none expires)
        | some expires =>
          simp only [Option.some.injEq, forall_eq']
          exact computable_iff_returns hbundle hcurrent
  | _ => exact iff_of_true (returns_ok _) fun proof h => by cases h

end Document

/-! ### A time without an offset -/

/-- Noon of 2026-07-27 on a clock without an offset. -/
def naiveNoon : DateTime where
  clock := (1785153600 + 719162 * 86400) * 1000000
  offset := none
  inRange := by decide

/-- A standard library that reads one date-time outside the notation of RFC 3339. -/
def naiveRuntime : Runtime where
  time s := if s = "2026-07-27T12:00:00" then some naiveNoon else none
  time_aware s t ht hformat := by
    split_ifs at ht with hs
    subst hs
    exact absurd hformat (by decide)
  isAlnum _ := false
  digits _ := { significand := 0, point := 0 }
  otherEncoding _ := none
  sha256 _ := []
  sha512 _ := []

/-- A key of a bundle. -/
def bundleKey : Dict :=
  [("id", .str "did:web:bank#key-1"), ("issuer", .str "did:web:bank"), ("algorithm", .str "EdDSA"),
    ("status", .str "active"), ("valid_from", .str "2026-01-01T00:00:00Z"),
    ("public_key_jwk", .obj [("kty", .str "OKP"), ("crv", .str "Ed25519")])]

/-- A bundle with one key. -/
def keyBundle : Bundle where
  keys := [bundleKey]
  issuers := []
  revocations := []
  trustAnchors := ["did:web:bank"]
  unavailableTargets := []

theorem keyBundle_published : keyBundle.Published where
  keyId key hkey := by
    rw [List.mem_singleton.mp hkey]
    exact ⟨_, rfl⟩
  keyIssuer key hkey := by
    rw [List.mem_singleton.mp hkey]
    exact ⟨_, rfl⟩
  publicKeyJwk key hkey := by
    rw [List.mem_singleton.mp hkey]
    exact ⟨_, rfl⟩
  keyTimes key hkey := by
    rw [List.mem_singleton.mp hkey]
    intro field hfield v hv
    simp only [List.mem_cons, List.not_mem_nil, or_false] at hfield
    rcases hfield with rfl | rfl | rfl
    · obtain rfl := Option.some.inj hv
      exact ⟨_, rfl, by decide⟩
    · cases hv
    · cases hv
  issuerParent issuer hissuer := absurd hissuer List.not_mem_nil
  issuerTimes issuer hissuer := absurd hissuer List.not_mem_nil
  revocationTimes item hitem := absurd hitem List.not_mem_nil

/-- A document whose proof was created at a time without an offset. -/
def naiveDocument : Dict :=
  [("id", .str "urn:oati:mandate:1"),
    ("proof", .obj [("type", .str "OatiJwsProof2026"), ("cryptosuite", .str "eddsa-jcs-2022"),
      ("algorithm", .str "EdDSA"), ("created", .str "2026-07-27T12:00:00"),
      ("expires", .str "2026-07-27T12:05:00Z"), ("verification_method", .str "did:web:bank#key-1"),
      ("proof_purpose", .str "assertionMethod"), ("audience", .str "api"),
      ("nonce", .str "0123456789abcdef"), ("signature", .str "e30..AA")])]

theorem verifyDocument_returns_iff_noon : ∃ current,
    isoTime naiveRuntime "2026-07-27T12:01:00Z" = some current ∧
      ((∃ result, verifyDocument naiveRuntime naiveDocument keyBundle "api" "2026-07-27T12:01:00Z"
          none = .ok result) ↔ Verifiable naiveRuntime naiveDocument keyBundle current) :=
  ⟨_, rfl, verifyDocument_returns_iff keyBundle_published rfl rfl⟩

theorem verifyDocument_raises : ¬ ∀ (runtime : Runtime) (document : Dict) (bundle : Bundle)
    (audience now : String) (replay : Option ReplayCache) (current : DateTime),
    bundle.Published → isoTime runtime now = some current → current.aware = true →
      ∃ result, verifyDocument runtime document bundle audience now replay = .ok result := by
  intro h
  obtain ⟨result, hresult⟩ := h naiveRuntime naiveDocument keyBundle "api" "2026-07-27T12:01:00Z"
    none _ keyBundle_published rfl rfl
  have hraised : verifyDocument naiveRuntime naiveDocument keyBundle "api" "2026-07-27T12:01:00Z"
      none = .error .typeError := rfl
  rw [hraised] at hresult
  cases hresult

end Oati.Python.Crypto

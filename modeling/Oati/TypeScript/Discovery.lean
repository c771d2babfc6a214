import Oati.Library.Returns
import Oati.TypeScript.CanonicalSpec
import Oati.TypeScript.Lookup

/-!
# The discovery of an organisation

`discoverOrganisation` asks the resolvers in their order and takes the first answer. What
`fetchDiscovery` gave for each of them is a parameter, and so are the times that the clock shows
for each record and the published schemas of the documents.

* `OrganisationDiscovery.Belongs`: what a caller wants of the result.
* `HomeRecord`: what it rests on. A record names its organisation twice, but nothing compares it
  with the one that was asked for, and a date that cannot be read has not passed.
* `discovery_belongs_iff`: the result is as wanted exactly if the records of the answer are these.
-/

namespace Oati.TypeScript

open Except (bind_ok_iff ok_bind)

/-- A record with the document it carries. -/
structure DiscoveredRecord where
  record : Record
  document : Record

/-- `OrganisationDiscovery`. -/
structure OrganisationDiscovery where
  organisationId : String
  services : List DiscoveredRecord
  profiles : List DiscoveredRecord

/-- `validateSchema` on the documents of services and profiles. -/
abbrev DiscoverySchemas := OatiRecordType → Record → Bool

/-- `throw new OatiLookupError("LOOKUP_INVALID_RESPONSE", message)`. -/
def invalidDiscovery (message : String) : LookupThrown :=
  .lookup { code := .lookupInvalidResponse, message }

/-- `JSON.parse(value.public_attributes.document!)`. -/
def documentOf (engine : Engine) (value : Option Value) : Except JsError Value :=
  jsonParse engine (optionText engine (get (get value "public_attributes") "document")).toList

/-- `Date.parse(value) <= now`; a date that cannot be read is not. -/
def datePassed (engine : Engine) (value : String) (now : ℤ) : Bool :=
  (dateParse engine value).any fun time => time ≤ now

/-- The record or its document has expired, by the times of the clock for each. -/
def discoveryExpired (engine : Engine) (record document : Record) (now : ℤ × ℤ) : Bool :=
  (truthy (record.lookup "expires_at")
      && datePassed engine (optionText engine (record.lookup "expires_at")) now.1)
    || ((document.lookup "expires_at").bind Json.string?).any fun text =>
      datePassed engine text now.2

/-- The record is of the type, active and verified. -/
def isTrustedRecord (type : OatiRecordType) (record : Record) : Bool :=
  hasType record type && strictEq (record.lookup "status") (some (.str "active"))
    && strictEq (record.lookup "proof_status") (some (.str "verified"))

/-- The document is that of the record, and active. -/
def isDocumentOf (record document : Record) : Bool :=
  strictEq (document.lookup "id") (record.lookup "id")
    && strictEq (document.lookup "organisation_id") (record.lookup "organisation_id")
    && strictEq (document.lookup "issuer") (record.lookup "issuer")
    && strictEq (document.lookup "status") (some (.str "active"))

/-- `decodeDiscoveryRecord`. -/
def decodeDiscoveryRecord (engine : Engine) (schemas : DiscoverySchemas) (type : OatiRecordType)
    (now : ℤ × ℤ) (value : Value) : Except LookupThrown DiscoveredRecord :=
  match isPublicRecord engine (some value) with
  | none => .error (invalidDiscovery "Discovery contains an untrusted record")
  | some record =>
    if !isTrustedRecord type record then
      .error (invalidDiscovery "Discovery contains an untrusted record")
    else match documentOf engine (some (.obj record)) with
      | .error error => .error (.other error)
      | .ok (.obj document) =>
        if !isDocumentOf record document then
          .error (invalidDiscovery "Discovery document does not match its public record")
        else if !schemas type document then
          .error (invalidDiscovery "Discovery document does not satisfy its published schema")
        else if discoveryExpired engine record document now then
          .error (invalidDiscovery "Discovery contains an expired record")
        else .ok { record, document }
      | .ok _ => .error (invalidDiscovery "Discovery document does not match its public record")

/-- The records of a list, where the first one is the `i`-th of the answer. -/
def decodeDiscoveryRecords (engine : Engine) (schemas : DiscoverySchemas) (type : OatiRecordType)
    (clock : ℕ → ℤ × ℤ) : ℕ → List Value → Except LookupThrown (List DiscoveredRecord)
  | _, [] => .ok []
  | i, value :: rest => do
    let first ← decodeDiscoveryRecord engine schemas type (clock i) value
    let others ← decodeDiscoveryRecords engine schemas type clock (i + 1) rest
    return first :: others

/-- The loop over the resolvers: the first payload, or the last error that may be tried again. -/
def firstPayload : Option OatiLookupError → List (Except LookupThrown Value) →
    Except LookupThrown Value
  | lastError, [] => .error (.lookup (lastError.getD
      { code := .lookupUnavailable, message := "No OATI discovery resolver was available" }))
  | _, .ok payload :: _ => .ok payload
  | _, .error (.other error) :: _ => .error (.other error)
  | _, .error (.lookup error) :: rest =>
    if retryable error then firstPayload (some error) rest else .error (.lookup error)

/-- The lists of a payload for the organisation. -/
def discoveryLists (organisationId : String) (payload : Value) :
    Option (List Value × List Value) :=
  match payload.member "organisation_id", payload.member "services", payload.member "profiles" with
  | some (.str id), some (.arr services), some (.arr profiles) =>
    if id = organisationId then some (services, profiles) else none
  | _, _, _ => none

/-- What a loop over `document.accepted_profiles` goes through. -/
def acceptedProfiles (document : Record) : Except LookupThrown (List Value) :=
  match document.lookup "accepted_profiles" with
  | some (.arr items) => .ok items
  | some (.str text) => .ok (text.toList.map fun c => .str (String.singleton c))
  | _ => .error (.other (.typeError "document.accepted_profiles is not iterable"))

/-- The check that the profiles of the services are published. -/
def checkAcceptedProfiles (engine : Engine) (profiles : List DiscoveredRecord) :
    List DiscoveredRecord → Except LookupThrown Unit
  | [] => .ok ()
  | service :: rest => do
    let accepted ← acceptedProfiles service.document
    match accepted.find? fun item =>
        !profiles.any fun profile => strictEq (profile.record.lookup "id") (some item) with
    | some item => .error (invalidDiscovery
        ("Discovery service references unpublished profile " ++ text engine item))
    | none => checkAcceptedProfiles engine profiles rest

/-- `discoverOrganisation`. -/
def discoverOrganisation (engine : Engine) (schemas : DiscoverySchemas) (clock : ℕ → ℤ × ℤ)
    (answers : List (Except LookupThrown Value)) (organisationId : String) :
    Except LookupThrown OrganisationDiscovery :=
  if !startsWith organisationId "oati:org:" then
    .error (.lookup { code := .lookupBadRequest
                      message := "A valid OATI organisation id is required" })
  else do
    let payload ← firstPayload none answers
    match discoveryLists organisationId payload with
    | none => .error (invalidDiscovery "Resolver returned an invalid discovery response")
    | some (services, profiles) => do
      let services' ← decodeDiscoveryRecords engine schemas .service clock 0 services
      let profiles' ← decodeDiscoveryRecords engine schemas .profile clock services.length profiles
      checkAcceptedProfiles engine profiles' services'
      return { organisationId, services := services', profiles := profiles' }

/-! ### What the result is to be -/

section Belongs

variable (engine : Engine) (organisationId : String)

/-- The date, if there is one, has been read and comes after the time. -/
def NotPassed (value : String) (now : ℤ) : Prop :=
  ∃ time, dateParse engine value = some time ∧ now < time

/-- An active, verified and unexpired record of the type, with its document, of the
organisation. -/
structure DiscoveredRecord.Belongs (type : OatiRecordType) (now : ℤ × ℤ) (d : DiscoveredRecord) :
    Prop where
  organisation : d.record.lookup "organisation_id" = some (.str organisationId)
  documentOrganisation : d.document.lookup "organisation_id" = some (.str organisationId)
  trusted : isTrustedRecord type d.record = true
  documentActive : d.document.lookup "status" = some (.str "active")
  id : d.document.lookup "id" = d.record.lookup "id"
  issuer : d.document.lookup "issuer" = d.record.lookup "issuer"
  unexpired : truthy (d.record.lookup "expires_at") = true →
    NotPassed engine (optionText engine (d.record.lookup "expires_at")) now.1
  documentUnexpired : ∀ text, d.document.lookup "expires_at" = some (.str text) →
    NotPassed engine text now.2

/-- The records are those of the organisation, each at a time that the clock showed, and the
services accept published profiles. -/
structure OrganisationDiscovery.Belongs (clock : ℕ → ℤ × ℤ) (d : OrganisationDiscovery) :
    Prop where
  services : ∀ r ∈ d.services, ∃ i, r.Belongs engine organisationId .service (clock i)
  profiles : ∀ r ∈ d.profiles, ∃ i, r.Belongs engine organisationId .profile (clock i)
  published : ∀ service ∈ d.services, ∀ items,
    service.document.lookup "accepted_profiles" = some (.arr items) →
      ∀ item ∈ items, ∃ profile ∈ d.profiles, profile.record.lookup "id" = some item

/-- The record names the organisation, and the dates of its expiry and of its document's can be
read. -/
structure HomeRecord (value : Value) : Prop where
  organisation : value.member "organisation_id" = some (.str organisationId)
  dated : truthy (value.member "expires_at") = true →
    (dateParse engine (optionText engine (value.member "expires_at"))).isSome = true
  documentDated : ∀ document text, documentOf engine (some value) = .ok document →
    document.member "expires_at" = some (.str text) → (dateParse engine text).isSome = true

end Belongs

variable {engine : Engine} {schemas : DiscoverySchemas} {clock : ℕ → ℤ × ℤ}
  {organisationId : String} {type : OatiRecordType}

/-! ### Records -/

theorem notPassed_iff {value : String} {now : ℤ} (h : datePassed engine value now = false) :
    NotPassed engine value now ↔ (dateParse engine value).isSome = true := by
  unfold NotPassed
  unfold datePassed at h
  cases hparse : dateParse engine value with
  | none => simp
  | some time =>
    rw [hparse] at h
    simpa using h

theorem isPublicRecord_eq_some {value : Value} {record : Record}
    (h : isPublicRecord engine (some value) = some record) : value = .obj record := by
  unfold isPublicRecord at h
  split at h
  · next hvalue =>
    split at h
    · split_ifs at h
      rw [Option.some.inj hvalue, Option.some.inj h]
    · cases h
  · cases h

/-- What a record that is decoded has passed. -/
structure Decoded (engine : Engine) (type : OatiRecordType) (now : ℤ × ℤ) (value : Value)
    (d : DiscoveredRecord) : Prop where
  value_eq : value = .obj d.record
  trusted : isTrustedRecord type d.record = true
  document_eq : documentOf engine (some value) = .ok (.obj d.document)
  matches_eq : isDocumentOf d.record d.document = true
  live : discoveryExpired engine d.record d.document now = false

theorem decodeDiscoveryRecord_eq_ok {now : ℤ × ℤ} {value : Value} {d : DiscoveredRecord}
    (h : decodeDiscoveryRecord engine schemas type now value = .ok d) :
    Decoded engine type now value d := by
  unfold decodeDiscoveryRecord at h
  split at h
  · cases h
  next record hrecord =>
    obtain rfl := isPublicRecord_eq_some hrecord
    split_ifs at h with htrusted
    split at h
    · cases h
    · next document hdocument =>
      split_ifs at h with hmatches hschema hexpired
      cases h
      exact ⟨rfl, by simpa using htrusted, hdocument, by simpa using hmatches,
        Bool.eq_false_iff.mpr hexpired⟩
    · cases h

theorem decodeDiscoveryRecord_of {now : ℤ × ℤ} {value : Value} {record document : Record}
    (hrecord : isPublicRecord engine (some value) = some record)
    (htrusted : isTrustedRecord type record = true)
    (hdocument : documentOf engine (some (.obj record)) = .ok (.obj document))
    (hmatches : isDocumentOf record document = true) (hschema : schemas type document = true)
    (hlive : discoveryExpired engine record document now = false) :
    decodeDiscoveryRecord engine schemas type now value = .ok { record, document } := by
  unfold decodeDiscoveryRecord
  rw [hrecord]
  dsimp only
  rw [htrusted, hdocument]
  dsimp only
  rw [hmatches, hschema, hlive]
  rfl

theorem NotPassed.isSome {value : String} {now : ℤ} (h : NotPassed engine value now) :
    (dateParse engine value).isSome = true := by
  obtain ⟨time, htime, -⟩ := h
  rw [htime]
  rfl

/-- A decoded record that belongs to the organisation is one of its own. -/
theorem Decoded.home {now now' : ℤ × ℤ} {value : Value} {d : DiscoveredRecord}
    (h : Decoded engine type now value d) (hbelongs : d.Belongs engine organisationId type now') :
    HomeRecord engine organisationId value := by
  obtain ⟨rfl, -, hdocument, -, -⟩ := h
  refine ⟨hbelongs.organisation, fun ht => (hbelongs.unexpired ht).isSome, ?_⟩
  intro document text hparse ht
  obtain rfl := Except.ok.inj (hdocument.symm.trans hparse)
  exact (hbelongs.documentUnexpired text ht).isSome

/-- A decoded record of the organisation's own belongs to it. -/
theorem Decoded.belongs {now : ℤ × ℤ} {value : Value} {d : DiscoveredRecord}
    (h : Decoded engine type now value d) (hhome : HomeRecord engine organisationId value) :
    d.Belongs engine organisationId type now := by
  obtain ⟨rfl, htrusted, hdocument, hmatches, hlive⟩ := h
  simp only [isDocumentOf, Bool.and_eq_true] at hmatches
  obtain ⟨⟨⟨hid, horganisation⟩, hissuer⟩, hactive⟩ := hmatches
  rw [discoveryExpired, Bool.or_eq_false_iff] at hlive
  obtain ⟨hrecordLive, hdocumentLive⟩ := hlive
  refine ⟨hhome.organisation, (eq_of_strictEq horganisation).trans hhome.organisation, htrusted,
    eq_of_strictEq hactive, eq_of_strictEq hid, eq_of_strictEq hissuer, fun ht => ?_,
    fun text ht => ?_⟩
  · rw [ht, Bool.true_and] at hrecordLive
    exact (notPassed_iff hrecordLive).mpr (hhome.dated ht)
  · rw [ht] at hdocumentLive
    exact (notPassed_iff hdocumentLive).mpr (hhome.documentDated _ text hdocument ht)

/-- The records of a list are decoded in their order, each at a time of the clock. -/
theorem decodeDiscoveryRecords_eq_ok {i : ℕ} {values : List Value} {ds : List DiscoveredRecord}
    (h : decodeDiscoveryRecords engine schemas type clock i values = .ok ds) :
    List.Forall₂ (fun value d => ∃ j, Decoded engine type (clock j) value d) values ds := by
  induction values generalizing i ds with
  | nil =>
    cases h
    exact .nil
  | cons value rest ih =>
    obtain ⟨first, hfirst, h⟩ := bind_ok_iff.mp h
    obtain ⟨others, hothers, h⟩ := bind_ok_iff.mp h
    cases h
    exact .cons ⟨i, decodeDiscoveryRecord_eq_ok hfirst⟩ (ih hothers)

/-- The records of a list belong to the organisation exactly if they are its own. -/
theorem belongs_iff_of_decoded {values : List Value} {ds : List DiscoveredRecord}
    (h : List.Forall₂ (fun value d => ∃ j, Decoded engine type (clock j) value d) values ds) :
    (∀ r ∈ ds, ∃ i, r.Belongs engine organisationId type (clock i)) ↔
      ∀ value ∈ values, HomeRecord engine organisationId value := by
  induction h with
  | nil => simp
  | cons hfirst _ ih =>
    obtain ⟨j, hdecoded⟩ := hfirst
    rw [List.forall_mem_cons, List.forall_mem_cons, ih]
    refine and_congr_left fun _ => ⟨?_, fun hhome => ⟨j, hdecoded.belongs hhome⟩⟩
    rintro ⟨i, hbelongs⟩
    exact hdecoded.home hbelongs

/-! ### Answers -/

/-- The services of an answer accept published profiles. -/
theorem checkAcceptedProfiles_eq_ok {profiles services : List DiscoveredRecord}
    (h : checkAcceptedProfiles engine profiles services = .ok ()) :
    ∀ service ∈ services, ∃ accepted, acceptedProfiles service.document = .ok accepted ∧
      ∀ item ∈ accepted, ∃ profile ∈ profiles, profile.record.lookup "id" = some item := by
  induction services with
  | nil => simp
  | cons service rest ih =>
    obtain ⟨accepted, haccepted, h⟩ := bind_ok_iff.mp h
    split at h
    · cases h
    next hnone =>
      refine List.forall_mem_cons.mpr ⟨⟨accepted, haccepted, fun item hitem => ?_⟩, ih h⟩
      have hany := List.find?_eq_none.mp hnone item hitem
      rw [Bool.not_eq_true, Bool.not_eq_false', List.any_eq_true] at hany
      obtain ⟨profile, hprofile, hid⟩ := hany
      exact ⟨profile, hprofile, eq_of_strictEq hid⟩

/-- What an answer that is returned has passed. -/
theorem discoverOrganisation_eq_ok {answers : List (Except LookupThrown Value)}
    {d : OrganisationDiscovery}
    (h : discoverOrganisation engine schemas clock answers organisationId = .ok d) :
    ∃ payload services profiles, firstPayload none answers = .ok payload ∧
      discoveryLists organisationId payload = some (services, profiles) ∧
      List.Forall₂ (fun value r => ∃ j, Decoded engine .service (clock j) value r) services
        d.services ∧
      List.Forall₂ (fun value r => ∃ j, Decoded engine .profile (clock j) value r) profiles
        d.profiles ∧
      checkAcceptedProfiles engine d.profiles d.services = .ok () := by
  unfold discoverOrganisation at h
  split_ifs at h
  obtain ⟨payload, hpayload, h⟩ := bind_ok_iff.mp h
  split at h
  · cases h
  next services profiles hlists =>
    obtain ⟨services', hservices, h⟩ := bind_ok_iff.mp h
    obtain ⟨profiles', hprofiles, h⟩ := bind_ok_iff.mp h
    obtain ⟨⟨⟩, hchecked, h⟩ := bind_ok_iff.mp h
    cases h
    exact ⟨payload, services, profiles, hpayload, hlists, decodeDiscoveryRecords_eq_ok hservices,
      decodeDiscoveryRecords_eq_ok hprofiles, hchecked⟩

/-- The result of a discovery is that of the organisation exactly if the records of the first
payload name the organisation and the dates of their expiry can be read. -/
theorem discovery_belongs_iff {answers : List (Except LookupThrown Value)}
    {d : OrganisationDiscovery}
    (h : discoverOrganisation engine schemas clock answers organisationId = .ok d) :
    d.Belongs engine organisationId clock ↔
      ∀ payload services profiles, firstPayload none answers = .ok payload →
        discoveryLists organisationId payload = some (services, profiles) →
          ∀ value ∈ services ++ profiles, HomeRecord engine organisationId value := by
  obtain ⟨payload, services, profiles, hpayload, hlists, hservices, hprofiles, hchecked⟩ :=
    discoverOrganisation_eq_ok h
  constructor
  · intro hbelongs payload' services' profiles' hpayload' hlists' value hvalue
    obtain rfl := Except.ok.inj (hpayload.symm.trans hpayload')
    obtain ⟨rfl, rfl⟩ := Prod.mk.inj (Option.some.inj (hlists.symm.trans hlists'))
    rcases List.mem_append.mp hvalue with hvalue | hvalue
    · exact (belongs_iff_of_decoded hservices).mp hbelongs.services value hvalue
    · exact (belongs_iff_of_decoded hprofiles).mp hbelongs.profiles value hvalue
  · intro hhome
    have hall := hhome payload services profiles hpayload hlists
    refine ⟨(belongs_iff_of_decoded hservices).mpr fun value hvalue =>
        hall value (List.mem_append_left _ hvalue),
      (belongs_iff_of_decoded hprofiles).mpr fun value hvalue =>
        hall value (List.mem_append_right _ hvalue), ?_⟩
    intro service hservice items hitems item hitem
    obtain ⟨accepted, haccepted, hpublished⟩ :=
      checkAcceptedProfiles_eq_ok hchecked service hservice
    rw [acceptedProfiles, hitems] at haccepted
    cases haccepted
    exact hpublished item hitem

/-! ### A profile of a seller -/

def sellerProfile : Record :=
  [("oati_version", .str "1.0"), ("id", .str "oati:profile:shop"),
    ("organisation_id", .str "oati:org:seller"), ("issuer", .str "oati:issuer:root"),
    ("name", .str "Shop"), ("version", .str "1"),
    ("schema_uri", .str "https://shop.example/profile.json"),
    ("digest", .str "sha256:0000000000000000000000000000000000000000000000000000000000000000"),
    ("status", .str "active"), ("issued_at", .str "2026-01-01T00:00:00Z")]

def sellerProfileText : String := stringify plainEngine (.obj sellerProfile)

def sellerRecord : Record :=
  [("type", .str "profile"), ("id", .str "oati:profile:shop"),
    ("organisation_id", .str "oati:org:seller"), ("issuer", .str "oati:issuer:root"),
    ("status", .str "active"), ("proof_status", .str "verified"),
    ("public_attributes", .obj [("document", .str sellerProfileText)])]

/-- An answer for an organisation with the seller's profile. -/
def sellerAnswer (organisationId : String) : Value :=
  .obj [("organisation_id", .str organisationId), ("services", .arr []),
    ("profiles", .arr [.obj sellerRecord])]

/-- The members that the schema of profiles requires. -/
def profileSchemas : DiscoverySchemas := fun _ document =>
  ["oati_version", "id", "organisation_id", "issuer", "name", "version", "schema_uri", "digest",
    "status", "issued_at"].all fun name => (document.lookup name).isSome

theorem parse_sellerProfile :
    jsonParse plainEngine sellerProfileText.toList = .ok (.obj sellerProfile) :=
  jsonParse_stringify (by simp [Json.Distinct, Json.MembersDistinct, sellerProfile]) rfl

theorem documentOf_sellerRecord :
    documentOf plainEngine (some (.obj sellerRecord)) = .ok (.obj sellerProfile) := by
  have htext : optionText plainEngine
      (get (get (some (.obj sellerRecord)) "public_attributes") "document")
        = sellerProfileText := rfl
  rw [documentOf, htext, parse_sellerProfile]

theorem isPublicRecord_sellerRecord :
    isPublicRecord plainEngine (some (.obj sellerRecord)) = some sellerRecord := by
  have hne : (sellerProfileText != "") = true := by
    rw [bne_iff_ne]
    intro hempty
    have hlist := congrArg String.toList hempty
    rw [sellerProfileText, stringify, String.toList_ofList] at hlist
    simp [JsonText.render, sellerProfile] at hlist
  have htyped : validDiscoveryRecord plainEngine sellerRecord
      [("document", .str sellerProfileText)] = true := by
    have hlookup : ([("document", .str sellerProfileText)] : Record).lookup "document"
        = some (.str sellerProfileText) := rfl
    simp only [validDiscoveryRecord, hlookup, hne, parse_sellerProfile]
    decide
  have hvalid : validPublicRecord plainEngine sellerRecord
      [("document", .str sellerProfileText)] = true := by
    have htype : hasType sellerRecord .profile = true := by decide
    rw [validPublicRecord, validTypedRecord, htype, Bool.or_true, if_pos rfl, htyped, Bool.and_true]
    decide
  have hattributes : sellerRecord.lookup "public_attributes"
      = some (.obj [("document", .str sellerProfileText)]) := rfl
  simp only [isPublicRecord, hattributes, hvalid, if_true]

theorem decode_sellerRecord (now : ℤ × ℤ) :
    decodeDiscoveryRecord plainEngine profileSchemas .profile now (.obj sellerRecord)
      = .ok ⟨sellerRecord, sellerProfile⟩ := by
  have htrusted : isTrustedRecord .profile sellerRecord = true := by decide
  have hmatches : isDocumentOf sellerRecord sellerProfile = true := by decide
  have hschema : profileSchemas .profile sellerProfile = true := by decide
  have hlive : discoveryExpired plainEngine sellerRecord sellerProfile now = false := by
    have hrecord : sellerRecord.lookup "expires_at" = none := by decide
    have hdocument : sellerProfile.lookup "expires_at" = none := by decide
    rw [discoveryExpired, hrecord, hdocument]
    rfl
  exact decodeDiscoveryRecord_of isPublicRecord_sellerRecord htrusted documentOf_sellerRecord
    hmatches hschema hlive

/-- The answer is returned to whoever asks for the organisation it is headed with. -/
theorem discover_sellerAnswer {organisationId : String}
    (h : startsWith organisationId "oati:org:" = true) (clock : ℕ → ℤ × ℤ) :
    discoverOrganisation plainEngine profileSchemas clock [.ok (sellerAnswer organisationId)]
      organisationId = .ok ⟨organisationId, [], [⟨sellerRecord, sellerProfile⟩]⟩ := by
  have hlists : discoveryLists organisationId (sellerAnswer organisationId)
      = some ([], [.obj sellerRecord]) := by
    have hid : (sellerAnswer organisationId).member "organisation_id"
        = some (.str organisationId) := rfl
    have hservices : (sellerAnswer organisationId).member "services" = some (.arr []) := rfl
    have hprofiles : (sellerAnswer organisationId).member "profiles"
        = some (.arr [.obj sellerRecord]) := rfl
    rw [discoveryLists, hid, hservices, hprofiles]
    exact if_pos rfl
  rw [discoverOrganisation, h, Bool.not_true, if_neg Bool.false_ne_true, firstPayload, ok_bind,
    hlists]
  dsimp only
  rw [decodeDiscoveryRecords, ok_bind, decodeDiscoveryRecords, decode_sellerRecord]
  rfl

/-- The profile of the seller belongs to the seller. -/
theorem discovery_belongs_seller :
    OrganisationDiscovery.Belongs plainEngine "oati:org:seller" (fun _ => (0, 0))
      ⟨"oati:org:seller", [], [⟨sellerRecord, sellerProfile⟩]⟩ := by
  refine (discovery_belongs_iff (discover_sellerAnswer (by decide) _)).mpr ?_
  intro payload services profiles hpayload hlists value hvalue
  cases hpayload
  cases hlists
  obtain rfl := List.mem_singleton.mp hvalue
  refine ⟨rfl, fun ht => absurd ht (by decide), fun document text hparse ht => ?_⟩
  obtain rfl := Except.ok.inj (documentOf_sellerRecord.symm.trans hparse)
  cases ht

/-- A buyer that asks for itself is given the profile of the seller. -/
theorem not_discovery_belongs :
    ¬ ∀ (engine : Engine) (schemas : DiscoverySchemas) (clock : ℕ → ℤ × ℤ)
      (answers : List (Except LookupThrown Value)) (organisationId : String)
      (d : OrganisationDiscovery),
      discoverOrganisation engine schemas clock answers organisationId = .ok d →
        d.Belongs engine organisationId clock := by
  intro h
  have hbelongs := h plainEngine profileSchemas (fun _ => (0, 0))
    [.ok (sellerAnswer "oati:org:buyer")] "oati:org:buyer" _
    (discover_sellerAnswer (by decide) _)
  obtain ⟨i, hprofile⟩ := hbelongs.profiles _ (List.mem_singleton.mpr rfl)
  have hseller : sellerRecord.lookup "organisation_id" = some (.str "oati:org:seller") := rfl
  have hname := Json.str.inj (Option.some.inj (hseller.symm.trans hprofile.organisation))
  exact absurd hname (by decide)

end Oati.TypeScript

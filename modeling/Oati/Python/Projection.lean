import Oati.Conformance.Screening
import Oati.Python.Value

/-!
# Public records: the Python SDK

`project_public_record` and what it depends on. The limits of the interpreter (the depth of the
recursion, the digits of an integer) are left out.
-/

namespace Oati.Python.Projection

open Conformance
open JsonText (collect keeps_collect Decoder readText)

/-! ### Decoding -/

/-- `json.loads`. -/
def jsonLoads : Decoder where
  read := readText readConstant
  keep := collect
  keeps := keeps_collect

/-! ### The projection -/

/-- An exception of the projection. -/
inductive Raised where
  | valueError (message : String)
  | typeError
  deriving DecidableEq, Repr

/-- `PUBLIC_ATTRIBUTES_BY_TYPE.get(type)`. Lists and objects are not hashable. -/
def allowedAttributes (type : Option Value) : Except Raised (Option (List String)) :=
  match type with
  | some (.str type) => .ok (publicAttributesByType.lookup type)
  | some (.arr _) | some (.obj _) => .error .typeError
  | _ => .ok none

section

variable (lower : String → String)

/-- The check of one document. -/
def inspectText (name value : String) : Except Raised Unit :=
  (screen lower jsonLoads value).mapError fun refusal =>
    .valueError ("public attribute " ++ name ++ refusal.message)

/-- The fields that a record must have. -/
def requiredFields : List String :=
  ["type", "id", "display_name", "status", "issuer", "proof_status", "public_attributes"]

/-- The last check. -/
def checkRecord (projected : Dict) : Except Raised Dict :=
  if requiredFields.any fun key => (projected.lookup key).isNone then
    .error (.valueError "registry source cannot produce a public record")
  else .ok projected

/-- The record with the attributes that are allowed. -/
def publishRecord (projected attributes : Dict) (allowed : List String) :
    Except Raised Dict := do
  let filtered ← publish (inspectText lower)
    (fun name => .valueError ("public attribute " ++ name ++ " must be a string"))
    (select attributes allowed)
  checkRecord (JsonText.insertMember projected "public_attributes" (.obj (ofTexts filtered)))

/-- The projection of the public fields. -/
def projectFields (projected : Dict) : Except Raised Dict := do
  match ← allowedAttributes (projected.lookup "type") with
  | none => throw (.valueError "unsupported public record type")
  | some allowed =>
    match projected.lookup "public_attributes" with
    | some (.obj attributes) => publishRecord lower projected attributes allowed
    | _ => throw (.valueError "public_attributes must be an object")

/-- `project_public_record`. -/
def project_public_record (source : Dict) : Except Raised Dict :=
  projectFields lower (select source publicFields)

end

variable {lower : String → String}

theorem allowedAttributes_eq_ok {type : Option Value} {names : List String}
    (h : allowedAttributes type = .ok (some names)) :
    ∃ t, type = some (.str t) ∧ publicAttributesByType.lookup t = some names := by
  cases type with
  | none => cases h
  | some v =>
    cases v with
    | str t => exact ⟨t, rfl, Except.ok.inj h⟩
    | _ => cases h

theorem lookup_publicFields {source : Dict} {field : String} (h : field ∈ publicFields) :
    (select source publicFields).lookup field = source.lookup field := by
  rw [lookup_select, if_pos h]

/-- Records that agree on what is public have the same projection. -/
theorem project_public_record_congr {source source' : Dict} (h : Agree source source') :
    project_public_record lower source = project_public_record lower source' := by
  rcases h.attributes with hsame | ⟨attributes, attributes', hobj, hobj', hagree⟩
  · rw [project_public_record, h.select_public hsame, project_public_record]
  · have htype : source.lookup "type" = source'.lookup "type" :=
      h.fields "type" (by decide) (by decide)
    have hpublish : ∀ names, allowedAttributes (source.lookup "type") = .ok (some names) →
        publishRecord lower (select source publicFields) attributes names
          = publishRecord lower (select source' publicFields) attributes' names := by
      intro names hnames
      obtain ⟨type, ht, hallowed⟩ := allowedAttributes_eq_ok hnames
      simp only [publishRecord, insertMember_select hobj, insertMember_select hobj',
        h.select_plain, select_congr (hagree type names ht hallowed)]
    simp only [project_public_record, projectFields,
      lookup_publicFields (show "type" ∈ publicFields by decide),
      lookup_publicFields (show "public_attributes" ∈ publicFields by decide), hobj, hobj',
      ← htype]
    cases hallowed : allowedAttributes (source.lookup "type") with
    | error e => rfl
    | ok allowed =>
      cases allowed with
      | none => rfl
      | some names => exact hpublish names hallowed

theorem inspectText_eq_ok {name value : String} (h : inspectText lower name value = .ok ()) :
    screen lower jsonLoads value = .ok () := by
  cases hscreen : screen lower jsonLoads value with
  | ok => rfl
  | error refusal =>
    rw [inspectText, hscreen] at h
    cases h

theorem checkRecord_eq_ok {projected record : Dict} (h : checkRecord projected = .ok record) :
    projected = record := by
  rw [checkRecord] at h
  split_ifs at h
  exact Except.ok.inj h

/-- What a projection that succeeds has published. -/
theorem projects_of_ok {source record : Dict}
    (h : project_public_record lower source = .ok record) :
    Projects (inspectText lower)
      (fun name => .valueError ("public attribute " ++ name ++ " must be a string"))
      source record := by
  rw [project_public_record, projectFields, lookup_publicFields (by decide),
    lookup_publicFields (by decide)] at h
  obtain ⟨allowed, hallowed, h⟩ := Conformance.bind_eq_ok.mp h
  cases allowed with
  | none => cases h
  | some names =>
    cases hattributes : source.lookup "public_attributes" with
    | none => rw [hattributes] at h; cases h
    | some v =>
      rw [hattributes] at h
      cases v with
      | obj attributes =>
        obtain ⟨type, htype, hnames⟩ := allowedAttributes_eq_ok hallowed
        obtain ⟨texts, hpublish, hrecord⟩ := Conformance.bind_eq_ok.mp h
        obtain rfl := checkRecord_eq_ok hrecord
        exact ⟨type, names, attributes, names, texts, htype, hnames, hattributes,
          fun _ _ _ => Iff.rfl, hpublish, by rw [JsonText.lookup_insertMember, if_pos rfl]⟩
      | _ => cases h

/-- The documents of a record that is projected are public exactly if the members that the decoder
drops are. -/
theorem project_public_record_public_iff {source record : Dict}
    (h : project_public_record lower source = .ok record) :
    (∀ name text, Published record name text → PublicText lower jsonLoads text) ↔
      ∀ name text, Document source name text → OvertText lower jsonLoads text := by
  rw [(projects_of_ok h).public_iff inspectText_eq_ok]
  exact forall₂_congr fun name text => forall_congr' fun _ =>
    and_iff_left (publicRest_readText rfl rfl)

end Oati.Python.Projection

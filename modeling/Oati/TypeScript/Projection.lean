import Oati.Conformance.Screening
import Oati.TypeScript.Canonical

/-!
# Public records: the TypeScript SDK

`projectPublicRecord` and what it depends on. The lower case of a name is a parameter: the result
holds for every table of the engine.
-/

namespace Oati.TypeScript.Projection

open Conformance
open JsonText (collect keeps_collect Keeps Decoder noConstant readText)
open Numeral (IsWhole)

/-! ### Decoding -/

/-- The index that a property name is, if it is one. -/
def arrayIndex (key : String) : Option ℕ :=
  if IsWhole key.toList && Nat.ofDigitChars 10 key.toList 0 < 2 ^ 32 - 1 then
    some (Nat.ofDigitChars 10 key.toList 0)
  else none

/-- The order of `Object.entries`: indices first, in their order, then the other names. -/
def propertyOrder (members : List (String × Json String)) : List (String × Json String) :=
  ((members.filter fun m => (arrayIndex m.1).isSome).insertionSort fun a b =>
      (arrayIndex a.1).getD 0 ≤ (arrayIndex b.1).getD 0)
    ++ members.filter fun m => !(arrayIndex m.1).isSome

theorem propertyOrder_perm (members : List (String × Json String)) :
    (propertyOrder members).Perm members :=
  ((List.perm_insertionSort _ _).append_right _).trans (List.filter_append_perm _ _)

/-- `JSON.parse`, with the members of each object in their order. Numbers, which nothing reads,
stay literals. -/
def jsonDecoder : Decoder where
  read := readText noConstant
  keep := fun members => propertyOrder (collect members)
  keeps := fun members => propertyOrder_perm (collect members)

/-! ### The projection -/

/-- An `OatiValidationError`. -/
def validationError (message : String) : JsError := .oatiError .validationFailed message

/-- The properties that every object inherits. -/
def inheritedProperties : List String :=
  ["constructor", "__defineGetter__", "__defineSetter__", "hasOwnProperty", "__lookupGetter__",
    "__lookupSetter__", "isPrototypeOf", "propertyIsEnumerable", "toString", "valueOf",
    "__proto__", "toLocaleString"]

/-- `publicAttributesByType[projected.type]`, to iterate over. An inherited property is not
`undefined`, but no iterable either. -/
def allowedAttributes (type : Option Value) : Option (Except JsError (List String)) :=
  match type with
  | some (.str type) =>
    match publicAttributesByType.lookup type with
    | some names => some (.ok names)
    | none =>
      if type ∈ inheritedProperties then
        some (.error (.typeError "allowedAttributes is not iterable"))
      else none
  | _ => none

section

variable (lower : String → String)

/-- `assertPublicJson`. -/
def assertPublicJson (value attributeName : String) : Except JsError Unit :=
  (screen lower jsonDecoder value).mapError fun refusal =>
    validationError ("Public attribute " ++ attributeName ++ refusal.message)

/-- The strings of a public record. -/
def requiredFields : List String :=
  ["type", "id", "display_name", "status", "issuer", "proof_status"]

/-- The last check. The attributes are an object by then. -/
def checkRecord (projected : Record) : Except JsError Record :=
  if requiredFields.all fun field => ((projected.lookup field).bind Json.string?).isSome then
    .ok projected
  else .error (validationError "Registry source cannot produce a valid public record")

/-- The record with the attributes of these names. -/
def publishRecord (projected attributes : Record) (names : List String) :
    Except JsError Record := do
  let filtered ← publish (fun name value => assertPublicJson lower value name)
    (fun name => validationError ("Public attribute " ++ name ++ " must be a string"))
    (select attributes names)
  checkRecord (JsonText.insertMember projected "public_attributes" (.obj (ofTexts filtered)))

/-- The projection of the public fields. -/
def projectFields (projected : Record) : Except JsError Record :=
  match allowedAttributes (projected.lookup "type") with
  | none => .error (validationError "Registry source has an unsupported public record type")
  | some allowed =>
    match projected.lookup "public_attributes" with
    | some (.obj attributes) => allowed >>= publishRecord lower projected attributes
    | _ => .error (validationError "Registry source public_attributes must be an object")

/-- `projectPublicRecord`. -/
def projectPublicRecord (source : Record) : Except JsError Record :=
  projectFields lower (select source publicFields)

end

variable {lower : String → String}

theorem allowedAttributes_eq_ok {type : Option Value} {names : List String}
    (h : allowedAttributes type = some (.ok names)) :
    ∃ t, type = some (.str t) ∧ publicAttributesByType.lookup t = some names := by
  unfold allowedAttributes at h
  split at h
  next t =>
    split at h
    next names' hnames =>
      obtain rfl : names' = names := by simpa using h
      exact ⟨t, rfl, hnames⟩
    next =>
      split_ifs at h
      simp at h
  next => cases h

theorem lookup_publicFields {source : Record} {field : String} (h : field ∈ publicFields) :
    (select source publicFields).lookup field = source.lookup field := by
  rw [lookup_select, if_pos h]

/-- Records that agree on what is public have the same projection. -/
theorem projectPublicRecord_congr {source source' : Record} (h : Agree source source') :
    projectPublicRecord lower source = projectPublicRecord lower source' := by
  rcases h.attributes with hsame | ⟨attributes, attributes', hobj, hobj', hagree⟩
  · rw [projectPublicRecord, h.select_public hsame, projectPublicRecord]
  · have htype : source.lookup "type" = source'.lookup "type" :=
      h.fields "type" (by decide) (by decide)
    have hpublish : ∀ names, allowedAttributes (source.lookup "type") = some (.ok names) →
        publishRecord lower (select source publicFields) attributes names
          = publishRecord lower (select source' publicFields) attributes' names := by
      intro names hnames
      obtain ⟨type, ht, hallowed⟩ := allowedAttributes_eq_ok hnames
      simp only [publishRecord, insertMember_select hobj, insertMember_select hobj',
        h.select_plain, select_congr (hagree type names ht hallowed)]
    simp only [projectPublicRecord, projectFields,
      lookup_publicFields (show "type" ∈ publicFields by decide),
      lookup_publicFields (show "public_attributes" ∈ publicFields by decide), hobj, hobj',
      ← htype]
    cases hallowed : allowedAttributes (source.lookup "type") with
    | none => rfl
    | some allowed =>
      cases allowed with
      | error e => rfl
      | ok names => exact hpublish names hallowed

theorem assertPublicJson_eq_ok {name value : String}
    (h : assertPublicJson lower value name = .ok ()) : screen lower jsonDecoder value = .ok () := by
  cases hscreen : screen lower jsonDecoder value with
  | ok => rfl
  | error refusal =>
    rw [assertPublicJson, hscreen] at h
    cases h

theorem checkRecord_eq_ok {projected record : Record} (h : checkRecord projected = .ok record) :
    projected = record := by
  rw [checkRecord] at h
  split_ifs at h
  exact Except.ok.inj h

/-- What a projection that succeeds has published. -/
theorem projects_of_ok {source record : Record}
    (h : projectPublicRecord lower source = .ok record) :
    Projects (fun name value => assertPublicJson lower value name)
      (fun name => validationError ("Public attribute " ++ name ++ " must be a string"))
      source record := by
  rw [projectPublicRecord, projectFields, lookup_publicFields (by decide),
    lookup_publicFields (by decide)] at h
  cases hallowed : allowedAttributes (source.lookup "type") with
  | none => rw [hallowed] at h; cases h
  | some allowed =>
    cases hattributes : source.lookup "public_attributes" with
    | none => rw [hallowed, hattributes] at h; cases h
    | some v =>
      rw [hallowed, hattributes] at h
      cases v with
      | obj attributes =>
        obtain ⟨names, rfl, hrecord⟩ := Conformance.bind_eq_ok.mp h
        obtain ⟨type, htype, hnames⟩ := allowedAttributes_eq_ok hallowed
        obtain ⟨texts, hpublish, hchecked⟩ := Conformance.bind_eq_ok.mp hrecord
        obtain rfl := checkRecord_eq_ok hchecked
        exact ⟨type, names, attributes, names, texts, htype, hnames, hattributes,
          fun _ _ _ => Iff.rfl, hpublish, by rw [JsonText.lookup_insertMember, if_pos rfl]⟩
      | _ => cases h

/-- The documents of a record that is projected are public exactly if the members that the decoder
drops are. -/
theorem projectPublicRecord_public_iff {source record : Record}
    (h : projectPublicRecord lower source = .ok record) :
    (∀ name text, Published record name text → PublicText lower jsonDecoder text) ↔
      ∀ name text, Document source name text → OvertText lower jsonDecoder text := by
  rw [(projects_of_ok h).public_iff assertPublicJson_eq_ok]
  exact forall₂_congr fun name text => forall_congr' fun _ =>
    and_iff_left (publicRest_readText rfl rfl)

end Oati.TypeScript.Projection

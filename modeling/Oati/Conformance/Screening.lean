import Oati.Library.JsonSyntax

/-!
# The screening of published documents

The three SDKs publish a record with the same fields, the same attributes for each type and the
same check of the documents among the attributes: it decodes the text and looks at every member
of every object. This module has the tables, the check and what it says about the text.

`Public` is the purpose of the check, on one value of the text. The check does not see the members
that the decoder drops: a text is public throughout exactly if it passes and is `Overt`
(`throughout_public_iff`).
-/

namespace Oati.Conformance

open Json (Part Kept Replaced)
open JsonText (Keeps Decoder)

variable {N : Type}

/-! ### The tables -/

/-- `publicFields`, `PUBLIC_FIELDS`. -/
def publicFields : List String :=
  ["type", "id", "display_name", "status", "issuer", "organisation_id", "issued_at", "expires_at",
    "assurance_level", "proof_status", "public_attributes"]

/-- `publicAttributesByType`, `PUBLIC_ATTRIBUTES_BY_TYPE`. -/
def publicAttributesByType : List (String × List String) :=
  [("organisation", ["environment", "website", "jurisdiction", "signed_document"]),
    ("issuer", ["environment", "parent", "revoked_at", "signed_document"]),
    ("key", ["controller", "algorithm", "public_key_jwk", "revoked_at", "signed_document"]),
    ("agent", ["protocol", "protocols", "signed_document"]),
    ("passport", ["subject", "signed_document"]),
    ("mandate", ["subject", "signed_document"]),
    ("receipt", ["transaction_id", "mandate_id", "outcome", "signed_document"]),
    ("revocation", ["target", "revocation_status", "effective_at", "signed_document"]),
    ("service", ["document", "signed_document"]),
    ("profile", ["document", "signed_document"])]

/-- `sensitiveNestedFields`, `sensitivePublicFields`, `SENSITIVE_PUBLIC_FIELDS`. -/
def sensitiveFields : List String :=
  ["access_token", "api_key", "credential", "internal_id", "kms_key", "operator_notes", "password",
    "private_attributes", "private_key", "refresh_token", "secret", "tenant_id"]

/-- The attributes whose text is a document. -/
def documentAttributes : List String := ["document", "public_key_jwk", "signed_document"]

/-! ### The check -/

/-- Why the text of a document is refused. -/
inductive Refusal where
  | invalidJson
  | tooDeep
  | forbidden (key : String)
  | privateKey
  deriving DecidableEq, Repr

/-- The message of the error, after the name of the attribute. -/
def Refusal.message : Refusal → String
  | invalidJson => " must contain valid JSON"
  | tooDeep => " exceeds the nesting limit"
  | forbidden key => " contains forbidden field " ++ key
  | privateKey => " contains private JWK material"

/-- `if (depth > 32) throw …`. -/
def withinLimit (depth : ℕ) (result : Except Refusal Unit) : Except Refusal Unit :=
  if depth > 32 then .error .tooDeep else result

/-- The object is a private JWK: `kty` is a string, and there is a `d`. -/
def isPrivateKey (members : List (String × Json N)) : Bool :=
  ((members.lookup "kty").bind Json.string?).isSome && (members.lookup "d").isSome

section

variable (lower : String → String)

mutual

/-- `visit`, `inspectPublicJSON`, `inspect`. The key of a member is checked before its value, and
the object itself last. -/
def inspect (depth : ℕ) : Json N → Except Refusal Unit
  | .null => withinLimit depth (.ok ())
  | .bool _ => withinLimit depth (.ok ())
  | .num _ => withinLimit depth (.ok ())
  | .str _ => withinLimit depth (.ok ())
  | .arr items => withinLimit depth (inspectItems (depth + 1) items)
  | .obj members => withinLimit depth do
    inspectMembers (depth + 1) members
    if isPrivateKey members then .error .privateKey else .ok ()
termination_by structural v => v

/-- The items of an array. -/
def inspectItems (depth : ℕ) : List (Json N) → Except Refusal Unit
  | [] => .ok ()
  | v :: rest => do
    inspect depth v
    inspectItems depth rest
termination_by structural items => items

/-- The members of an object. -/
def inspectMembers (depth : ℕ) : List (String × Json N) → Except Refusal Unit
  | [] => .ok ()
  | (key, v) :: rest =>
    if lower key ∈ sensitiveFields then .error (.forbidden key)
    else do
      inspect depth v
      inspectMembers depth rest
termination_by structural members => members

end

/-- The check of a text: it is decoded, and the document is inspected. -/
def screen (d : Decoder) (text : String) : Except Refusal Unit :=
  match d.decode text.toList with
  | some document => inspect lower 0 document
  | none => .error .invalidJson

/-- A value may be published: if it is an object, none of its members has a sensitive name, and
a string `kty` comes without a `d`. -/
def Public (w : Json N) : Prop :=
  ∀ members, w = .obj members → (∀ m ∈ members, lower m.1 ∉ sensitiveFields) ∧
    ∀ s, ("kty", .str s) ∈ members → ∀ v, ("d", v) ∉ members

/-- Nothing is hidden in the members that a decoder drops: their values may be published, and none
of them is the string `kty` of an object with a `d`. -/
structure Overt (v : Json N) : Prop where
  values : ∀ members m, Kept v (.obj members) → Replaced members m → ∀ w, Part m.2 w →
    Public lower w
  kty : ∀ members s, Kept v (.obj members) → Replaced members ("kty", .str s) →
    ∀ w, ("d", w) ∉ members

variable {lower}

theorem withinLimit_eq_ok {depth : ℕ} {result : Except Refusal Unit} {u : Unit}
    (h : withinLimit depth result = .ok u) : result = .ok () := by
  rw [withinLimit] at h
  split_ifs at h
  exact h

theorem bind_eq_ok {ε α β : Type} {x : Except ε α} {f : α → Except ε β} {b : β} :
    (x >>= f) = .ok b ↔ ∃ a, x = .ok a ∧ f a = .ok b := by
  cases x <;> simp [bind, Except.bind]

theorem inspectItems_eq_ok {depth : ℕ} {items : List (Json N)}
    (h : inspectItems lower depth items = .ok ()) :
    ∀ v ∈ items, inspect lower depth v = .ok () := by
  induction items with
  | nil => simp
  | cons v rest ih =>
    rw [inspectItems, bind_eq_ok] at h
    obtain ⟨_, hv, hrest⟩ := h
    exact List.forall_mem_cons.mpr ⟨hv, ih hrest⟩

theorem inspectMembers_eq_ok {depth : ℕ} {members : List (String × Json N)}
    (h : inspectMembers lower depth members = .ok ()) :
    ∀ m ∈ members, lower m.1 ∉ sensitiveFields ∧ inspect lower depth m.2 = .ok () := by
  induction members with
  | nil => simp
  | cons m rest ih =>
    rw [inspectMembers] at h
    split_ifs at h with hkey
    obtain ⟨_, hv, hrest⟩ := bind_eq_ok.mp h
    exact List.forall_mem_cons.mpr ⟨⟨hkey, hv⟩, ih hrest⟩

/-- Every object of a document that passes was looked at. Induction over the way to the object. -/
theorem inspected_of_part {depth : ℕ} {v w : Json N} (h : inspect lower depth v = .ok ())
    (hpart : Part v w) {members : List (String × Json N)} (hw : w = .obj members) :
    (∀ m ∈ members, lower m.1 ∉ sensitiveFields) ∧ isPrivateKey members = false := by
  induction hpart generalizing depth with
  | refl v =>
    rw [hw, inspect] at h
    obtain ⟨_, hmembers, hkey⟩ := bind_eq_ok.mp (withinLimit_eq_ok h)
    refine ⟨fun m hm => (inspectMembers_eq_ok hmembers m hm).1, ?_⟩
    split_ifs at hkey with hprivate
    exact Bool.eq_false_iff.mpr hprivate
  | item hv _ ih =>
    rw [inspect] at h
    exact ih (inspectItems_eq_ok (withinLimit_eq_ok h) _ hv) hw
  | member hm _ ih =>
    rw [inspect] at h
    obtain ⟨_, hmembers, -⟩ := bind_eq_ok.mp (withinLimit_eq_ok h)
    exact ih (inspectMembers_eq_ok hmembers _ hm).2 hw

end

/-! ### What the check says about the text -/

section Document

variable {lower : String → String} {keep : List (String × Json N) → List (String × Json N)}
  (hkeep : Keeps keep) {v : Json N}

include hkeep

/-- The members that a decoder keeps of an object that passes have public names, and the last
`kty` is no string where there is a `d`. -/
theorem kept_of_inspect {depth : ℕ} (h : inspect lower depth (v.rebuild keep) = .ok ())
    {members : List (String × Json N)} (hkept : Kept v (.obj members)) :
    (∀ m ∈ members, lower m.1 ∉ sensitiveFields) ∧
      ∀ s w, members.reverse.lookup "kty" = some (.str s) → ("d", w) ∉ members := by
  have hpart := hkeep.part_rebuild.mpr ⟨_, hkept, rfl⟩
  obtain ⟨hnames, hprivate⟩ := inspected_of_part h hpart (by rw [Json.rebuild])
  have hlookup : ∀ key, (keep (Json.rebuildMembers keep members)).lookup key
      = (members.reverse.lookup key).map (Json.rebuild keep) := fun key => by
    rw [hkeep.lookup, Json.reverse_lookup_rebuildMembers]
  constructor
  · intro m hm
    -- every name of the text has a member that is kept
    obtain ⟨w, hw⟩ := Json.exists_last hm
    have hmem : (m.1, w.rebuild keep) ∈ keep (Json.rebuildMembers keep members) := by
      rw [hkeep.mem_iff, Json.reverse_lookup_rebuildMembers, hw, Option.map_some]
    exact hnames (m.1, w.rebuild keep) hmem
  · intro s w hkty hd
    obtain ⟨d, hd⟩ := Json.exists_last hd
    rw [isPrivateKey, hlookup, hlookup, hkty, hd] at hprivate
    simp [Json.rebuild, Json.string?] at hprivate

/-- A document that passes may be published as a whole exactly if it hides nothing. -/
theorem public_iff_overt {depth : ℕ} (h : inspect lower depth (v.rebuild keep) = .ok ()) :
    (∀ w, Part v w → Public lower w) ↔ Overt lower v := by
  constructor
  · intro hpublic
    constructor
    · intro members m hkept hreplaced w hw
      exact hpublic w (hkept.part.trans (.member hreplaced.1 hw))
    · intro members s hkept hreplaced
      exact (hpublic _ hkept.part members rfl).2 s hreplaced.1
  · rintro hovert w hpart members rfl
    rcases hpart.kept_or_replaced with hkept | ⟨outer, m, hkept, hreplaced, hinner⟩
    · obtain ⟨hnames, hkty⟩ := kept_of_inspect hkeep h hkept
      refine ⟨hnames, fun s hs w hd => ?_⟩
      by_cases hlast : members.reverse.lookup "kty" = some (.str s)
      · exact hkty s w hlast hd
      · exact hovert.kty members s hkept ⟨hs, hlast⟩ w hd
    · exact hovert.values outer m hkept hreplaced _ hinner members rfl

end Document

section Text

variable {lower : String → String} {d : Decoder} {text : String}

variable (lower d text) in
/-- Everything that is written in the text may be published. -/
def PublicText : Prop := d.Throughout (Public lower) text.toList

variable (lower d text) in
/-- What the decoder leaves behind the first value may be published. -/
def PublicRest : Prop :=
  ∀ v rest, d.read text.toList = some (v, rest) → ∀ behind, behind <:+ rest →
    ∀ v' rest', d.read behind = some (v', rest') → ∀ w, Part v' w → Public lower w

variable (lower d text) in
/-- The value that the decoder reads hides nothing. -/
def OvertText : Prop := ∀ v rest, d.read text.toList = some (v, rest) → Overt lower v

/-- A text that passes is public exactly if it hides nothing in the value that is decoded, and
nothing behind it. -/
theorem publicText_iff (h : screen lower d text = .ok ()) :
    PublicText lower d text ↔ OvertText lower d text ∧ PublicRest lower d text := by
  have hvalue : ∀ v rest, d.read text.toList = some (v, rest) →
      ((∀ w, Part v w → Public lower w) ↔ Overt lower v) := by
    intro v rest hread
    rw [screen, Decoder.decode, hread] at h
    exact public_iff_overt d.keeps h
  constructor
  · intro hpublic
    exact ⟨fun v rest hread => (hvalue v rest hread).mp (hpublic v rest hread).1,
      fun v rest hread => (hpublic v rest hread).2⟩
  · rintro ⟨hovert, hrest⟩ v rest hread
    exact ⟨(hvalue v rest hread).mpr (hovert v rest hread), hrest v rest hread⟩

/-- A decoder of whole texts leaves only whitespace. -/
theorem publicRest_readText {constant : List Char → Option (Json String × List Char)}
    (hconstant : constant [] = none) (hread : d.read = JsonText.readText constant) :
    PublicRest lower d text := by
  intro v rest hv behind hbehind v' rest' hv'
  rw [hread] at hv hv'
  have hwhite := JsonText.whitespace_of_readText hv
  have hnone := JsonText.readText_of_whitespace hconstant fun c hc => hwhite c (hbehind.subset hc)
  exact absurd (hnone.symm.trans hv') (by simp)

end Text

/-! ### The attributes of a record -/

section Publish

variable {ε : Type}

/-- The documents are checked. -/
def onDocument (check : String → String → Except ε Unit) (name text : String) : Except ε Unit :=
  if name ∈ documentAttributes then check name text else .ok ()

/-- The loop over the attributes: the strings are kept, the documents among them once they
passed; every other value is an error. -/
def publish (check : String → String → Except ε Unit) (notString : String → ε) :
    List (String × Json N) → Except ε (List (String × String))
  | [] => .ok []
  | (name, .str text) :: rest => do
    onDocument check name text
    return (name, text) :: (← publish check notString rest)
  | (name, _) :: _ => .error (notString name)

/-- An object of strings. -/
def ofTexts (texts : List (String × String)) : List (String × Json N) :=
  texts.map fun p => (p.1, .str p.2)

/-- The attributes of the names that occur. -/
def select (attributes : List (String × Json N)) (names : List String) : List (String × Json N) :=
  names.filterMap fun name => (attributes.lookup name).map fun v => (name, v)

theorem lookup_select (attributes : List (String × Json N)) (names : List String) (name : String) :
    (select attributes names).lookup name
      = if name ∈ names then attributes.lookup name else none := by
  induction names with
  | nil => rfl
  | cons first rest ih =>
    rw [select, List.filterMap_cons]
    cases hfirst : attributes.lookup first with
    | none =>
      refine ih.trans ?_
      by_cases hname : name = first
      · rw [hname, hfirst, ite_self, ite_self]
      · simp only [List.mem_cons, hname, false_or]
    | some v =>
      rw [Option.map_some]
      by_cases hname : name = first
      · rw [hname, List.lookup_cons_self, if_pos List.mem_cons_self, hfirst]
      · rw [List.lookup_cons_of_ne hname]
        refine ih.trans ?_
        simp only [List.mem_cons, hname, false_or]

theorem select_congr {attributes attributes' : List (String × Json N)} {names : List String}
    (h : ∀ name ∈ names, attributes.lookup name = attributes'.lookup name) :
    select attributes names = select attributes' names :=
  List.filterMap_congr fun name hname => by rw [h name hname]

variable {check : String → String → Except ε Unit} {notString : String → ε}

/-- The attributes that are published are the strings that they were, and the documents have
passed. -/
theorem publish_eq_ok {attributes : List (String × Json N)} {texts : List (String × String)}
    (h : publish check notString attributes = .ok texts) :
    attributes = ofTexts texts ∧
      ∀ p ∈ texts, p.1 ∈ documentAttributes → check p.1 p.2 = .ok () := by
  induction attributes generalizing texts with
  | nil =>
    obtain rfl : [] = texts := Except.ok.inj h
    exact ⟨rfl, by simp⟩
  | cons m rest ih =>
    obtain ⟨name, v⟩ := m
    cases v with
    | str text =>
      rw [publish] at h
      obtain ⟨_, hchecked, h⟩ := bind_eq_ok.mp h
      obtain ⟨kept, hrest, h⟩ := bind_eq_ok.mp h
      obtain rfl : (name, text) :: kept = texts := Except.ok.inj h
      obtain ⟨rfl, hall⟩ := ih hrest
      refine ⟨rfl, List.forall_mem_cons.mpr ⟨fun hname => ?_, hall⟩⟩
      rwa [onDocument, if_pos hname] at hchecked
    | _ => cases h

/-- The source has a document of this text under a name that is allowed for its type. -/
structure Document (source : List (String × Json N)) (name text : String) : Prop where
  isDocument : name ∈ documentAttributes
  isAllowed : ∃ type names, source.lookup "type" = some (.str type) ∧
    publicAttributesByType.lookup type = some names ∧ name ∈ names
  value : ∃ attributes, source.lookup "public_attributes" = some (.obj attributes) ∧
    attributes.lookup name = some (.str text)

/-- The record has a document of this text. -/
structure Published (record : List (String × Json N)) (name text : String) : Prop where
  isDocument : name ∈ documentAttributes
  value : ∃ attributes, record.lookup "public_attributes" = some (.obj attributes) ∧
    attributes.lookup name = some (.str text)

/-- How a projection makes its record: the attributes of the names that are allowed for the type
are published. -/
structure Projects (check : String → String → Except ε Unit) (notString : String → ε)
    (source record : List (String × Json N)) : Prop where
  made : ∃ type allowed attributes names texts,
    source.lookup "type" = some (.str type) ∧ publicAttributesByType.lookup type = some allowed ∧
    source.lookup "public_attributes" = some (.obj attributes) ∧
    (∀ name v, attributes.lookup name = some v → (name ∈ names ↔ name ∈ allowed)) ∧
    publish check notString (select attributes names) = .ok texts ∧
    record.lookup "public_attributes" = some (.obj (ofTexts texts))

/-- The documents of the record are those of the source, and each has passed. -/
theorem Projects.published_iff {source record : List (String × Json N)}
    (h : Projects check notString source record) {name text : String} :
    (Published record name text ↔ Document source name text) ∧
      (Published record name text → check name text = .ok ()) := by
  obtain ⟨type, allowed, attributes, names, texts, htype, hallowed, hattributes, hnames, hpublish,
    hrecord⟩ := h.made
  obtain ⟨htexts, hchecked⟩ := publish_eq_ok hpublish
  have hlookup : (ofTexts texts : List (String × Json N)).lookup name
      = if name ∈ names then attributes.lookup name else none := by
    rw [← htexts, lookup_select]
  refine ⟨⟨?_, ?_⟩, ?_⟩
  · rintro ⟨hname, published, hpublished, hfound⟩
    obtain rfl := Json.obj.inj (Option.some.inj (hrecord.symm.trans hpublished))
    rw [hlookup] at hfound
    split_ifs at hfound with hmem
    exact ⟨hname, ⟨type, allowed, htype, hallowed, (hnames name _ hfound).mp hmem⟩, attributes,
      hattributes, hfound⟩
  · rintro ⟨hname, ⟨type', allowed', htype', hallowed', hmem⟩, attributes', hattributes', hfound⟩
    obtain rfl := Json.str.inj (Option.some.inj (htype.symm.trans htype'))
    obtain rfl := Option.some.inj (hallowed.symm.trans hallowed')
    obtain rfl := Json.obj.inj (Option.some.inj (hattributes.symm.trans hattributes'))
    refine ⟨hname, _, hrecord, ?_⟩
    rw [hlookup, if_pos ((hnames name _ hfound).mpr hmem), hfound]
  · rintro ⟨hname, published, hpublished, hfound⟩
    obtain rfl := Json.obj.inj (Option.some.inj (hrecord.symm.trans hpublished))
    obtain ⟨p, hp, heq⟩ := List.mem_map.mp (List.mem_of_lookup_eq_some hfound)
    simp only [Prod.mk.injEq, Json.str.injEq] at heq
    obtain ⟨rfl, rfl⟩ := heq
    exact hchecked p hp hname

/-- The documents of the record are public exactly if those of the source hide nothing, in the
values that are decoded and behind them. -/
theorem Projects.public_iff {lower : String → String} {d : Decoder}
    {source record : List (String × Json N)} (h : Projects check notString source record)
    (hcheck : ∀ {name text}, check name text = .ok () → screen lower d text = .ok ()) :
    (∀ name text, Published record name text → PublicText lower d text) ↔
      ∀ name text, Document source name text →
        OvertText lower d text ∧ PublicRest lower d text := by
  refine forall₂_congr fun name text => ?_
  obtain ⟨hsame, hchecked⟩ := h.published_iff
  constructor
  · intro hpublic hdocument
    have hpublished := hsame.mpr hdocument
    exact (publicText_iff (hcheck (hchecked hpublished))).mp (hpublic hpublished)
  · intro hovert hpublished
    exact (publicText_iff (hcheck (hchecked hpublished))).mpr (hovert (hsame.mp hpublished))

end Publish

/-! ### Records that agree on what is public -/

/-- Two records agree on the public fields, and on the attributes that are allowed for their
type; where the attributes are no object they are the same. -/
structure Agree (source source' : List (String × Json N)) : Prop where
  fields : ∀ field ∈ publicFields, field ≠ "public_attributes" →
    source.lookup field = source'.lookup field
  attributes : source.lookup "public_attributes" = source'.lookup "public_attributes" ∨
    ∃ attributes attributes', source.lookup "public_attributes" = some (.obj attributes) ∧
      source'.lookup "public_attributes" = some (.obj attributes') ∧
      ∀ type names, source.lookup "type" = some (.str type) →
        publicAttributesByType.lookup type = some names →
          ∀ name ∈ names, attributes.lookup name = attributes'.lookup name

/-- The public fields other than the attributes. -/
def plainFields : List String := publicFields.filter (· ≠ "public_attributes")

/-- Replacing the attributes keeps the other public fields. -/
theorem insertMember_select {source : List (String × Json N)} {v : Json N}
    (h : source.lookup "public_attributes" = some v) (w : Json N) :
    JsonText.insertMember (select source publicFields) "public_attributes" w
      = select source plainFields ++ [("public_attributes", w)] := by
  have hsplit : select source publicFields
      = select source plainFields ++ [("public_attributes", v)] := by
    rw [show publicFields = plainFields ++ ["public_attributes"] from by decide, select,
      List.filterMap_append]
    simp [h, select]
  have hnot : ∀ m ∈ select source plainFields, m.1 ≠ "public_attributes" := by
    intro m hm
    obtain ⟨name, hname, hm⟩ := List.mem_filterMap.mp hm
    obtain ⟨v, -, rfl⟩ := Option.map_eq_some_iff.mp hm
    simpa using (List.mem_filter.mp hname).2
  rw [hsplit]
  generalize select source plainFields = fields at hnot
  induction fields with
  | nil => simp [JsonText.insertMember]
  | cons m rest ih =>
    obtain ⟨hm, hrest⟩ := List.forall_mem_cons.mp hnot
    rw [List.cons_append, JsonText.insertMember, if_neg hm, ih hrest, List.cons_append]

namespace Agree

variable {source source' : List (String × Json N)}

theorem select_plain (h : Agree source source') :
    select source plainFields = select source' plainFields := by
  refine select_congr fun field hfield => ?_
  obtain ⟨hpublic, hne⟩ := List.mem_filter.mp hfield
  exact h.fields field hpublic (by simpa using hne)

/-- Records with the same attributes have the same public part. -/
theorem select_public (h : Agree source source')
    (hsame : source.lookup "public_attributes" = source'.lookup "public_attributes") :
    select source publicFields = select source' publicFields := by
  refine select_congr fun field hfield => ?_
  by_cases hattributes : field = "public_attributes"
  · rw [hattributes, hsame]
  · exact h.fields field hfield hattributes

end Agree

end Oati.Conformance

import Mathlib.Data.List.Find
import Oati.Conformance.Screening
import Oati.Go.Value

/-!
# Public records: the Go SDK

`ProjectPublicRecord` and what it depends on. A run iterates over a map in an order of its own:
`Iteration` is the order of one run, and a result of the function is a result under some order.
-/

namespace Oati.Go.Projection

open Conformance
open JsonText (Keeps Decoder noConstant readValue skipWhitespace)

/-! ### Decoding -/

/-- The digits at the start of a text, of which there must be one. -/
def scanDigits (cs : List Char) : Option (List Char × List Char) :=
  if cs.takeWhile Char.isDigit = [] then none
  else some (cs.takeWhile Char.isDigit, cs.dropWhile Char.isDigit)

/-- The sign at the start of a text, if there is one. -/
def scanSign (isSign : Char → Bool) (cs : List Char) : List Char × List Char :=
  match cs with
  | c :: rest => if isSign c then ([c], rest) else ([], cs)
  | [] => ([], [])

/-- What the scanner reads of a number: it stops at the first character that cannot go on. -/
def scanNumber (cs : List Char) : Option (List Char × List Char) := do
  let (sign, cs) := scanSign (· == '-') cs
  let (whole, cs) ← match cs with
    | '0' :: rest => some (['0'], rest)
    | _ => scanDigits cs
  let (fraction, cs) ← match cs with
    | '.' :: rest => (scanDigits rest).map fun (digits, rest) => ('.' :: digits, rest)
    | _ => some ([], cs)
  let (exponent, cs) ← match cs with
    | e :: rest =>
      if e = 'e' ∨ e = 'E' then
        let (sign, rest) := scanSign (fun c => c == '+' || c == '-') rest
        (scanDigits rest).map fun (digits, rest) => (e :: sign ++ digits, rest)
      else some ([], cs)
    | [] => some ([], [])
  return (sign ++ whole ++ fraction ++ exponent, cs)

/-- `maxNestingDepth`. -/
def maxNestingDepth : ℕ := 10000

/-- `decode`: the first value of the data; what follows it is not read. A number at the top ends
where the scanner cannot go on. -/
def decodeFirst (cs : List Char) : Option (Json String × List Char) :=
  match skipWhitespace cs with
  | [] => none
  | c :: rest =>
    if c.isDigit || c == '-' then
      (scanNumber (c :: rest)).map fun (literal, after) => (.num (String.ofList literal), after)
    else
      (readValue noConstant (cs.length + 1) cs).filter fun p => p.1.depth ≤ maxNestingDepth

/-- The orders in which a run iterates over maps. -/
structure Iteration where
  /-- The keys of the attributes. -/
  keys : List String → List String
  keys_perm : ∀ names, (keys names).Perm names.dedup
  /-- The members of a decoded object. -/
  members : List (String × Json String) → List (String × Json String)
  members_keeps : Keeps members

/-- `decode` into an `any`. -/
def decoder (order : Iteration) : Decoder where
  read := decodeFirst
  keep := order.members
  keeps := order.members_keeps

/-! ### The projection -/

section

variable (lower : String → String) (order : Iteration)

/-- The check of one document. -/
def inspectPublicJSON (text name : String) : Except String Unit :=
  (screen lower (decoder order) text).mapError fun refusal =>
    "public attribute " ++ name ++ refusal.message

/-- The fields that a record must have. -/
def requiredFields : List String :=
  ["type", "id", "display_name", "status", "issuer", "proof_status", "public_attributes"]

/-- The record with the attributes that are allowed. -/
def publishRecord (result attributes : Object) (allowed : List String) :
    Except String Object := do
  let filtered ← publish (fun name text => inspectPublicJSON lower order text name)
    (fun name => "public attribute " ++ name ++ " must be a string")
    (select attributes ((order.keys (attributes.map Prod.fst)).filter (allowed.contains ·)))
  return JsonText.insertMember result "public_attributes" (.obj (ofTexts filtered))

/-- The projection of the public fields. -/
def projectFields (result : Object) : Except String Object :=
  match requiredFields.find? fun key => (result.lookup key).isNone with
  | some key => .error ("required public field " ++ key ++ " is missing")
  | none =>
    match publicAttributesByType.lookup (str (result.lookup "type")) with
    | none => .error "unsupported public record type"
    | some allowed =>
      match result.lookup "public_attributes" with
      | some (.obj attributes) => publishRecord lower order result attributes allowed
      | _ => .error "public_attributes must be an object"

/-- `ProjectPublicRecord`. -/
def ProjectPublicRecord (source : Object) : Except String Object :=
  projectFields lower order (select source publicFields)

end

variable {lower : String → String} {order : Iteration}

theorem inspectPublicJSON_eq_ok {name text : String}
    (h : inspectPublicJSON lower order text name = .ok ()) :
    screen lower (decoder order) text = .ok () := by
  cases hscreen : screen lower (decoder order) text with
  | ok => rfl
  | error refusal =>
    rw [inspectPublicJSON, hscreen] at h
    cases h

theorem lookup_publicFields {source : Object} {field : String} (h : field ∈ publicFields) :
    (select source publicFields).lookup field = source.lookup field := by
  rw [lookup_select, if_pos h]

theorem lookup_of_str {v : Option Value} {names : List String}
    (h : publicAttributesByType.lookup (str v) = some names) : v = some (.str (str v)) := by
  have hempty : publicAttributesByType.lookup "" = none := by decide
  unfold str at h ⊢
  split at h
  · rfl
  · rw [hempty] at h
    cases h

theorem mem_keys {attributes : Object} {name : String} {v : Value}
    (h : attributes.lookup name = some v) : name ∈ order.keys (attributes.map Prod.fst) := by
  rw [(order.keys_perm _).mem_iff, List.mem_dedup]
  exact List.mem_map_of_mem (List.mem_of_lookup_eq_some h)

/-- What a projection that succeeds has published. -/
theorem projects_of_ok {source record : Object}
    (h : ProjectPublicRecord lower order source = .ok record) :
    Projects (fun name text => inspectPublicJSON lower order text name)
      (fun name => "public attribute " ++ name ++ " must be a string") source record := by
  rw [ProjectPublicRecord, projectFields, lookup_publicFields (by decide),
    lookup_publicFields (by decide)] at h
  cases hmissing : requiredFields.find? fun key =>
      ((select source publicFields).lookup key).isNone with
  | some key => rw [hmissing] at h; cases h
  | none =>
    rw [hmissing] at h
    cases hallowed : publicAttributesByType.lookup (str (source.lookup "type")) with
    | none => rw [hallowed] at h; cases h
    | some allowed =>
      cases hattributes : source.lookup "public_attributes" with
      | none => rw [hallowed, hattributes] at h; cases h
      | some v =>
        rw [hallowed, hattributes] at h
        cases v with
        | obj attributes =>
          obtain ⟨texts, hpublish, hrecord⟩ := Conformance.bind_eq_ok.mp h
          obtain rfl := Except.ok.inj hrecord
          refine ⟨_, allowed, attributes, _, texts, lookup_of_str hallowed, hallowed, hattributes,
            fun name v hfound => ?_, hpublish, by rw [JsonText.lookup_insertMember, if_pos rfl]⟩
          rw [List.mem_filter, and_iff_right (mem_keys hfound), List.contains_iff_mem]
        | _ => cases h

/-- The documents of a record that is projected are public exactly if the members that the decoder
drops are, and what follows the first value. -/
theorem projectPublicRecord_public_iff {source record : Object}
    (h : ProjectPublicRecord lower order source = .ok record) :
    (∀ name text, Published record name text → PublicText lower (decoder order) text) ↔
      ∀ name text, Document source name text →
        OvertText lower (decoder order) text ∧ PublicRest lower (decoder order) text :=
  (projects_of_ok h).public_iff inspectPublicJSON_eq_ok

theorem mem_keys_iff {attributes : Object} {name : String} :
    name ∈ attributes.map Prod.fst ↔ attributes.lookup name ≠ none := by
  induction attributes with
  | nil => simp
  | cons m rest ih =>
    obtain ⟨key, v⟩ := m
    by_cases hname : name = key
    · simp [hname, List.lookup_cons_self]
    · rw [List.map_cons, List.mem_cons, or_iff_right hname, List.lookup_cons_of_ne hname, ih]

/-- Two maps with the same allowed keys may be iterated over alike, as far as these keys go. -/
theorem exists_iteration (order : Iteration) {names names' allowed : List String}
    (h : ∀ name ∈ allowed, name ∈ names ↔ name ∈ names') :
    ∃ order' : Iteration, decoder order' = decoder order ∧
      (order'.keys names').filter (allowed.contains ·)
        = (order.keys names).filter (allowed.contains ·) := by
  -- first the allowed keys in the order of the other run, then the rest
  let first := (order.keys names).filter (allowed.contains ·)
  let keys (ns : List String) : List String :=
    if ns = names' then first ++ ns.dedup.filter (!allowed.contains ·) else ns.dedup
  have hnodup : (order.keys names).Nodup :=
    (order.keys_perm names).nodup_iff.mpr (List.nodup_dedup names)
  have hfirst : first.Perm (names'.dedup.filter (allowed.contains ·)) := by
    refine (List.perm_ext_iff_of_nodup (hnodup.filter _) ((List.nodup_dedup _).filter _)).mpr ?_
    intro name
    simp only [List.mem_filter, (order.keys_perm names).mem_iff, List.mem_dedup,
      List.contains_iff_mem]
    exact and_congr_left fun hallowed => h name hallowed
  have hperm : ∀ ns, (keys ns).Perm ns.dedup := by
    intro ns
    by_cases hns : ns = names'
    · subst hns
      simp only [keys, if_pos]
      exact (hfirst.append_right _).trans (List.filter_append_perm _ _)
    · simp only [keys, if_neg hns]
      exact .refl _
  refine ⟨{ order with keys := keys, keys_perm := hperm }, rfl, ?_⟩
  simp [keys, first, List.filter_filter]

/-- Of two records that agree on what is public the one has the results of the other: for every
order there is one in which the iteration over the allowed keys is the same. -/
theorem projectPublicRecord_congr {source source' : Object} (h : Agree source source')
    (order : Iteration) : ∃ order' : Iteration,
      ProjectPublicRecord lower order' source' = ProjectPublicRecord lower order source := by
  rcases h.attributes with hsame | ⟨attributes, attributes', hobj, hobj', hagree⟩
  · exact ⟨order, by rw [ProjectPublicRecord, ← h.select_public hsame, ProjectPublicRecord]⟩
  · have hlookup : ∀ field ∈ publicFields, field ≠ "public_attributes" →
        source'.lookup field = source.lookup field := fun field hfield hne =>
      (h.fields field hfield hne).symm
    have hpublic : ∀ key ∈ requiredFields, key ∈ publicFields := by decide
    have hmissing : (requiredFields.find? fun key =>
          ((select source' publicFields).lookup key).isNone)
        = requiredFields.find? fun key => ((select source publicFields).lookup key).isNone := by
      refine List.find?_congr fun key hkey => ?_
      rw [lookup_publicFields (hpublic key hkey), lookup_publicFields (hpublic key hkey)]
      by_cases hattributes : key = "public_attributes"
      · rw [hattributes, hobj, hobj']
        rfl
      · rw [hlookup key (hpublic key hkey) hattributes]
    have htype := hlookup "type" (by decide) (by decide)
    cases hallowed : publicAttributesByType.lookup (str (source.lookup "type")) with
    | none =>
      refine ⟨order, ?_⟩
      simp only [ProjectPublicRecord, projectFields, hmissing,
        lookup_publicFields (show "type" ∈ publicFields by decide), htype, hallowed]
    | some allowed =>
      have hsame := hagree _ allowed (lookup_of_str hallowed) hallowed
      have hnames : ∀ name ∈ allowed, name ∈ attributes.map Prod.fst ↔
          name ∈ attributes'.map Prod.fst := fun name hname => by
        rw [mem_keys_iff, mem_keys_iff, hsame name hname]
      obtain ⟨order', hdecoder, hkeys⟩ := exists_iteration order hnames
      have hselect : select attributes' ((order'.keys (attributes'.map Prod.fst)).filter
            (allowed.contains ·))
          = select attributes ((order.keys (attributes.map Prod.fst)).filter
              (allowed.contains ·)) := by
        rw [hkeys]
        refine select_congr fun name hname => (hsame name ?_).symm
        exact List.contains_iff_mem.mp (List.mem_filter.mp hname).2
      refine ⟨order', ?_⟩
      simp only [ProjectPublicRecord, projectFields, hmissing,
        lookup_publicFields (show "type" ∈ publicFields by decide), htype, hallowed,
        lookup_publicFields (show "public_attributes" ∈ publicFields by decide), hobj, hobj',
        publishRecord, hselect, inspectPublicJSON, hdecoder, insertMember_select hobj,
        insertMember_select hobj', h.select_plain]

end Oati.Go.Projection

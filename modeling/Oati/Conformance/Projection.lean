import Oati.Go.Projection
import Oati.Python.Projection
import Oati.TypeScript.Projection

/-!
# What the public projections publish

The three SDKs project a registry record to its public part. The projection does not depend on
anything else (`Agree`), but the documents it publishes are texts, and the check looks at what a
decoder makes of them: of two members with one name the first is published unseen, and the Go
decoder does not even read what follows the first value.
-/

namespace Oati.Conformance

open Json (Part)
open JsonText (collect keeps_collect Decoder)
open TypeScript.Projection (jsonDecoder projectPublicRecord)
open Go.Projection (Iteration ProjectPublicRecord)
open Python.Projection (jsonLoads project_public_record)

/-- `{"a":{"secret":1},"a":1}`. -/
def shadowedChars : List Char :=
  ['{', '"', 'a', '"', ':', '{', '"', 's', 'e', 'c', 'r', 'e', 't', '"', ':', '1', '}', ',', '"',
    'a', '"', ':', '1', '}']

/-- `{}{"secret":1}`. -/
def trailingChars : List Char :=
  ['{', '}', '{', '"', 's', 'e', 'c', 'r', 'e', 't', '"', ':', '1', '}']

/-- A profile with a document. -/
def profileRecord {N : Type} (text : String) : List (String × Json N) :=
  [("type", .str "profile"), ("id", .str "oati:profile:1"), ("display_name", .str "Profile"),
    ("status", .str "active"), ("issuer", .str "oati:issuer:1"), ("proof_status", .str "verified"),
    ("public_attributes", .obj [("document", .str text)])]

/-- An order of iteration. -/
def plainOrder : Iteration where
  keys := List.dedup
  keys_perm := fun _ => .refl _
  members := collect
  members_keeps := keeps_collect

theorem readText_shadowed (constant : List Char → Option (Json String × List Char)) :
    JsonText.readText constant shadowedChars
      = some (.obj [("a", .obj [("secret", .num "1")]), ("a", .num "1")], []) := by
  rfl

theorem decodeFirst_shadowed : Go.Projection.decodeFirst shadowedChars
    = some (.obj [("a", .obj [("secret", .num "1")]), ("a", .num "1")], []) := by
  rfl

theorem decodeFirst_trailing : Go.Projection.decodeFirst trailingChars
    = some (.obj [], ['{', '"', 's', 'e', 'c', 'r', 'e', 't', '"', ':', '1', '}']) := by
  rfl

/-- The object with the secret may not be published. -/
theorem not_public_secret : ¬ Public id (.obj [("secret", Json.num "1")]) := by
  intro h
  exact (h _ rfl).1 ("secret", .num "1") List.mem_cons_self (by decide)

theorem screen_shadowed_typeScript :
    screen id jsonDecoder (String.ofList shadowedChars) = .ok () := by
  rw [screen, Decoder.decode, String.toList_ofList]
  decide

theorem screen_shadowed_go :
    screen id (Go.Projection.decoder plainOrder) (String.ofList shadowedChars) = .ok () := by
  rw [screen, Decoder.decode, String.toList_ofList]
  decide

theorem screen_trailing_go :
    screen id (Go.Projection.decoder plainOrder) (String.ofList trailingChars) = .ok () := by
  rw [screen, Decoder.decode, String.toList_ofList]
  decide

theorem screen_shadowed_python :
    screen id jsonLoads (String.ofList shadowedChars) = .ok () := by
  rw [screen, Decoder.decode, String.toList_ofList]
  decide

theorem select_profile {N : Type} (text : String) :
    select (profileRecord (N := N) text) publicFields = profileRecord text := by
  rfl

theorem publish_document {N ε : Type} {check : String → String → Except ε Unit}
    {notString : String → ε} {text : String} (h : check "document" text = .ok ()) :
    publish check notString [("document", (.str text : Json N))] = .ok [("document", text)] := by
  rw [publish, onDocument, if_pos (by decide), h]
  rfl

theorem projectPublicRecord_profile {text : String}
    (h : screen id jsonDecoder text = .ok ()) :
    projectPublicRecord id (profileRecord text) = .ok (profileRecord text) := by
  have hcheck : TypeScript.Projection.assertPublicJson id text "document" = .ok () := by
    rw [TypeScript.Projection.assertPublicJson, h]
    rfl
  rw [projectPublicRecord, select_profile]
  change (publish _ _ [("document", .str text)] >>= _) = _
  rw [publish_document hcheck]
  rfl

theorem ProjectPublicRecord_profile {text : String}
    (h : screen id (Go.Projection.decoder plainOrder) text = .ok ()) :
    ProjectPublicRecord id plainOrder (profileRecord text) = .ok (profileRecord text) := by
  have hcheck : Go.Projection.inspectPublicJSON id plainOrder text "document" = .ok () := by
    rw [Go.Projection.inspectPublicJSON, h]
    rfl
  rw [ProjectPublicRecord, select_profile]
  change (publish _ _ [("document", .str text)] >>= _) = _
  rw [publish_document hcheck]
  rfl

theorem project_public_record_profile {text : String} (h : screen id jsonLoads text = .ok ()) :
    project_public_record id (profileRecord text) = .ok (profileRecord text) := by
  have hcheck : Python.Projection.inspectText id "document" text = .ok () := by
    rw [Python.Projection.inspectText, h]
    rfl
  rw [project_public_record, select_profile]
  change (publish _ _ [("document", .str text)] >>= _) = _
  rw [publish_document hcheck]
  rfl

theorem published_profile {N : Type} (text : String) :
    Published (profileRecord (N := N) text) "document" text :=
  ⟨by decide, _, rfl, rfl⟩

/-- Where a decoder reads the text with the secret, the text is not public. -/
theorem not_publicText_shadowed {d : Decoder} (hread : d.read shadowedChars
    = some (.obj [("a", .obj [("secret", .num "1")]), ("a", .num "1")], [])) :
    ¬ PublicText id d (String.ofList shadowedChars) := by
  intro h
  rw [PublicText, String.toList_ofList] at h
  exact not_public_secret ((h _ _ hread).1 _ (.member List.mem_cons_self (.refl _)))

theorem not_publicText_trailing :
    ¬ PublicText id (Go.Projection.decoder plainOrder) (String.ofList trailingChars) := by
  intro h
  rw [PublicText, String.toList_ofList] at h
  have hsecret : Go.Projection.decodeFirst
      ['{', '"', 's', 'e', 'c', 'r', 'e', 't', '"', ':', '1', '}']
      = some (.obj [("secret", .num "1")], []) := by rfl
  exact not_public_secret
    ((h _ _ decodeFirst_trailing).2 _ (List.suffix_refl _) _ _ hsecret _ (.refl _))

end Oati.Conformance

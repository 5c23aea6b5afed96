import RecordSearch.Proofs.Document.Entries
import RecordSearch.Proofs.Document.Loading

/-!
# Documents and plain databases

The database of a document is the one that its definitions and its data alone write.

* `Defines`: the name and the definition that an entry gives.
* `SameField`, `SameSearch`: entries and documents that differ in their presentation only.
* `database_of_reads`: the database of a document is read from its definitions and its data.
* `ofJson_plain`: hence documents that differ in their presentation only are searched alike.
-/

namespace RecordSearch
namespace Document

open Layout Traversal

/-- The members of an entry that do not define its field. -/
def presentationNames : List String :=
  ["name", "listed", "comparison", "operator", "case", "modes"]

/-- The members of an entry that define its field, in order. -/
def plain (raw : Members) : Members :=
  raw.filter fun member => member.1 ∉ presentationNames

/-- The entry gives the definition under its name. -/
def Defines (raw : Members) (definition : String × Json) : Prop :=
  Members.get? "name" raw = some (.string definition.1) ∧ definition.2 = .object (plain raw)

/-- The entries agree in their name and in what defines the field. -/
structure SameField (raw raw' : Members) : Prop where
  name : Members.get? "name" raw = Members.get? "name" raw'
  definition : plain raw = plain raw'

/-- The documents have the same data, and the same fields but for their presentation and their groups. -/
inductive SameSearch : Json → Json → Prop
  | intro {members members' : Members} {items items' : List Json}
      (hitems : Members.get? "fields" members = some (.array items))
      (hitems' : Members.get? "fields" members' = some (.array items'))
      (hentries : List.Forall₂ SameField (rawEntries items) (rawEntries items'))
      (hdata : Members.get? "data" members = Members.get? "data" members') :
      SameSearch (.object members) (.object members')

theorem definitionOf_eq (raw : Members) : Presentation.definitionOf raw = plain raw := by
  refine List.filter_congr fun member _ => ?_
  have hnames : Presentation.shape.names = presentationNames := rfl
  rw [hnames]
  simp

/-- An entry that is described is defined by what is kept of it. -/
theorem defines_of_describes {raw : Members} {entry : FieldEntry} (h : Describes raw entry) :
    Defines raw (entry.presentation.name, .object entry.definition) := by
  obtain ⟨hname, hdefinition⟩ := Presentation.name_of_ofEntry h
  exact ⟨hname, by rw [hdefinition, definitionOf_eq]⟩

/-- The definitions of entries, by name. -/
def definitionsOf (entries : Entries) : Members :=
  entries.map fun entry => (entry.presentation.name, .object entry.definition)

theorem names_definitionsOf (entries : Entries) : Members.names (definitionsOf entries) = entryNames entries := by
  rw [Members.names, definitionsOf, List.map_map]
  rfl

/-- A field is made from its entry as from its definition under the same name. -/
theorem fieldsOfMembers_definitionsOf (records : List Json) (entries : Entries) (fields : List (String × Field)) :
    Database.fieldsOfMembers records (definitionsOf entries) = .ok fields ↔ fieldsOf records entries = .ok fields := by
  rw [Database.fieldsOfMembers, fieldsOf, mapM_eq_ok_iff, mapM_eq_ok_iff, definitionsOf, List.forall₂_map_left_iff]
  rfl

/-- What a plain database takes from a document. -/
structure Plain (value : Json) (definitions : Members) (data : Json) : Prop where
  parts : ∃ members items, value = .object members ∧ Members.get? "fields" members = some (.array items) ∧
    Members.get? "data" members = some data ∧ List.Forall₂ Defines (rawEntries items) definitions
  nodup : (Members.names definitions).Nodup

/-- The database of a document is read from its definitions and its data. -/
theorem database_of_reads {fallback : String} {members : Members} {warnings : List Warning} {doc : Document}
    (h : Reads fallback members warnings doc) :
    ∃ definitions data given, Plain (.object members) definitions data ∧
      Database.ofJson (.object [("fields", .object definitions), ("data", data)]) = ⟨given, .ok doc.database⟩ := by
  cases h with
  | @intro _ _ items data _ _ entries _ _ given _ _ _ _ hitems hdata hrecords hlayout hfields _ =>
      have hcollected := collected_ofItems hlayout
      obtain ⟨own, hown, hdescribed⟩ := hcollected.entries
      obtain rfl : entries = own := hown
      have hdefined : List.Forall₂ Defines (rawEntries items) (definitionsOf entries) := by
        rw [definitionsOf, List.forall₂_map_right_iff]
        exact hdescribed.imp fun _ _ hraw => defines_of_describes hraw
      refine ⟨definitionsOf entries, data, given, ⟨⟨members, items, rfl, hitems, hdata, hdefined⟩, ?_⟩, ?_⟩
      · rw [names_definitionsOf]
        exact hcollected.nodup List.nodup_nil
      · exact Database.ofJson_of_parts hrecords ((fieldsOfMembers_definitionsOf _ _ _).mpr hfields)

theorem definition_eq {raw raw' : Members} {definition definition' : String × Json} (hsame : SameField raw raw')
    (h : Defines raw definition) (h' : Defines raw' definition') : definition = definition' := by
  have hname := Json.string.inj (Option.some.inj (h.1.symm.trans (hsame.name.trans h'.1)))
  exact Prod.ext hname (by rw [h.2, h'.2, hsame.definition])

theorem definitions_eq {raws raws' : List Members} {definitions definitions' : Members}
    (hsame : List.Forall₂ SameField raws raws') (h : List.Forall₂ Defines raws definitions)
    (h' : List.Forall₂ Defines raws' definitions') : definitions = definitions' := by
  induction hsame generalizing definitions definitions' with
  | nil =>
      cases h
      cases h'
      rfl
  | cons hfirst _ ih =>
      cases h with
      | cons hraw hrest =>
          cases h' with
          | cons hraw' hrest' => rw [definition_eq hfirst hraw hraw', ih hrest hrest']

/-- Documents that differ in their presentation only take the same from a plain database. -/
theorem plain_eq_of_sameSearch {value value' : Json} (hsame : SameSearch value value') {definitions definitions' : Members}
    {data data' : Json} (h : Plain value definitions data) (h' : Plain value' definitions' data') :
    definitions = definitions' ∧ data = data' := by
  obtain ⟨members, items, rfl, hitems, hdata, hdefined⟩ := h.parts
  obtain ⟨members', items', rfl, hitems', hdata', hdefined'⟩ := h'.parts
  cases hsame with
  | intro hwritten hwritten' hentries hboth =>
      obtain rfl := Json.array.inj (Option.some.inj (hitems.symm.trans hwritten))
      obtain rfl := Json.array.inj (Option.some.inj (hitems'.symm.trans hwritten'))
      exact ⟨definitions_eq hentries hdefined hdefined',
        Option.some.inj (hdata.symm.trans (hboth.trans hdata'))⟩

/-- **The presentation of a document does not reach its searches.**  The database of a document that is accepted is read
from its definitions by name, in the order of its entries, and its data; and accepted documents that differ in their
presentation only answer every query alike. -/
theorem ofJson_plain :
    (∀ fallback value warnings doc, ofJson fallback value = ⟨warnings, .ok doc⟩ →
      ∃ definitions data given, Plain value definitions data ∧
        Database.ofJson (.object [("fields", .object definitions), ("data", data)]) = ⟨given, .ok doc.database⟩) ∧
    (∀ fallback fallback' value value' warnings warnings' doc doc',
      ofJson fallback value = ⟨warnings, .ok doc⟩ → ofJson fallback' value' = ⟨warnings', .ok doc'⟩ →
      SameSearch value value' →
      doc.database = doc'.database ∧ ∀ query operator, doc.search query operator = doc'.search query operator) := by
  have hplain : ∀ fallback value warnings doc, ofJson fallback value = ⟨warnings, .ok doc⟩ →
      ∃ definitions data given, Plain value definitions data ∧
        Database.ofJson (.object [("fields", .object definitions), ("data", data)]) = ⟨given, .ok doc.database⟩ := by
    intro fallback value warnings doc h
    obtain ⟨members, rfl, hreads⟩ := (ofJson_eq_ok_iff _ _ _ _).mp h
    exact database_of_reads hreads
  refine ⟨hplain, ?_⟩
  intro fallback fallback' value value' warnings warnings' doc doc' h h' hsame
  obtain ⟨definitions, data, given, hvalue, hdatabase⟩ := hplain _ _ _ _ h
  obtain ⟨definitions', data', given', hvalue', hdatabase'⟩ := hplain _ _ _ _ h'
  obtain ⟨rfl, rfl⟩ := plain_eq_of_sameSearch hsame hvalue hvalue'
  have hequal : doc.database = doc'.database := by
    have hread := congrArg Decoding.result (hdatabase.symm.trans hdatabase')
    exact Except.ok.inj hread
  refine ⟨hequal, fun query operator => ?_⟩
  rw [search, search, hequal]

/-- Two fields, listed with settings of their own in one document, and grouped with others in another one. -/
theorem ofJson_plain_regrouped :
    let genre : Members := [("name", .string "Genre"), ("type", .string "Option"), ("key", .string "genre")]
    let genre' : Members := [("type", .string "Option"), ("modes", .string "essay"), ("name", .string "Genre"),
      ("operator", .string "all"), ("key", .string "genre")]
    let pages : Members := [("name", .string "Pages"), ("type", .string "Integer"), ("comparison", .string "<"),
      ("key", .string "pages"), ("listed", .array [.int 100])]
    let pages' : Members := [("type", .string "Integer"), ("case", .bool true), ("key", .string "pages"),
      ("name", .string "Pages")]
    let data : Json := .array [.object [("genre", .string "essay"), ("pages", .int 120)], .null]
    let document : Members := [("version", .string "1.0"), ("name", .string "shelf"),
      ("fields", .array [.object genre, .object pages]), ("data", data)]
    let document' : Members := [("version", .string "1.1"), ("display_string", .string "\x7bgenre\x7d"), ("data", data),
      ("fields", .array [.array [.object genre', .array [.object pages']]])]
    ∃ warnings warnings' doc doc', ofJson "books" (.object document) = ⟨warnings, .ok doc⟩ ∧
      ofJson "books" (.object document') = ⟨warnings', .ok doc'⟩ ∧
      SameSearch (.object document) (.object document') ∧
      (∃ definitions data given, Plain (.object document) definitions data ∧
        Database.ofJson (.object [("fields", .object definitions), ("data", data)]) = ⟨given, .ok doc.database⟩) ∧
      doc.database = doc'.database ∧ ∀ query operator, doc.search query operator = doc'.search query operator := by
  intro genre genre' pages pages' data document document'
  have hread : ∃ warnings doc, ofJson "books" (.object document) = ⟨warnings, .ok doc⟩ := ⟨_, _, rfl⟩
  have hread' : ∃ warnings doc, ofJson "books" (.object document') = ⟨warnings, .ok doc⟩ := ⟨_, _, rfl⟩
  obtain ⟨warnings, doc, hread⟩ := hread
  obtain ⟨warnings', doc', hread'⟩ := hread'
  have hgenre : SameField genre genre' := ⟨rfl, rfl⟩
  have hpages : SameField pages pages' := ⟨rfl, rfl⟩
  have hsame : SameSearch (.object document) (.object document') :=
    .intro rfl rfl (.cons hgenre (.cons hpages .nil)) rfl
  exact ⟨warnings, warnings', doc, doc', hread, hread', hsame, ofJson_plain.1 _ _ _ _ hread,
    ofJson_plain.2 _ _ _ _ _ _ _ _ hread hread' hsame⟩

end Document
end RecordSearch

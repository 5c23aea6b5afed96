import RecordSearch.Proofs.Document.Loading
import RecordSearch.Proofs.Field.Written

/-!
# Databases that are written and read

A database that was read, alone or in a document, is read again from what it writes: the same records and the same
fields, without warnings.

* `Canonical`: the records are objects and the fields are canonical; `canonical_of_ofJson` and
  `canonical_of_document`: reading ensures this.
* `ofJson_toJson_of_canonical`: a canonical database is read from what it writes.
* `ofJson_written`: all of this together, and the same for a single field against any records.
-/

namespace RecordSearch
namespace Database

open Decoding
open Traversal hiding bind_eq_ok_iff

/-- The records are objects, and the fields are as reading leaves them. -/
structure Canonical (db : Database) : Prop where
  records : ∀ record ∈ db.records, record.isObject = true
  fields : ∀ entry ∈ db.fields, entry.2.Canonical

section Reading

theorem canonical_of_ofJson {value : Json} {warnings : List Warning} {db : Database}
    (h : ofJson value = ⟨warnings, .ok db⟩) : db.Canonical := by
  cases value with
  | object members =>
      simp only [ofJson] at h
      split at h
      · cases h
      · cases h
      · obtain ⟨_, h, _⟩ := (warn_bind_eq_ok_iff _ _ _ _).mp h
        split at h
        · obtain ⟨records, _, _, hrecords, h, _⟩ := (bind_eq_ok_iff _ _ _ _).mp h
          obtain ⟨fields, hfields, h⟩ := (lift_bind_eq_ok_iff _ _ _ _).mp h
          obtain ⟨_, rfl⟩ := (pure_eq_ok_iff _ _ _).mp h
          refine ⟨isObject_of_recordsOfJson hrecords, fun entry hentry => ?_⟩
          obtain ⟨_, _, _, hfield⟩ := exists_of_mem_mapM_keyed hfields hentry
          exact Field.canonical_of_ofJson hfield
        · cases h
  | _ => cases h

theorem canonical_of_document {fallback : String} {value : Json} {warnings : List Warning} {document : Document}
    (h : Document.ofJson fallback value = ⟨warnings, .ok document⟩) : document.database.Canonical := by
  obtain ⟨members, rfl, hreads⟩ := (Document.ofJson_eq_ok_iff _ _ _ _).mp h
  cases hreads with
  | intro _ _ _ _ hrecords _ hfields _ =>
      refine ⟨isObject_of_recordsOfJson hrecords, fun entry hentry => ?_⟩
      obtain ⟨_, _, _, hfield⟩ := exists_of_mem_mapM_keyed hfields hentry
      exact Field.canonical_of_ofMembers hfield

end Reading

section Writing

theorem fieldsOfMembers_toJson {fields : List (String × Field)} (h : ∀ entry ∈ fields, entry.2.Canonical)
    (records : List Json) :
    fieldsOfMembers records (fields.map fun (name, field) => (name, field.toJson)) = .ok fields := by
  rw [fieldsOfMembers, mapM_eq_ok_iff, List.forall₂_map_left_iff, List.forall₂_same]
  intro entry hentry
  obtain ⟨name, field⟩ := entry
  simp only [Field.ofJson_toJson (h _ hentry)]
  rfl

theorem ofJson_toJson_of_canonical {db : Database} (h : db.Canonical) : ofJson db.toJson = ⟨[], .ok db⟩ :=
  ofJson_of_parts (recordsOfJson_array h.records) (fieldsOfMembers_toJson h.fields db.records)

end Writing

/-- **A database is read again from what it writes**, without warnings, whether it was read alone or in a document; and
a field is read again from what it writes against any records, under any name. -/
theorem ofJson_written :
    (∀ value warnings db, ofJson value = ⟨warnings, .ok db⟩ → ofJson db.toJson = ⟨[], .ok db⟩) ∧
    (∀ fallback value warnings document, Document.ofJson fallback value = ⟨warnings, .ok document⟩ →
      ofJson document.database.toJson = ⟨[], .ok document.database⟩) ∧
    (∀ name definition records field, Field.ofJson name definition records = .ok field →
      ∀ (name' : String) (records' : List Json), Field.ofJson name' field.toJson records' = .ok field) := by
  refine ⟨?_, ?_, ?_⟩
  · intro value warnings db h
    exact ofJson_toJson_of_canonical (canonical_of_ofJson h)
  · intro fallback value warnings document h
    exact ofJson_toJson_of_canonical (canonical_of_document h)
  · intro name definition records field h name' records'
    exact Field.ofJson_toJson (Field.canonical_of_ofJson h) name' records'

/-- A field that takes its choices from the records keeps them without these records. -/
theorem ofJson_written_genres :
    let genre : Json := .object [("key", .string "about.genre"), ("type", .string "Option")]
    let records : List Json := [.object [("about", .object [("genre", .string "sf")])]]
    let field : Field := ⟨[.key "about", .key "genre"], true, .option [.str "sf"] false⟩
    let db : Database := ⟨records, [("Genre", field)]⟩
    let value : Json := .object [("fields", .object [("Genre", genre)]), ("data", .array (.null :: records))]
    let document : Json := .object [("version", .string "1.0"), ("data", .array records),
      ("fields", .array [.object [("name", .string "Genre"), ("key", .string "about.genre"),
        ("type", .string "Option")]])]
    ofJson value = ⟨[.ignoredData "0"], .ok db⟩ ∧ ofJson db.toJson = ⟨[], .ok db⟩ ∧
      (∃ read, Document.ofJson "books" document = ⟨[], .ok read⟩ ∧ read.database = db ∧
        ofJson read.database.toJson = ⟨[], .ok read.database⟩) ∧
      Field.ofJson "Genre" genre records = .ok field ∧ Field.ofJson "Genre" field.toJson [] = .ok field := by
  intro genre records field db value document
  obtain ⟨hdatabase, hdocument, hfield⟩ := ofJson_written
  have hvalue : ofJson value = ⟨[.ignoredData "0"], .ok db⟩ := by
    rfl
  have hgenre : Field.ofJson "Genre" genre records = .ok field := by
    rfl
  refine ⟨hvalue, hdatabase _ _ _ hvalue, ?_, hgenre, hfield _ _ _ _ hgenre "Genre" []⟩
  have hread : Document.ofJson "books" document = ⟨[], .ok ⟨"books", ⟨1, 0, none⟩, .default, [.field "Genre"],
      [("Genre", { name := "Genre" })], db, []⟩⟩ := by
    rfl
  exact ⟨_, hread, rfl, hdocument _ _ _ _ hread⟩

end Database
end RecordSearch

import RecordSearch.Database
import RecordSearch.Proofs.Traversal

/-!
# Records of a database

The records are those entries of the data that are objects, in order.

* `isObject_of_recordsOfJson`: whatever the data is, only objects become records.
* `recordsOfJson_array`, `result_recordsOfJson_array`: an array of objects is read as these records, without warnings;
  any other array as the objects in it.
* `ofRecords_of_isObject`: records that are objects make a database.
* `ofJson_of_parts`, `result_ofJson`: a database is read from its definitions and its data.
-/

namespace RecordSearch
namespace Database

open Decoding
open Traversal hiding bind_eq_ok_iff

theorem objectsOf_cons (entry : String × Json) (entries : List (String × Json)) :
    objectsOf (entry :: entries) =
      if entry.2.isObject then (do
        let others ← objectsOf entries
        return entry.2 :: others)
      else (do
        Decoding.warn [.ignoredData entry.1]
        objectsOf entries) :=
  rfl

theorem recordsOfJson_items (items : List Json) : recordsOfJson (.array items) = objectsOf (namedItems items) :=
  rfl

theorem isObject_of_objectsOf {entries : List (String × Json)} {warnings : List Warning} {records : List Json}
    (h : objectsOf entries = ⟨warnings, .ok records⟩) : ∀ record ∈ records, record.isObject = true := by
  induction entries generalizing warnings records with
  | nil =>
      obtain ⟨_, rfl⟩ := (pure_eq_ok_iff _ _ _).mp h
      simp
  | cons entry rest ih =>
      rw [objectsOf_cons] at h
      split at h
      · rename_i hobject
        obtain ⟨others, hothers, rfl⟩ := (bind_pure_eq_ok_iff _ _ _ _).mp h
        exact List.forall_mem_cons.mpr ⟨hobject, ih hothers⟩
      · obtain ⟨_, hothers, _⟩ := (warn_bind_eq_ok_iff _ _ _ _).mp h
        exact ih hothers

theorem isObject_of_recordsOfJson {data : Json} {warnings : List Warning} {records : List Json}
    (h : recordsOfJson data = ⟨warnings, .ok records⟩) : ∀ record ∈ records, record.isObject = true := by
  cases data with
  | array items => exact isObject_of_objectsOf h
  | object members => exact isObject_of_objectsOf h
  | _ => cases h

/-- Entries that are all objects are all kept, without warnings. -/
theorem objectsOf_of_isObject {entries : List (String × Json)} (h : ∀ entry ∈ entries, entry.2.isObject = true) :
    objectsOf entries = ⟨[], .ok (entries.map (·.2))⟩ := by
  induction entries with
  | nil =>
      rfl
  | cons entry rest ih =>
      obtain ⟨hentry, hrest⟩ := List.forall_mem_cons.mp h
      rw [objectsOf_cons, if_pos hentry, ih hrest]
      rfl

theorem namedItems_snd (items : List Json) : (namedItems items).map (·.2) = items := by
  rw [namedItems, List.map_map]
  exact List.zipIdx_map_fst 0 items

theorem recordsOfJson_array {records : List Json} (h : ∀ record ∈ records, record.isObject = true) :
    recordsOfJson (.array records) = ⟨[], .ok records⟩ := by
  have hentries : ∀ entry ∈ namedItems records, entry.2.isObject = true := by
    rw [← List.forall_mem_map (f := Prod.snd) (P := fun v : Json => v.isObject = true), namedItems_snd]
    exact h
  rw [recordsOfJson_items, objectsOf_of_isObject hentries, namedItems_snd]

theorem result_objectsOf (entries : List (String × Json)) :
    (objectsOf entries).result = .ok ((entries.map (·.2)).filter Json.isObject) := by
  induction entries with
  | nil =>
      rfl
  | cons entry rest ih =>
      rw [objectsOf_cons, List.map_cons]
      cases hrest : objectsOf rest with
      | mk warnings result =>
          rw [hrest] at ih
          obtain rfl := ih
          by_cases hobject : entry.2.isObject = true
          · rw [if_pos hobject, List.filter_cons_of_pos hobject]
            rfl
          · rw [if_neg hobject, List.filter_cons_of_neg hobject]
            rfl

/-- Of an array the objects become records. -/
theorem result_recordsOfJson_array (items : List Json) :
    (recordsOfJson (.array items)).result = .ok (items.filter Json.isObject) := by
  rw [recordsOfJson_items, result_objectsOf, namedItems_snd]

theorem ofRecords_of_isObject {records : List Json} (h : ∀ record ∈ records, record.isObject = true)
    (fields : List (String × Field)) : ofRecords records fields = .ok ⟨records, fields⟩ := by
  have hchecked : (records.forM fun record => (JsonType.object.check record).mapError Error.type) = .ok () := by
    rw [forM_eq_ok_iff]
    intro record hrecord
    have hobject := h record hrecord
    cases record with
    | object members => rfl
    | _ => cases hobject
  rw [ofRecords, hchecked]
  rfl

theorem ofJson_definitions_data (definitions : Members) (data : Json) :
    ofJson (.object [("fields", .object definitions), ("data", data)]) = (do
      Decoding.warn []
      let records ← recordsOfJson data
      let fields ← fieldsOfMembers records definitions
      return ⟨records, fields⟩) :=
  rfl

/-- The database of definitions and data has the warnings of the data. -/
theorem ofJson_of_parts {definitions : Members} {data : Json} {warnings : List Warning} {records : List Json}
    {fields : List (String × Field)} (hrecords : recordsOfJson data = ⟨warnings, .ok records⟩)
    (hfields : fieldsOfMembers records definitions = .ok fields) :
    ofJson (.object [("fields", .object definitions), ("data", data)]) = ⟨warnings, .ok ⟨records, fields⟩⟩ := by
  rw [ofJson_definitions_data, warn_bind_eq_ok_iff]
  refine ⟨warnings, ?_, rfl⟩
  rw [hrecords, bind_eq_ok_iff]
  refine ⟨records, warnings, [], rfl, ?_, (List.append_nil _).symm⟩
  rw [lift_bind_eq_ok_iff]
  exact ⟨fields, hfields, rfl⟩

/-- Reading the fields of a database decides whether it is read. -/
theorem result_ofJson {data : Json} {records : List Json} (hrecords : (recordsOfJson data).result = .ok records)
    (definitions : Members) :
    (ofJson (.object [("fields", .object definitions), ("data", data)])).result =
      (fieldsOfMembers records definitions).map fun fields => ⟨records, fields⟩ := by
  rw [ofJson_definitions_data]
  cases hdata : recordsOfJson data with
  | mk warnings result =>
      rw [hdata] at hrecords
      obtain rfl := hrecords
      cases hfields : fieldsOfMembers records definitions with
      | error e => simp only [Decoding.ok_bind, Decoding.warn, hfields]; rfl
      | ok fields => simp only [Decoding.ok_bind, Decoding.warn, hfields]; rfl

end Database
end RecordSearch

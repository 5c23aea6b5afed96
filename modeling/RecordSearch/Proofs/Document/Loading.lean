import RecordSearch.Document
import RecordSearch.Proofs.Database.Records

/-!
# Loading of documents

What a document that is accepted has been read from.

* `Reads`: each part of the document, with the part of the members that it is read from.
* `ofJson_eq_ok_iff`: a document is accepted exactly if each of its parts is.
-/

namespace RecordSearch
namespace Document

theorem fieldListOf_eq_ok_iff (members : Members) (items : List Json) :
    fieldListOf members = .ok items ↔ Members.get? "fields" members = some (.array items) := by
  rw [fieldListOf]
  split
  · rename_i found hfound
    simp [hfound]
  · rename_i hno
    exact ⟨nofun, fun h => absurd h (hno items)⟩

theorem dataOf_eq_ok_iff (members : Members) (data : Json) :
    dataOf members = .ok data ↔ Members.get? "data" members = some data := by
  rw [dataOf]
  split
  · rename_i found hfound
    simp [hfound]
  · rename_i hnone
    simp [hnone]

/-- The members write the document; the warnings are those about the members that are not used, the data, the fields
and the template. -/
inductive Reads (fallback : String) (members : Members) : List Warning → Document → Prop
  | intro {version : Version} {name : String} {items : List Json} {data : Json} {records : List Json}
      {layout : List Layout} {entries : Layout.Entries} {fields : List (String × Field)} {template : Template}
      {w₁ w₂ w₃ : List Warning}
      (hversion : versionOf members = .ok version)
      (hname : nameOf fallback members = .ok name)
      (hitems : Members.get? "fields" members = some (.array items))
      (hdata : Members.get? "data" members = some data)
      (hrecords : Database.recordsOfJson data = ⟨w₁, .ok records⟩)
      (hlayout : Layout.ofItems [] items = ⟨w₂, .ok (layout, entries)⟩)
      (hfields : fieldsOf records entries = .ok fields)
      (htemplate : templateOf members = ⟨w₃, .ok template⟩) :
      Reads fallback members ((unusedNames members).map .unusedInDocument ++ (w₁ ++ (w₂ ++ w₃)))
        ⟨name, version, template, layout, entries.map fun entry => (entry.presentation.name, entry.presentation),
          ⟨records, fields⟩, modesOf entries⟩

section

variable (fallback : String) (warnings : List Warning) (doc : Document)

theorem ofMembers_eq_ok_iff (members : Members) :
    ofMembers fallback members = ⟨warnings, .ok doc⟩ ↔ Reads fallback members warnings doc := by
  constructor
  · intro h
    obtain ⟨version, hversion, h⟩ := (Decoding.lift_bind_eq_ok_iff _ _ _ _).mp h
    obtain ⟨_, h, hwarnings⟩ := (Decoding.warn_bind_eq_ok_iff _ _ _ _).mp h
    obtain ⟨name, hname, h⟩ := (Decoding.lift_bind_eq_ok_iff _ _ _ _).mp h
    obtain ⟨items, hitems, h⟩ := (Decoding.lift_bind_eq_ok_iff _ _ _ _).mp h
    obtain ⟨data, hdata, h⟩ := (Decoding.lift_bind_eq_ok_iff _ _ _ _).mp h
    obtain ⟨records, w₁, _, hrecords, h, hw₁⟩ := (Decoding.bind_eq_ok_iff _ _ _ _).mp h
    obtain ⟨⟨layout, entries⟩, w₂, _, hlayout, h, hw₂⟩ := (Decoding.bind_eq_ok_iff _ _ _ _).mp h
    obtain ⟨fields, hfields, h⟩ := (Decoding.lift_bind_eq_ok_iff _ _ _ _).mp h
    obtain ⟨template, w₃, _, htemplate, h, hw₃⟩ := (Decoding.bind_eq_ok_iff _ _ _ _).mp h
    obtain ⟨database, hdatabase, h⟩ := (Decoding.lift_bind_eq_ok_iff _ _ _ _).mp h
    obtain ⟨hw, rfl⟩ := (Decoding.pure_eq_ok_iff _ _ _).mp h
    rw [Database.ofRecords_of_isObject (Database.isObject_of_recordsOfJson hrecords)] at hdatabase
    cases hdatabase
    rw [hwarnings, hw₁, hw₂, hw₃, hw, List.append_nil]
    exact Reads.intro hversion hname ((fieldListOf_eq_ok_iff _ _).mp hitems) ((dataOf_eq_ok_iff _ _).mp hdata)
      hrecords hlayout hfields htemplate
  · intro h
    cases h with
    | @intro version name items data records layout entries fields template w₁ w₂ w₃ hversion hname hitems hdata
        hrecords hlayout hfields htemplate =>
        have hdatabase := Database.ofRecords_of_isObject (Database.isObject_of_recordsOfJson hrecords) fields
        rw [ofMembers, Decoding.lift_bind_eq_ok_iff]
        refine ⟨version, hversion, ?_⟩
        rw [Decoding.warn_bind_eq_ok_iff]
        refine ⟨_, ?_, rfl⟩
        rw [Decoding.lift_bind_eq_ok_iff]
        refine ⟨name, hname, ?_⟩
        rw [Decoding.lift_bind_eq_ok_iff]
        refine ⟨items, (fieldListOf_eq_ok_iff _ _).mpr hitems, ?_⟩
        rw [Decoding.lift_bind_eq_ok_iff]
        refine ⟨data, (dataOf_eq_ok_iff _ _).mpr hdata, ?_⟩
        rw [Decoding.bind_eq_ok_iff]
        refine ⟨records, w₁, _, hrecords, ?_, rfl⟩
        rw [Decoding.bind_eq_ok_iff]
        refine ⟨(layout, entries), w₂, _, hlayout, ?_, rfl⟩
        rw [Decoding.lift_bind_eq_ok_iff]
        refine ⟨fields, hfields, ?_⟩
        rw [Decoding.bind_eq_ok_iff]
        refine ⟨template, w₃, [], htemplate, ?_, (List.append_nil _).symm⟩
        rw [Decoding.lift_bind_eq_ok_iff]
        exact ⟨_, hdatabase, rfl⟩

/-- A document is accepted exactly if it is an object the members of which write it. -/
theorem ofJson_eq_ok_iff (value : Json) :
    ofJson fallback value = ⟨warnings, .ok doc⟩ ↔
      ∃ members, value = .object members ∧ Reads fallback members warnings doc := by
  cases value with
  | object members =>
      rw [ofJson, ofMembers_eq_ok_iff]
      simp
  | _ => simp [ofJson, Decoding.fail]

end

end Document
end RecordSearch

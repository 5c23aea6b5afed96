import RecordSearch.Database
import RecordSearch.Document.Criteria
import RecordSearch.Document.Layout
import RecordSearch.Template.Json

/-!
# Documents

A document holds a version, a name, the fields with their presentation, the records and a template for them.
-/

namespace RecordSearch

/-- A document. -/
structure Document where
  name : String
  version : Version
  template : Template
  layout : List Layout
  /-- How the fields are presented, by name, in the order of the database. -/
  presentations : List (String × Presentation)
  database : Database
  /-- Every mode that shows some field, in order of first appearance. -/
  modes : List String

namespace Document

/-- The members that a document may have. -/
def memberNames : List String :=
  ["version", "name", "fields", "data", "display_string"]

/-- The names that a document has no use for. -/
def unusedNames (members : Members) : List String :=
  (Members.names members).filter fun name => !memberNames.contains name

/-- The version of a document, which this engine must be able to read. -/
def versionOf (members : Members) : Except Error Version :=
  match Members.get? "version" members with
  | some (.string text) => Version.check text
  | some found => .error (.invalidVersion found.compact)
  | none => .error (.malformedDocument .withoutVersion)

/-- The name of a document, or another one for it. -/
def nameOf (fallback : String) (members : Members) : Except Error String :=
  match Members.get? "name" members with
  | none | some .null => .ok fallback
  | some (.string name) => .ok name
  | some found => .error (.malformedDocument (.nameNotString found))

/-- The list of fields of a document. -/
def fieldListOf (members : Members) : Except Error (List Json) :=
  match Members.get? "fields" members with
  | some (.array items) => .ok items
  | _ => .error (.malformedDocument .fieldsNotArray)

/-- The data of a document. -/
def dataOf (members : Members) : Except Error Json :=
  match Members.get? "data" members with
  | some data => .ok data
  | none => .error (.malformedDocument .withoutData)

/-- The template of a document. -/
def templateOf (members : Members) : Decoding Template :=
  match Members.get? "display_string" members with
  | some value => Template.ofJson value
  | none => pure .default

/-- The fields that entries define, by name. -/
def fieldsOf (records : List Json) (entries : Layout.Entries) : Except Error (List (String × Field)) :=
  entries.mapM fun entry => do
    let name := entry.presentation.name
    let field ← Field.ofMembers name entry.definition records
    return (name, field)

/-- The modes that presentations name, in order of first appearance. -/
def modesOf (entries : Layout.Entries) : List String :=
  (entries.flatMap fun entry => entry.presentation.modes.getD []).eraseDups

/-- The document that members write. -/
def ofMembers (fallback : String) (members : Members) : Decoding Document := do
  let version ← versionOf members
  Decoding.warn ((unusedNames members).map .unusedInDocument)
  let name ← nameOf fallback members
  let fieldList ← fieldListOf members
  let data ← dataOf members
  let records ← Database.recordsOfJson data
  let (layout, entries) ← Layout.ofItems [] fieldList
  let fields ← fieldsOf records entries
  let template ← templateOf members
  let database ← Database.ofRecords records fields
  return {
    name, version, template, layout, database
    presentations := entries.map fun entry => (entry.presentation.name, entry.presentation)
    modes := modesOf entries }

/-- The document that a value writes; `fallback` is its name if it has none. -/
def ofJson (fallback : String) : Json → Decoding Document
  | .object members => ofMembers fallback members
  | _ => Decoding.fail (.malformedDocument .documentNotObject)

/-- A field is shown for a selection of modes. -/
def isVisible (selected : List String) (p : Presentation) : Bool :=
  match p.modes with
  | none => true
  | some modes => modes.any selected.contains

/-- The names of the fields that are shown for a selection of modes. -/
def visibleFields (doc : Document) (selected : List String) : List String :=
  (doc.presentations.filter fun (_, p) => isVisible selected p).map (·.1)

/-- The criteria for the field of this name. -/
def decodeCriteria (doc : Document) (prefs : Preferences) (name : String) (value : Json) : Except Error FieldQuery :=
  match doc.database.field? name, Members.get? name doc.presentations with
  | some field, some p => (p.queryOfJson field.kind prefs value).mapError (Error.inField name)
  | _, _ => .error (.unknownField name)

/-- The query that criteria by field name write. -/
def decodeQuery (doc : Document) (prefs : Preferences) (criteria : Members) : Except Error Query :=
  criteria.mapM fun (name, value) => do
    let query ← doc.decodeCriteria prefs name value
    return (name, query)

/-- The positions of the records that a query finds. -/
def search (doc : Document) (query : Query) (operator : Operator) : Except Error (List Nat) :=
  doc.database.searchIndices query operator

end Document
end RecordSearch

import RecordSearch.Lookup
import RecordSearch.Template.Json

/-!
# Rendering

A record is always rendered.  Where a template fails, the text names the error, the record and the template in its
place, and the templates around it are rendered as usual.
-/

namespace RecordSearch.Template

/-- The text in the place of a template that failed. -/
def payload (template : Template) (record : Json) (error : Error) : String :=
  "<error: " ++ error.message ++ ">\nitem: " ++ record.indented ++
    "\ndisplay_string: " ++ template.toJson.indented ++ "\n"

/-- The text of a template, or the text in its place. -/
def settle (template : Template) (record : Json) : Except Error String → String
  | .ok text => text
  | .error error => template.payload record error

/-- The type of a value, which must have one. -/
def typeOf (value : Json) : Except Error JsonType :=
  (JsonType.of value).mapError fun found => .type (.untyped found)

/-- A value where an array is needed. -/
def notArray {α : Type} (found : Json) : Except Error α := do
  let type ← typeOf found
  .error (.type (.unexpected .array type))

/-- The items that a repetition runs over. -/
def itemsFor (key : Option Path) : Json → Except Error (List Json)
  | .array items => .ok items
  | .object members =>
      match key with
      | none => .error (.invalidTemplate .needsKey)
      | some key =>
          match (Json.object members).get key with
          | .ok (.array items) => .ok items
          | .ok found => notArray found
          | .error _ => .ok []
  | found => notArray found

/-- The value at the key of a dispatch by type, with its type. -/
def dispatch (key : Path) (record : Json) : Except Error (Json × JsonType) :=
  match record.get key with
  | .error _ => .error (.missingLeaf key.text)
  | .ok found => do
      let type ← typeOf found
      return (found, type)

/-- The name of the table entry for a record. -/
def entryName (key : Path) (entries : List (String × Template)) (record : Json) : String :=
  match ((record.get key).toOption.bind Scalar.ofJson?).map Scalar.text with
  | some name => if Members.has name entries then name else ""
  | none => ""

mutual

/-- The text of a template for a record, unless the template itself fails. -/
def attempt : Template → Json → Except Error String
  | .default, record => .ok record.indented
  | .literal written, record => written.render record
  | .concat parts, record => .ok (renderParts parts record)
  | .table key entries, record =>
      match renderEntry (entryName key entries record) entries record with
      | some text => .ok text
      | none => .error (.invalidTemplate .noDefault)
  | .forEach key template separator, record => do
      let items ← itemsFor key record
      return separator.intercalate (items.map fun item => settle template item (attempt template item))
  | .ifKey key template, record =>
      .ok (if record.has key then settle template record (attempt template record) else "")
  | .byType key value array object, record => do
      let (found, type) ← dispatch key record
      match type with
      | .scalar => return settle value found (attempt value found)
      | .array => return settle array found (attempt array found)
      | .object => return settle object found (attempt object found)

/-- The texts of templates for a record, one after the other. -/
def renderParts : List Template → Json → String
  | [], _ => ""
  | t :: rest, record => settle t record (attempt t record) ++ renderParts rest record

/-- The text of the entry of a name. -/
def renderEntry (name : String) : List (String × Template) → Json → Option String
  | [], _ => none
  | (n, t) :: rest, record =>
      if n = name then some (settle t record (attempt t record)) else renderEntry name rest record

end

/-- The text of a template for a record. -/
def render (template : Template) (record : Json) : String :=
  settle template record (attempt template record)

end RecordSearch.Template

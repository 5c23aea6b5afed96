import RecordSearch.Field.Search
import RecordSearch.Json.Expect
import RecordSearch.Json.Shape

/-!
# Written fields

A field is defined by an object with its `type`, its `key` and what its kind needs.  An option field that lists no
`values` takes its choices from the records that it will search.
-/

namespace RecordSearch

namespace Expect

/-- A path with dots. -/
def path (value : Json) : Except Fault Path :=
  (text value).map Path.parse

end Expect

namespace Field

/-- What the object of a field may say. -/
structure Definition where
  key : Option Path := none
  optional : Bool := true
  values : Option (List Json) := none
  multiSelection : Bool := false
  min : Option Int64 := none
  max : Option Int64 := none

namespace Definition

/-- The members that every kind has. -/
def commonSlots : List (Slot Definition) := [
  .of "key" Expect.path fun value d => { d with key := some value },
  .of "optional" Expect.flag fun value d => { d with optional := value }]

/-- The members of an option field. -/
def optionShape : Shape Definition where
  label := "struct OptionSpec"
  slots := commonSlots ++ [
    .of "values" (Expect.optional (Expect.list Expect.any)) fun value d => { d with values := value },
    .of "multi_selection" Expect.flag fun value d => { d with multiSelection := value }]

/-- The members of an integer field. -/
def integerShape : Shape Definition where
  label := "struct IntegerSpec"
  slots := commonSlots ++ [
    .of "min" (Expect.optional Expect.integer) fun value d => { d with min := value },
    .of "max" (Expect.optional Expect.integer) fun value d => { d with max := value }]

/-- The members of a text field. -/
def textShape : Shape Definition where
  label := "struct TextSpec"
  slots := commonSlots

/-- What an object of the given shape says, with its key, which it must have. -/
def decode (shape : Shape Definition) (members : Members) : Except FieldError (Path × Definition) := do
  let definition ← (shape.take {} (.object members)).mapError .undecodable
  match definition.key with
  | some key => return (key, definition)
  | none => .error (.undecodable (.ofMisfit (.missingMember "key")))

end Definition

/-- The scalars found at a key in any of the records, in order of first appearance. -/
def foundChoices (records : List Json) (key : Path) : List Scalar :=
  ((records.filterMap fun record => (record.get key).toOption).flatMap Json.scalars).eraseDups

/-- The choices that a list of values names. -/
def listedChoices (values : List Json) : Except FieldError (List Scalar) := do
  let scalars ← values.mapM fun value => (Scalar.ofJson value).mapError FieldError.badValue
  return scalars.eraseDups

/-- The option field that an object defines. -/
def optionOfMembers (members : Members) (records : List Json) : Except FieldError Field := do
  let (key, definition) ← Definition.decode Definition.optionShape members
  let choices ←
    match definition.values with
    | some values => listedChoices values
    | none => .ok (foundChoices records key)
  return ⟨key, definition.optional, .option choices definition.multiSelection⟩

/-- The integer field that an object defines. -/
def integerOfMembers (members : Members) : Except FieldError Field := do
  let (key, definition) ← Definition.decode Definition.integerShape members
  match definition.min, definition.max with
  | some min, some max => if max < min then .error (.crossedBounds min max) else pure ()
  | _, _ => pure ()
  return ⟨key, definition.optional, .integer definition.min definition.max⟩

/-- The text field that an object defines. -/
def textOfMembers (members : Members) : Except FieldError Field := do
  let (key, definition) ← Definition.decode Definition.textShape members
  return ⟨key, definition.optional, .text⟩

/-- The field that an object defines, for a search of the given records. -/
def ofMembers (name : String) (definition : Members) (records : List Json) : Except Error Field :=
  let members := Members.erase "type" definition
  match Members.get? "type" definition with
  | none => .error (.invalidField name .noType)
  | some (.string "Option") => (optionOfMembers members records).mapError (.invalidField name)
  | some (.string "Integer") => (integerOfMembers members).mapError (.invalidField name)
  | some (.string "Text") => (textOfMembers members).mapError (.invalidField name)
  | some (.string type) => .error (.unknownFieldType type)
  | some found => .error (.invalidField name (.typeNotString found))

/-- The field that a value defines, for a search of the given records. -/
def ofJson (name : String) (definition : Json) (records : List Json) : Except Error Field :=
  match definition with
  | .object members => ofMembers name members records
  | _ => .error (.invalidField name .notObject)

/-- The members that are written for a kind only. -/
def kindMembers : FieldKind → Members
  | .option choices multiSelection =>
      ("values", .array (choices.map Scalar.toJson)) ::
        (if multiSelection then [("multi_selection", .bool true)] else [])
  | .integer min max =>
      (min.map fun n => ("min", Json.int n)).toList ++ (max.map fun n => ("max", Json.int n)).toList
  | .text => []

/-- The object that defines a field. -/
def toJson (field : Field) : Json :=
  .object (("type", .string field.kind.name) :: ("key", .string field.key.text) ::
    ("optional", .bool field.optional) :: kindMembers field.kind)

/-- A field that a query may leave out. -/
def new (key : Path) (kind : FieldKind) : Field :=
  ⟨key, true, kind⟩

/-- The field, which a query must not leave out. -/
def required (field : Field) : Field :=
  { field with optional := false }

end Field
end RecordSearch

import RecordSearch.Field.Json
import RecordSearch.Warning

/-!
# Databases

Records together with the fields they are searched by.  A search tests every record by the criteria of a query; the
query is checked beforehand, without regard to the records.
-/

namespace RecordSearch

/-- Records, and named fields to search them by. -/
structure Database where
  records : List Json
  fields : List (String × Field)
deriving Repr, BEq

namespace Database

/-- The database of the given records, which must be objects. -/
def ofRecords (records : List Json) (fields : List (String × Field)) : Except Error Database := do
  records.forM fun record => (JsonType.object.check record).mapError Error.type
  return ⟨records, fields⟩

/-- The field of a name. -/
def field? (db : Database) (name : String) : Option Field :=
  Members.get? name db.fields

/-- Fails if a query leaves out a field that is not optional. -/
def checkRequired (fields : List (String × Field)) (query : Query) : Except Error Unit :=
  fields.forM fun (name, field) =>
    if field.optional || Members.has name query then .ok () else .error (.missingField name)

/-- The field that criteria of this name are for, if they can be put to it. -/
def checkCriteria (fields : List (String × Field)) (name : String) (query : FieldQuery) : Except Error Field :=
  match Members.get? name fields with
  | none => .error (.unknownField name)
  | some field => do
      (field.validate query.criteria).mapError (Error.inField name)
      return field

/-- The criteria of a query with their fields, if the query can be put to the database. -/
def checkQuery (db : Database) (query : Query) : Except Error (List (Field × FieldQuery)) := do
  checkRequired db.fields query
  query.mapM fun (name, criteria) => do
    let field ← checkCriteria db.fields name criteria
    return (field, criteria)

/-- A record passes the checks, their outcomes combined by the operator. -/
def passes (operator : Operator) (checks : List (Field × FieldQuery)) (record : Json) : Bool :=
  operator.apply (checks.map fun (field, query) => field.outcome record query)

/-- The positions from `start` on of the records that pass. -/
def positions (passes : Json → Bool) (start : Nat) : List Json → List Nat
  | [] => []
  | record :: rest =>
      if passes record then start :: positions passes (start + 1) rest else positions passes (start + 1) rest

/-- The positions of the records that a query finds, in order. -/
def searchIndices (db : Database) (query : Query) (operator : Operator) : Except Error (List Nat) := do
  let checks ← db.checkQuery query
  return positions (passes operator checks) 0 db.records

/-- The records that a query finds, in order. -/
def search (db : Database) (query : Query) (operator : Operator) : Except Error (List Json) := do
  let hits ← db.searchIndices query operator
  return hits.filterMap fun i => db.records[i]?

/-! ## Written databases -/

/-- Objects among named entries; the others are passed over. -/
def objectsOf : List (String × Json) → Decoding (List Json)
  | [] => pure []
  | (name, entry) :: rest => do
      if entry.isObject then
        let others ← objectsOf rest
        return entry :: others
      else
        Decoding.warn [.ignoredData name]
        objectsOf rest

/-- The items of an array under their indices. -/
def namedItems (items : List Json) : List (String × Json) :=
  items.zipIdx.map fun (item, i) => (String.ofList (Decimal.digits i), item)

/-- The records of a `data` member: an array of them, or an object with the records as values. -/
def recordsOfJson : Json → Decoding (List Json)
  | .array items => objectsOf (namedItems items)
  | .object members => objectsOf members
  | _ => Decoding.fail (.malformedDocument .dataNotRecords)

/-- Fields by name, each from its definition. -/
def fieldsOfMembers (records : List Json) (definitions : Members) : Except Error (List (String × Field)) :=
  definitions.mapM fun (name, definition) => do
    let field ← Field.ofJson name definition records
    return (name, field)

/-- The names that a database has no use for. -/
def unusedNames (members : Members) : List String :=
  (Members.names members).filter fun name => name != "data" && name != "fields"

/-- The database that a value writes. -/
def ofJson : Json → Decoding Database
  | .object members =>
      match Members.get? "data" members, Members.get? "fields" members with
      | none, _ => Decoding.fail (.malformedDocument .databaseWithoutData)
      | some _, none => Decoding.fail (.malformedDocument .databaseWithoutFields)
      | some data, some fields => do
          Decoding.warn ((unusedNames members).map .unusedInDatabase)
          match fields with
          | .object definitions =>
              let records ← recordsOfJson data
              let fields ← fieldsOfMembers records definitions
              return ⟨records, fields⟩
          | _ => Decoding.fail (.malformedDocument .fieldsNotObject)
  | _ => Decoding.fail (.malformedDocument .databaseNotObject)

/-- The value that writes a database. -/
def toJson (db : Database) : Json :=
  .object [
    ("fields", .object (db.fields.map fun (name, field) => (name, field.toJson))),
    ("data", .array db.records)]

end Database
end RecordSearch

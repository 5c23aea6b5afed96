import RecordSearch.Document.Presentation
import RecordSearch.Warning

/-!
# Layout

The entries of a document are listed in nested groups.  The layout keeps the groups and the names of the fields; the
entries themselves are collected in the order in which they appear.
-/

namespace RecordSearch

/-- A field, or a group of fields and groups. -/
inductive Layout where
  | field (name : String)
  | group (items : List Layout)
deriving Repr, BEq, Inhabited

/-- An entry: how a field is presented, and the members that define it. -/
structure FieldEntry where
  presentation : Presentation
  definition : Members

namespace Layout

mutual

/-- The names of the fields of a layout, depth first. -/
def names : Layout → List String
  | field name => [name]
  | group items => namesOf items

/-- The names of the fields of layouts, depth first. -/
def namesOf : List Layout → List String
  | [] => []
  | item :: rest => names item ++ namesOf rest

end

mutual

/-- A layout as nested arrays of names. -/
def toJson : Layout → Json
  | field name => .string name
  | group items => .array (toItems items)

/-- Layouts as nested arrays of names. -/
def toItems : List Layout → List Json
  | [] => []
  | item :: rest => toJson item :: toItems rest

end

/-- The entries collected so far, in order. -/
abbrev Entries := List FieldEntry

/-- One more entry, unless its name is taken. -/
def collect (entry : FieldEntry) (entries : Entries) : Except Error Entries :=
  let name := entry.presentation.name
  if entries.any (·.presentation.name == name) then .error (.duplicateField name) else .ok (entries ++ [entry])

mutual

/-- The layout of a value among the fields, if it has one, and the entries collected up to its end. -/
def ofJson (entries : Entries) : Json → Decoding (Option Layout × Entries)
  | .array items => do
      let (inner, entries) ← ofItems entries items
      return (some (.group inner), entries)
  | .object members => do
      let (presentation, definition) ← Presentation.ofEntry members
      let entries ← collect ⟨presentation, definition⟩ entries
      return (some (.field presentation.name), entries)
  | other => do
      Decoding.warn [.ignoredEntry other]
      return (none, entries)

/-- The layouts of values among the fields, and the entries collected up to their end. -/
def ofItems (entries : Entries) : List Json → Decoding (List Layout × Entries)
  | [] => pure ([], entries)
  | value :: rest => do
      let (first, entries) ← ofJson entries value
      let (others, entries) ← ofItems entries rest
      return (first.toList ++ others, entries)

end

end Layout
end RecordSearch

import RecordSearch.Preferences

/-!
# Query files

A query file holds criteria by field name, and may name the operator that combines them.
-/

namespace RecordSearch

/-- Criteria by field name, and an operator. -/
structure QueryFile where
  operator : Option Operator := none
  criteria : Members := []

namespace QueryFile

/-- The members of a query file. -/
def shape : Shape QueryFile where
  label := "struct QueryFile"
  slots := [
    .of "operator" (Expect.optional Expect.operator) fun value q => { q with operator := value },
    .of "criteria" Expect.members fun value q => { q with criteria := value }]

/-- The query that a text starts with. -/
def ofText (text : String) : Except Fault QueryFile :=
  shape.takeText {} (Source.ofText text)

end QueryFile
end RecordSearch

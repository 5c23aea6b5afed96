import RecordSearch.Operator
import RecordSearch.Scalar

/-!
# Criteria

What a query asks of one field, and how it treats records that have no value there.
-/

namespace RecordSearch

/-- What is asked of the value of a field. -/
inductive Criteria where
  /-- One value of a field with a single selection. -/
  | single (value : Scalar)
  /-- Several values of a field with a multiple selection, without repetition. -/
  | multi (values : List Scalar) (operator : Operator)
  /-- An integer that the value is compared to. -/
  | integer (value : Int64) (comparison : Comparison)
  /-- Parts that a text is searched for. -/
  | text (values : List String) (operator : Operator) (caseSensitive : Bool)
deriving DecidableEq, Repr

/-- The shape of criteria in messages. -/
def Criteria.shape : Criteria → String
  | single _ => "single option"
  | multi _ _ => "multiple option"
  | integer _ _ => "integer"
  | text _ _ _ => "text"

/-- The criteria for one field, whether a record without a value passes, and whether the outcome on a value is
inverted. -/
structure FieldQuery where
  criteria : Criteria
  acceptMissing : Bool := true
  invert : Bool := false
deriving DecidableEq, Repr

/-- The criteria of a query, by field name. -/
abbrev Query := List (String × FieldQuery)

end RecordSearch

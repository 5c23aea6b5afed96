import RecordSearch.Path
import RecordSearch.Scalar

/-!
# Fields

A field is a search criterion that a document offers: where in a record its value is found, and which criteria can be
put to it.
-/

namespace RecordSearch

/-- What kind of values a field is searched for. -/
inductive FieldKind where
  /-- Values among fixed choices, listed without repetition; of these a query selects one, or several. -/
  | option (choices : List Scalar) (multiSelection : Bool)
  /-- Integers, between bounds if there are any. -/
  | integer (min max : Option Int64)
  /-- Texts. -/
  | text
deriving DecidableEq, Repr

/-- The name of a kind. -/
def FieldKind.name : FieldKind → String
  | option _ _ => "Option"
  | integer _ _ => "Integer"
  | text => "Text"

/-- A search field: the path of its value, whether a query may leave it out, and its kind. -/
structure Field where
  key : Path
  optional : Bool
  kind : FieldKind
deriving DecidableEq, Repr

end RecordSearch

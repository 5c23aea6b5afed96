import RecordSearch.Text.LowerCase

/-!
# Operators and comparisons

An operator combines the outcomes of several tests; a comparison relates the integer of a record to the integer of a
query.  Both have a name and further spellings, in any case of letters.
-/

namespace RecordSearch

/-- How several outcomes are combined. -/
inductive Operator where
  /-- All must hold. -/
  | and
  /-- At least one must hold. -/
  | or
deriving DecidableEq, Repr, Inhabited

namespace Operator

/-- The outcomes combined. -/
def apply (operator : Operator) (outcomes : List Bool) : Bool :=
  match operator with
  | and => outcomes.all id
  | or => outcomes.any id

/-- The name of an operator. -/
def name : Operator → String
  | and => "and"
  | or => "or"

/-- The spellings of the operators. -/
def spellings : List (String × Operator) :=
  [("and", and), ("all", and), ("or", or), ("any", or)]

/-- The operator that a text spells. -/
def parse? (text : String) : Option Operator :=
  spellings.lookup (Text.lower text)

end Operator

/-- How two integers are related. -/
inductive Comparison where
  | lt
  | leq
  | eq
  | neq
  | geq
  | gt
deriving DecidableEq, Repr, Inhabited

namespace Comparison

/-- The relation holds between the two integers. -/
def apply (comparison : Comparison) (left right : Int64) : Bool :=
  match comparison with
  | lt => decide (left < right)
  | leq => decide (left ≤ right)
  | eq => decide (left = right)
  | neq => decide (left ≠ right)
  | geq => decide (right ≤ left)
  | gt => decide (right < left)

/-- The name of a comparison. -/
def name : Comparison → String
  | lt => "lt"
  | leq => "leq"
  | eq => "eq"
  | neq => "neq"
  | geq => "geq"
  | gt => "gt"

/-- The spellings of the comparisons. -/
def spellings : List (String × Comparison) :=
  [("lt", lt), ("<", lt), ("leq", leq), ("<=", leq), ("eq", eq), ("=", eq), ("==", eq),
   ("neq", neq), ("!=", neq), ("geq", geq), (">=", geq), ("gt", gt), (">", gt)]

/-- The comparison that a text spells. -/
def parse? (text : String) : Option Comparison :=
  spellings.lookup (Text.lower text)

end Comparison
end RecordSearch

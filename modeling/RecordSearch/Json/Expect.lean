import RecordSearch.Json.Fault

/-!
# Expected kinds of values

Readers of a value that is expected to be of one kind, each failing with a fault that names the kind.
-/

namespace RecordSearch.Expect

/-- The value is not of the expected kind. -/
def wrong {α : Type} (found : Json) (expected : String) : Except Fault α :=
  .error (.ofMisfit (.wrongType found expected))

/-- A string. -/
def text : Json → Except Fault String
  | .string value => .ok value
  | found => wrong found "a string"

/-- A boolean. -/
def flag : Json → Except Fault Bool
  | .bool value => .ok value
  | found => wrong found "a boolean"

/-- An integer of 64 bits with sign. -/
def integer : Json → Except Fault Int64
  | .number (.int value) => .ok value
  | .number (.wide value) => .error (.ofMisfit (.wrongValue (.number (.wide value)) "i64"))
  | found => wrong found "i64"

/-- An object. -/
def members : Json → Except Fault Members
  | .object value => .ok value
  | found => wrong found "a map"

/-- Items from the one at `index` on, each as `item` reads it. -/
def itemsFrom {α : Type} (item : Json → Except Fault α) (index : Nat) : List Json → Except Fault (List α)
  | [] => .ok []
  | v :: rest => do
      let first ← (item v).mapError (Fault.under (.element index))
      let others ← itemsFrom item (index + 1) rest
      return first :: others

/-- An array. -/
def list {α : Type} (item : Json → Except Fault α) : Json → Except Fault (List α)
  | .array items => itemsFrom item 0 items
  | found => wrong found "a sequence"

/-- Any value. -/
def any (value : Json) : Except Fault Json :=
  .ok value

/-- A value that may be null. -/
def optional {α : Type} (expect : Json → Except Fault α) : Json → Except Fault (Option α)
  | .null => .ok none
  | value => (expect value).map some

end RecordSearch.Expect

import RecordSearch.Json.Printer

/-!
# Types of values and scalars

Records are made of objects, arrays and scalars; a scalar is a string, a boolean or a 64-bit integer with sign.  The
other leaves of JSON (nulls, floats, wider integers) have no type here.
-/

namespace RecordSearch

/-- The types of the values that records are made of. -/
inductive JsonType where
  | object
  | array
  | scalar
deriving DecidableEq, Repr

/-- Leaves that have no type. -/
inductive Untyped where
  | null
  | float
  | wide
deriving DecidableEq, Repr

/-- A value has no type, or not the expected one. -/
inductive TypeError where
  | untyped (found : Untyped)
  | unexpected (expected found : JsonType)
deriving DecidableEq, Repr

namespace JsonType

/-- The name of a type in messages. -/
def text : JsonType → String
  | object => "object"
  | array => "array"
  | scalar => "value"

/-- The type of a value. -/
def of : Json → Except Untyped JsonType
  | .object _ => .ok object
  | .array _ => .ok array
  | .string _ | .bool _ | .number (.int _) => .ok scalar
  | .number (.wide _) => .error .wide
  | .number (.float _) => .error .float
  | .null => .error .null

/-- Fails unless the value has the expected type. -/
def check (expected : JsonType) (value : Json) : Except TypeError Unit :=
  match of value with
  | .error found => .error (.untyped found)
  | .ok found => if found = expected then .ok () else .error (.unexpected expected found)

end JsonType

/-- The name of an untyped leaf in messages. -/
def Untyped.text : Untyped → String
  | null => "null"
  | float => "float"
  | wide => "out of range integer"

/-- A leaf of a record. -/
inductive Scalar where
  | bool (value : Bool)
  | int (value : Int64)
  | str (value : String)
deriving DecidableEq, Repr, Inhabited

namespace Scalar

/-- The scalar that a value is. -/
def ofJson : Json → Except TypeError Scalar
  | .bool value => .ok (bool value)
  | .string value => .ok (str value)
  | .number (.int value) => .ok (int value)
  | .number (.wide _) => .error (.untyped .wide)
  | .number (.float _) => .error (.untyped .float)
  | .null => .error (.untyped .null)
  | .array _ => .error (.unexpected .scalar .array)
  | .object _ => .error (.unexpected .scalar .object)

/-- The scalar that a value is, if it is one. -/
def ofJson? (value : Json) : Option Scalar :=
  (ofJson value).toOption

/-- The value that a scalar is. -/
def toJson : Scalar → Json
  | bool value => .bool value
  | int value => .int value
  | str value => .string value

/-- The text of a scalar; a string is its own text. -/
def text : Scalar → String
  | bool value => Json.boolText value
  | int value => String.ofList (Decimal.integer value.toInt)
  | str value => value

/-- The string that a scalar is. -/
def str? : Scalar → Option String
  | str value => some value
  | _ => none

@[simp] theorem ofJson_toJson (s : Scalar) : ofJson s.toJson = .ok s := by
  cases s <;> rfl

/-- Only the value of a scalar is read as that scalar. -/
theorem ofJson_eq_ok_iff (value : Json) (s : Scalar) : ofJson value = .ok s ↔ value = s.toJson := by
  constructor
  · intro h
    unfold ofJson at h
    split at h <;> simp_all [toJson] <;> subst h <;> rfl
  · rintro rfl
    exact ofJson_toJson s

theorem toJson_injective : Function.Injective toJson := by
  intro s t h
  have hread := congrArg ofJson h
  rw [ofJson_toJson, ofJson_toJson] at hread
  exact Except.ok.inj hread

theorem ofJson?_eq_some_iff (value : Json) (s : Scalar) : ofJson? value = some s ↔ value = s.toJson := by
  rw [← ofJson_eq_ok_iff, ofJson?]
  cases ofJson value <;> simp [Except.toOption]

end Scalar
end RecordSearch

import RecordSearch.Error
import RecordSearch.Json.Expect
import RecordSearch.Json.Shape

/-!
# Preferences

What holds for a query that does not say otherwise, and what stands between rendered records.  Preferences are kept as
an indented JSON object, every member of which may be left out.
-/

namespace RecordSearch

/-- The operator that a value spells. -/
def Expect.operator (value : Json) : Except Fault Operator := do
  let text ← Expect.text value
  (Operator.decode text).mapError fun error => .ofMisfit (.refused error.message)

/-- The comparison that a value spells. -/
def Expect.comparison (value : Json) : Except Fault Comparison := do
  let text ← Expect.text value
  (Comparison.decode text).mapError fun error => .ofMisfit (.refused error.message)

/-- What holds for a query that does not say otherwise. -/
structure Preferences where
  /-- How the outcomes of the fields are combined. -/
  operator : Operator := .and
  /-- Records without a value for a field pass. -/
  acceptMissing : Bool := true
  /-- Texts are searched with regard to case. -/
  caseSensitive : Bool := false
  /-- What stands between rendered records. -/
  separator : String := "\n\n"
deriving DecidableEq, Repr, Inhabited

namespace Preferences

/-- The members of written preferences. -/
def shape : Shape Preferences where
  label := "struct Preferences"
  slots := [
    .of "operator" Expect.operator fun value p => { p with operator := value },
    .of "accept_missing" Expect.flag fun value p => { p with acceptMissing := value },
    .of "case_sensitive" Expect.flag fun value p => { p with caseSensitive := value },
    .of "separator" Expect.text fun value p => { p with separator := value }]

/-- The path of the preferences unless another one is given. -/
def fileName : String := "saje-preferences.json"

/-- Preferences that hold unless something else is said. -/
def standard : Preferences := {}

/-- The preferences that a value writes. -/
def ofJson (value : Json) : Except Fault Preferences :=
  shape.take standard value

/-- The preferences that a source starts with. -/
def ofSource (source : Source) : Except Fault Preferences :=
  shape.takeText standard source

/-- The preferences that a text starts with. -/
def ofText (text : String) : Except Fault Preferences :=
  ofSource (Source.ofText text)

/-- The value that writes preferences. -/
def toJson (p : Preferences) : Json :=
  .object [
    ("operator", .string p.operator.name),
    ("accept_missing", .bool p.acceptMissing),
    ("case_sensitive", .bool p.caseSensitive),
    ("separator", .string p.separator)]

/-- The text that writes preferences. -/
def text (p : Preferences) : String :=
  p.toJson.indented

end Preferences
end RecordSearch

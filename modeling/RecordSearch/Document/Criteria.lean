import RecordSearch.Document.Presentation
import RecordSearch.Text.Lines

/-!
# Written criteria

The criteria for a field are written as a bare value, or as an object with the value and settings.  A setting that is
left out comes from the presentation of the field, then from the preferences.
-/

namespace RecordSearch.Presentation

/-- The bare value of written criteria, or the member of this name. -/
def operand (name : String) : Json → Except Error Json
  | .object members =>
      match Members.get? name members with
      | some value => .ok value
      | none => .error (.invalidCriteria (.missingOperand name))
  | value => .ok value

/-- A setting of written criteria. -/
def setting {α : Type} (name : String) (expect : Json → Except Fault α) (value : Json) : Except Error (Option α) :=
  match value with
  | .object members =>
      match Members.get? name members with
      | none => .ok none
      | some found =>
          match expect found with
          | .ok a => .ok (some a)
          | .error fault => .error (.invalidCriteria (.badSetting name fault))
  | _ => .ok none

/-- The parts that a text is searched for: the lines of a text that are not empty. -/
def partsOfText (text : String) : List String :=
  ((Text.lines text.toList).filter (!·.isEmpty)).map String.ofList

/-- One of the parts in a list. -/
def partOfJson : Json → Except Error String
  | .string part => .ok part
  | found => .error (.invalidCriteria (.expectedString found))

/-- The parts that a text is searched for. -/
def partsOfJson : Json → Except Error (List String)
  | .string text => .ok (partsOfText text)
  | .array items => items.mapM partOfJson
  | found => .error (.invalidCriteria (.expectedText found))

/-- The integer that a value is compared to. -/
def integerOfJson : Json → Except Error Int64
  | .number (.int value) => .ok value
  | found => .error (.invalidCriteria (.expectedInteger found))

/-- The values that a multiple selection names. -/
def selectionOfJson : Json → Except Error (List Scalar)
  | .array items => do
      let values ← items.mapM fun item => (Scalar.ofJson item).mapError Error.type
      return values.eraseDups
  | _ => .error (.invalidCriteria .expectedArray)

/-- The operator of written criteria. -/
def operatorFor (p : Presentation) (value : Json) : Except Error Operator := do
  return ((← setting "operator" Expect.operator value).or p.operator).getD .or

/-- The criteria for a field of the given kind. -/
def criteriaOfJson (p : Presentation) (kind : FieldKind) (prefs : Preferences) (value : Json) :
    Except Error Criteria := do
  match kind with
  | .option _ true =>
      let values ← selectionOfJson (← operand "values" value)
      return .multi values (← p.operatorFor value)
  | .option _ false =>
      let found ← operand "value" value
      return .single (← (Scalar.ofJson found).mapError Error.type)
  | .integer _ _ =>
      let expected ← integerOfJson (← operand "value" value)
      let comparison := (← setting "comparison" Expect.comparison value).or p.comparison
      return .integer expected (comparison.getD .eq)
  | .text =>
      let values ← partsOfJson (← operand "values" value)
      let operator ← p.operatorFor value
      let caseSensitive := (← setting "case" Expect.flag value).or p.caseSensitive
      return .text values operator (caseSensitive.getD prefs.caseSensitive)

/-- The criteria for a field of the given kind, with the switches that go with them. -/
def queryOfJson (p : Presentation) (kind : FieldKind) (prefs : Preferences) (value : Json) :
    Except Error FieldQuery := do
  let criteria ← p.criteriaOfJson kind prefs value
  let acceptMissing ← setting "accept_missing" Expect.flag value
  let invert ← setting "invert" Expect.flag value
  return ⟨criteria, acceptMissing.getD prefs.acceptMissing, invert.getD false⟩

end RecordSearch.Presentation

import RecordSearch.Lookup
import RecordSearch.Text.Part

/-!
# Searching a field

Whether criteria can be put to a field, and whether the value of a record meets them.  A record without a value at the
key of the field passes or fails as the query says.
-/

namespace RecordSearch

/-- The scalars that a value holds: itself, or the scalars among its items or members, without repetition. -/
def Json.scalars : Json → List Scalar
  | .array items => (items.filterMap Scalar.ofJson?).eraseDups
  | .object members => (members.filterMap fun (_, v) => Scalar.ofJson? v).eraseDups
  | value => (Scalar.ofJson? value).toList

namespace Criteria

/-- A text contains a part, with or without regard to case. -/
def textContains (caseSensitive : Bool) (text part : String) : Bool :=
  if caseSensitive then
    Text.hasPart part.toList text.toList
  else
    Text.hasPart (Text.lowerCase part.toList) (Text.lowerCase text.toList)

/-- A value meets the criteria. -/
def holds (criteria : Criteria) (value : Json) : Bool :=
  match criteria with
  | single expected =>
      match value with
      | .array _ | .object _ => value.scalars.contains expected
      | _ => Scalar.ofJson? value == some expected
  | multi values operator =>
      let shared := values.countP value.scalars.contains
      match operator with
      | .and => shared == values.length
      | .or => decide (0 < shared)
  | integer expected comparison =>
      match value with
      | .number (.int found) => comparison.apply found expected
      | _ => false
  | text values operator caseSensitive =>
      match value with
      | .string found => operator.apply (values.map (textContains caseSensitive found))
      | _ => false

/-- A single selection looks for its scalar among those of the value, also where it compares the two. -/
theorem holds_single (expected : Scalar) (value : Json) :
    (single expected).holds value = value.scalars.contains expected := by
  have hcompare (found : Option Scalar) : (found == some expected) = found.toList.contains expected := by
    cases found with
    | none => rfl
    | some x =>
        rw [Bool.eq_iff_iff, beq_iff_eq, List.contains_iff_mem, Option.some_inj]
        simp only [Option.toList_some, List.mem_singleton]
        exact eq_comm
  cases value with
  | array _ | object _ => rfl
  | null | bool _ | number _ | string _ => exact hcompare _

/-- The count of a multiple selection decides what the operator makes of its scalars one by one. -/
theorem holds_multi (values : List Scalar) (operator : Operator) (value : Json) :
    (multi values operator).holds value = operator.apply (values.map value.scalars.contains) := by
  rw [Bool.eq_iff_iff]
  cases operator with
  | and => simp [holds, Operator.apply, List.countP_eq_length]
  | or => simp [holds, Operator.apply, List.countP_pos_iff]

end Criteria

namespace Field

/-- Fails unless the criteria can be put to a field of this kind. -/
def validateKind (kind : FieldKind) (criteria : Criteria) : Except CriteriaError Unit :=
  match kind, criteria with
  | .option choices multiSelection, .single value =>
      if multiSelection then .error .needsSet
      else if choices.contains value then .ok ()
      else .error (.outsideChoices value choices)
  | .option choices multiSelection, .multi values _ =>
      if !multiSelection then .error .needsSingle
      else
        match values.filter (!choices.contains ·) with
        | [] => .ok ()
        | outside => .error (.outsideChoicesAll outside choices)
  | .integer min max, .integer value _ =>
      match min.filter (value < ·), max.filter (· < value) with
      | some min, _ => .error (.belowMinimum value min)
      | none, some max => .error (.aboveMaximum value max)
      | none, none => .ok ()
  | .text, .text _ _ _ => .ok ()
  | kind, criteria => .error (.wrongShape criteria kind)

/-- Fails unless the criteria can be put to the field. -/
def validate (field : Field) (criteria : Criteria) : Except Error Unit :=
  (validateKind field.kind criteria).mapError .invalidCriteria

/-- Tests a value found in a record. -/
def test (field : Field) (value : Json) (criteria : Criteria) : Except Error Bool := do
  field.validate criteria
  return criteria.holds value

/-- The outcome of criteria that can be put to the field, on a record. -/
def outcome (field : Field) (record : Json) (query : FieldQuery) : Bool :=
  match record.get field.key with
  | .ok value => query.criteria.holds value != query.invert
  | .error _ => query.acceptMissing

/-- Tests a record. -/
def compare (field : Field) (record : Json) (query : FieldQuery) : Except Error Bool := do
  field.validate query.criteria
  return field.outcome record query

/-- A value at the key of the field is tested. -/
theorem compare_of_get {field : Field} {record value : Json} (h : record.get field.key = .ok value)
    (query : FieldQuery) :
    field.compare record query = (field.test value query.criteria).map (· != query.invert) := by
  rw [compare, test]
  cases field.validate query.criteria with
  | error e => rfl
  | ok _ =>
      simp only [outcome, h]
      rfl

/-- Without a value at the key of the field the query says what happens. -/
theorem compare_of_missing {field : Field} {record : Json} {e : Error} (h : record.get field.key = .error e)
    (query : FieldQuery) :
    field.compare record query = (field.validate query.criteria).map fun _ => query.acceptMissing := by
  rw [compare]
  cases field.validate query.criteria with
  | error e => rfl
  | ok _ =>
      simp only [outcome, h]
      rfl

end Field
end RecordSearch

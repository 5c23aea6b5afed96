import RecordSearch.Field.Search
import RecordSearch.Proofs.Traversal

/-!
# Criteria that fit a field

A field refuses criteria for their shape, or for a value that it does not offer.

* `Fits`: the criteria have the shape of the kind.
* `Exceeds`: a value of the criteria is none of the choices, or beyond a bound.
* `fits_of_validateKind`: a field accepts criteria of its shape only.
* `validate_eq_error_iff_of_fits`, `validate_of_fits`: criteria of its shape are refused exactly for what exceeds it.
-/

namespace RecordSearch
namespace Field

/-- The criteria have the shape of the kind. -/
inductive Fits : FieldKind → Criteria → Prop
  | single (choices : List Scalar) (value : Scalar) :
      Fits (.option choices false) (.single value)
  | multi (choices values : List Scalar) (operator : Operator) :
      Fits (.option choices true) (.multi values operator)
  | integer (min max : Option Int64) (value : Int64) (comparison : Comparison) :
      Fits (.integer min max) (.integer value comparison)
  | text (values : List String) (operator : Operator) (caseSensitive : Bool) :
      Fits .text (.text values operator caseSensitive)

/-- What of the criteria is not on offer; the lower bound goes first. -/
inductive Exceeds : FieldKind → Criteria → CriteriaError → Prop
  | choice {choices : List Scalar} {value : Scalar}
      (hvalue : value ∉ choices) :
      Exceeds (.option choices false) (.single value) (.outsideChoices value choices)
  | choices {choices values outside : List Scalar} {operator : Operator}
      (houtside : outside = values.filter (· ∉ choices))
      (hsome : outside ≠ []) :
      Exceeds (.option choices true) (.multi values operator) (.outsideChoicesAll outside choices)
  | below {min value : Int64} {max : Option Int64} {comparison : Comparison}
      (hmin : value < min) :
      Exceeds (.integer (some min) max) (.integer value comparison) (.belowMinimum value min)
  | above {min : Option Int64} {max value : Int64} {comparison : Comparison}
      (hmin : ∀ bound ∈ min, ¬ value < bound)
      (hmax : max < value) :
      Exceeds (.integer min (some max)) (.integer value comparison) (.aboveMaximum value max)

theorem fits_of_validateKind {kind : FieldKind} {criteria : Criteria} (h : validateKind kind criteria = .ok ()) :
    Fits kind criteria := by
  cases kind with
  | option choices multiSelection =>
      cases criteria with
      | single value =>
          cases multiSelection with
          | false => exact .single choices value
          | true => cases h
      | multi values operator =>
          cases multiSelection with
          | false => cases h
          | true => exact .multi choices values operator
      | integer _ _ => cases h
      | text _ _ _ => cases h
  | integer min max =>
      cases criteria with
      | integer value comparison => exact .integer min max value comparison
      | single _ => cases h
      | multi _ _ => cases h
      | text _ _ _ => cases h
  | text =>
      cases criteria with
      | text values operator caseSensitive => exact .text values operator caseSensitive
      | single _ => cases h
      | multi _ _ => cases h
      | integer _ _ => cases h

/-- The values of a multiple selection that are no choices, as `validateKind` filters them. -/
theorem filter_outside (choices values : List Scalar) :
    values.filter (!choices.contains ·) = values.filter (· ∉ choices) := by
  refine List.filter_congr fun value _ => ?_
  simp

/-- What exceeds a field is refused. -/
theorem validateKind_of_exceeds {kind : FieldKind} {criteria : Criteria} {cause : CriteriaError}
    (h : Exceeds kind criteria cause) : validateKind kind criteria = .error cause := by
  cases h with
  | choice hvalue =>
      simp [validateKind, hvalue]
  | @choices choices values outside operator houtside hsome =>
      obtain ⟨first, rest, rfl⟩ := List.exists_cons_of_ne_nil hsome
      simp only [validateKind, Bool.not_true, Bool.false_eq_true, if_false, filter_outside, ← houtside]
  | @below min value max comparison hmin =>
      have hbelow : (some min).filter (value < ·) = some min := Option.filter_some_pos (by simpa using hmin)
      simp only [validateKind, hbelow]
  | @above min max value comparison hmin hmax =>
      have hnone : min.filter (value < ·) = none := by
        rw [Option.filter_eq_none_iff]
        simpa using hmin
      have habove : (some max).filter (· < value) = some max := Option.filter_some_pos (by simpa using hmax)
      simp only [validateKind, hnone, habove]

/-- Criteria of the shape of a field are refused for what exceeds it only. -/
theorem exceeds_of_validateKind {kind : FieldKind} {criteria : Criteria} {cause : CriteriaError}
    (hfits : Fits kind criteria) (h : validateKind kind criteria = .error cause) : Exceeds kind criteria cause := by
  cases hfits with
  | single choices value =>
      by_cases hvalue : value ∈ choices
      · simp [validateKind, hvalue] at h
      · obtain rfl : CriteriaError.outsideChoices value choices = cause := by
          simpa [validateKind, hvalue] using h
        exact .choice hvalue
  | multi choices values operator =>
      cases houtside : values.filter (· ∉ choices) with
      | nil =>
          simp only [validateKind, Bool.not_true, Bool.false_eq_true, if_false, filter_outside, houtside] at h
          cases h
      | cons first rest =>
          simp only [validateKind, Bool.not_true, Bool.false_eq_true, if_false, filter_outside, houtside] at h
          cases h
          exact .choices houtside.symm (List.cons_ne_nil _ _)
  | integer min max value comparison =>
      simp only [validateKind] at h
      cases hmin : min.filter (value < ·) with
      | some bound =>
          rw [hmin] at h
          cases h
          obtain ⟨rfl, hbelow⟩ := Option.filter_eq_some_iff.mp hmin
          exact .below (by simpa using hbelow)
      | none =>
          cases hmax : max.filter (· < value) with
          | some bound =>
              rw [hmin, hmax] at h
              cases h
              obtain ⟨rfl, habove⟩ := Option.filter_eq_some_iff.mp hmax
              rw [Option.filter_eq_none_iff] at hmin
              exact .above (by simpa using hmin) (by simpa using habove)
          | none =>
              rw [hmin, hmax] at h
              cases h
  | text _ _ _ =>
      cases h

/-- Criteria of the shape of a field are refused exactly for what exceeds it. -/
theorem validate_eq_error_iff_of_fits {field : Field} {criteria : Criteria} (hfits : Fits field.kind criteria) (e : Error) :
    field.validate criteria = .error e ↔ ∃ cause, Exceeds field.kind criteria cause ∧ e = .invalidCriteria cause := by
  rw [validate]
  cases hkind : validateKind field.kind criteria with
  | ok _ =>
      constructor
      · rintro ⟨⟩
      · rintro ⟨cause, hcause, _⟩
        rw [validateKind_of_exceeds hcause] at hkind
        cases hkind
  | error found =>
      constructor
      · rintro ⟨⟩
        exact ⟨found, exceeds_of_validateKind hfits hkind, rfl⟩
      · rintro ⟨cause, hcause, rfl⟩
        rw [validateKind_of_exceeds hcause] at hkind
        cases hkind
        rfl

/-- Criteria of the shape of a field that do not exceed it are accepted. -/
theorem validate_of_fits {field : Field} {criteria : Criteria} (hfits : Fits field.kind criteria)
    (hnone : ∀ cause, ¬ Exceeds field.kind criteria cause) : field.validate criteria = .ok () := by
  cases hvalid : field.validate criteria with
  | ok _ => rfl
  | error e =>
      obtain ⟨cause, hcause, _⟩ := (validate_eq_error_iff_of_fits hfits e).mp hvalid
      exact absurd hcause (hnone cause)

end Field
end RecordSearch

import RecordSearch.Proofs.Field.Choices

/-!
# Values under test

A field tests the value that a record has at its key.  What counts as a match depends on the kind of the field and on
the type of the value.

* `test_of_valid`: a test of accepted criteria does not fail.
* `test_multi_iff_single`: a multiple selection matches if all, or any, of its single selections match.
* `Mistyped`: the value has no type, or not the one that the kind is about.
* `test_of_mistyped`: such a value matches in one case only, that of all of no scalars.
* `test_null_of_none`: this case.
-/

namespace RecordSearch

/-- Values without a type hold no scalars. -/
theorem Json.scalars_of_untyped {value : Json} {cause : Untyped} (h : JsonType.of value = .error cause) :
    value.scalars = [] := by
  cases value with
  | null => rfl
  | number n =>
      cases n with
      | int _ => cases h
      | wide _ => rfl
      | float _ => rfl
  | bool _ => cases h
  | string _ => cases h
  | array _ => cases h
  | object _ => cases h

/-- Outcomes that are all false are accepted together only if there are none of them. -/
theorem Operator.apply_map_false {α : Type} (operator : Operator) (xs : List α) :
    operator.apply (xs.map fun _ => false) = decide (xs = [] ∧ operator = .and) := by
  cases operator with
  | and => cases xs <;> simp [apply]
  | or => simp [apply]

namespace Field

variable {field : Field} {criteria : Criteria}

theorem test_of_valid (hvalid : field.validate criteria = .ok ()) (value : Json) :
    field.test value criteria = .ok (criteria.holds value) := by
  rw [test, hvalid]
  rfl

section Selections

variable {one several : Field} {choices : List Scalar}

theorem validate_multi (hseveral : several.kind = .option choices true) {selected : List Scalar}
    (hselected : selected ⊆ choices) (operator : Operator) :
    several.validate (.multi selected operator) = .ok () := by
  refine validate_of_fits (hseveral ▸ .multi choices selected operator) ?_
  intro cause hcause
  rw [hseveral] at hcause
  cases hcause with
  | choices houtside hsome =>
      obtain ⟨x, hx⟩ := List.exists_mem_of_ne_nil _ hsome
      rw [houtside, List.mem_filter, decide_eq_true_eq] at hx
      exact hx.2 (hselected hx.1)

/-- **A multiple selection is all, or any, of its single selections.**  Let two fields have the same choices, one for a
single selection and one for several.  On every value and for every selection of choices, all tests have an outcome.
Selecting all of the scalars matches exactly if every one of them does alone, and selecting any of them exactly if some
one does. -/
theorem test_multi_iff_single (hone : one.kind = .option choices false)
    (hseveral : several.kind = .option choices true) (value : Json) {selected : List Scalar}
    (hselected : selected ⊆ choices) :
    (∀ x ∈ selected, ∃ found, one.test value (.single x) = .ok found) ∧
    (∀ operator, ∃ found, several.test value (.multi selected operator) = .ok found) ∧
    (several.test value (.multi selected .and) = .ok true ↔
      ∀ x ∈ selected, one.test value (.single x) = .ok true) ∧
    (several.test value (.multi selected .or) = .ok true ↔
      ∃ x ∈ selected, one.test value (.single x) = .ok true) := by
  have halone : ∀ x ∈ selected, one.test value (.single x) = .ok ((Criteria.single x).holds value) :=
    fun x hx => test_of_valid (validate_of_asks hone .single (hselected hx)) value
  have htogether (operator : Operator) :
      several.test value (.multi selected operator) = .ok ((Criteria.multi selected operator).holds value) :=
    test_of_valid (validate_multi hseveral hselected operator) value
  have hall : (Criteria.multi selected .and).holds value = true ↔
      ∀ x ∈ selected, (Criteria.single x).holds value = true := by
    simp [Criteria.holds_multi, Criteria.holds_single, Operator.apply]
  have hany : (Criteria.multi selected .or).holds value = true ↔
      ∃ x ∈ selected, (Criteria.single x).holds value = true := by
    simp [Criteria.holds_multi, Criteria.holds_single, Operator.apply]
  refine ⟨fun x hx => ⟨_, halone x hx⟩, fun operator => ⟨_, htogether operator⟩, ?_, ?_⟩
  · rw [htogether .and, Except.ok.injEq, hall]
    refine forall₂_congr fun x hx => ?_
    rw [halone x hx, Except.ok.injEq]
  · rw [htogether .or, Except.ok.injEq, hany]
    refine exists_congr fun x => and_congr_right fun hx => ?_
    rw [halone x hx, Except.ok.injEq]

/-- A list with a repetition, a null and a nested list, and two tags of which it has one. -/
theorem test_multi_iff_single_tags :
    let choices : List Scalar := [.str "short", .int 1, .str "deep"]
    let one : Field := ⟨[.key "tags"], true, .option choices false⟩
    let several : Field := ⟨[.key "tags"], true, .option choices true⟩
    let value : Json := .array [.int 1, .null, .array [.string "deep"], .int 1]
    one.test value (.single (.int 1)) = .ok true ∧ one.test value (.single (.str "deep")) = .ok false ∧
      several.test value (.multi [.str "deep", .int 1] .or) = .ok true ∧
      several.test value (.multi [.str "deep", .int 1] .and) ≠ .ok true := by
  intro choices one several value
  have hnumber : one.test value (.single (.int 1)) = .ok true := by
    rfl
  have hnested : one.test value (.single (.str "deep")) = .ok false := by
    rfl
  have hone : one.kind = .option choices false := by
    rfl
  have hseveral : several.kind = .option choices true := by
    rfl
  have hselected : [Scalar.str "deep", .int 1] ⊆ choices := by
    decide
  obtain ⟨_, _, hall, hany⟩ := test_multi_iff_single hone hseveral value hselected
  refine ⟨hnumber, hnested, hany.mpr ⟨.int 1, by simp, hnumber⟩, ?_⟩
  intro hboth
  have hdeep := hall.mp hboth (.str "deep") (by simp)
  rw [hnested] at hdeep
  cases hdeep

end Selections

section Mistyped

/-- The value has none of the types of records, or not the one that the kind is about. -/
inductive Mistyped : FieldKind → Json → Prop
  | untyped (kind : FieldKind) {value : Json} {cause : Untyped}
      (hvalue : JsonType.of value = .error cause) :
      Mistyped kind value
  | integer (min max : Option Int64) {value : Json}
      (hvalue : ∀ n, value ≠ .int n) :
      Mistyped (.integer min max) value
  | text {value : Json}
      (hvalue : ∀ written, value ≠ .string written) :
      Mistyped .text value

theorem ne_int_of_mistyped {min max : Option Int64} {value : Json} (h : Mistyped (.integer min max) value)
    (n : Int64) : value ≠ .int n := by
  cases h with
  | untyped _ hvalue =>
      intro hint
      rw [hint] at hvalue
      cases hvalue
  | integer _ _ hvalue => exact hvalue n

theorem ne_string_of_mistyped {value : Json} (h : Mistyped .text value) (written : String) :
    value ≠ .string written := by
  cases h with
  | untyped _ hvalue =>
      intro hstring
      rw [hstring] at hvalue
      cases hvalue
  | text hvalue => exact hvalue written

theorem scalars_of_mistyped {choices : List Scalar} {multiSelection : Bool} {value : Json}
    (h : Mistyped (.option choices multiSelection) value) : value.scalars = [] := by
  cases h with
  | untyped _ hvalue => exact Json.scalars_of_untyped hvalue

/-- What criteria of the shape of a field make of a value of the wrong type. -/
theorem holds_of_mistyped {kind : FieldKind} {value : Json} (hfits : Fits kind criteria) (h : Mistyped kind value) :
    criteria.holds value = decide (criteria = .multi [] .and) := by
  cases hfits with
  | single choices x =>
      rw [Criteria.holds_single, scalars_of_mistyped h]
      rfl
  | multi choices values operator =>
      have hnone : values.map value.scalars.contains = values.map fun _ => false := by
        rw [scalars_of_mistyped h]
        rfl
      rw [Criteria.holds_multi, hnone, Operator.apply_map_false]
      simp
  | integer min max expected comparison =>
      -- The last case of the test, that of a value which is no integer.
      rw [Criteria.holds]
      · rfl
      · exact ne_int_of_mistyped h
  | text values operator caseSensitive =>
      rw [Criteria.holds]
      · rfl
      · exact ne_string_of_mistyped h

/-- **Values of the wrong type.**  A test of accepted criteria on a value that has no type, or not the one that the
field is about, has an outcome, and does not match unless the criteria select all of no scalars. -/
theorem test_of_mistyped (hvalid : field.validate criteria = .ok ()) {value : Json}
    (h : Mistyped field.kind value) : field.test value criteria = .ok (decide (criteria = .multi [] .and)) := by
  have hfits := fits_of_validateKind ((Traversal.mapError_eq_ok_iff _ _ _).mp hvalid)
  rw [test_of_valid hvalid, holds_of_mistyped hfits h]

/-- Tags that are null, and a number of pages that is a text. -/
theorem test_of_mistyped_tags :
    let tags : Json := .object [("type", .string "Option"), ("key", .string "tags"),
      ("values", .array [.string "short"]), ("multi_selection", .bool true)]
    let pages : Json := .object [("type", .string "Integer"), ("key", .string "pages"), ("max", .int 900)]
    (∃ field, ofJson "Tags" tags [] = .ok field ∧ field.validate (.multi [.str "short"] .and) = .ok () ∧
      field.test .null (.multi [.str "short"] .and) = .ok false) ∧
    ∃ field, ofJson "Pages" pages [] = .ok field ∧ field.validate (.integer 612 .neq) = .ok () ∧
      field.test (.string "612") (.integer 612 .neq) = .ok false := by
  intro tags pages
  exact ⟨⟨_, rfl, rfl, test_of_mistyped rfl (.untyped _ rfl)⟩,
    ⟨_, rfl, rfl, test_of_mistyped rfl (.integer _ _ fun _ => nofun)⟩⟩

/-- All of no tags match a null. -/
theorem test_null_of_none :
    let tags : Json := .object [("type", .string "Option"), ("key", .string "tags"),
      ("values", .array [.string "short"]), ("multi_selection", .bool true)]
    ∃ field, ofJson "Tags" tags [] = .ok field ∧ field.validate (.multi [] .and) = .ok () ∧
      JsonType.of .null = .error .null ∧ field.test .null (.multi [] .and) = .ok true :=
  ⟨_, rfl, rfl, rfl, rfl⟩

end Mistyped

end Field
end RecordSearch

import RecordSearch.Field.Json
import RecordSearch.Proofs.Field.Fitting
import RecordSearch.Proofs.Json.Branches
import RecordSearch.Proofs.Json.Shape
import RecordSearch.Proofs.Repetition

/-!
# Choices taken from records

An option field without listed values offers the scalars that the records have at its key.  Choices are collected when
the field is read, and records are tested when it is searched; both look at the same occurrences.

* `Contributes`: a record has the scalar at a key, or in the container there.
* `occurrences`: every scalar that the records contribute, as often and in the order in which they have it.
* `Asks`: the criteria ask for one scalar alone.
* `ofJson_derived_choices`: the choices are the occurrences without repetition; asking for one of them finds exactly the
  records that contribute it, and asking for anything else is refused.
-/

namespace RecordSearch

namespace Json

/-- The scalars that a value holds, with repetitions. -/
def held (v : Json) : List Scalar :=
  (v :: v.branches.map (·.2)).filterMap Scalar.ofJson?

theorem mem_held (v : Json) (x : Scalar) : x ∈ v.held ↔ v = x.toJson ∨ Child x.toJson v := by
  have hchild : (∃ s, (s, x.toJson) ∈ v.branches) ↔ Child x.toJson v := by
    constructor
    · rintro ⟨s, hs⟩
      exact child_of_mem_branches hs
    · rintro (⟨hitem⟩ | ⟨hmember⟩)
      · obtain ⟨i, hi⟩ := List.mem_iff_getElem?.mp hitem
        exact ⟨.index i, (mem_branches_array _ _ _).mpr ⟨i, rfl, hi⟩⟩
      · exact ⟨.key _, (mem_branches_object _ _ _).mpr ⟨_, rfl, hmember⟩⟩
  rw [← hchild, eq_comm]
  simp [held, Scalar.ofJson?_eq_some_iff]

/-- A value holds its scalars, the repeated ones once. -/
theorem scalars_eq (v : Json) : v.scalars = v.held.eraseDups := by
  cases v with
  | array items =>
      have hitems : (Json.array items).branches.map (·.2) = items := by
        rw [branches, List.map_map]
        exact List.zipIdx_map_fst 0 items
      rw [held, hitems]
      rfl
  | object members =>
      have hmembers : (Json.object members).branches.map (·.2) = members.map (·.2) := by
        rw [branches, List.map_map]
        rfl
      rw [held, hmembers, List.filterMap_cons_none rfl, List.filterMap_map]
      rfl
  | null => rfl
  | bool b => rfl
  | string s => rfl
  | number n => cases n <;> rfl

end Json

namespace Field

open Repetition Traversal

/-- The record has the scalar at the key, or among the items or members of what it has there. -/
def Contributes (key : Path) (record : Json) (x : Scalar) : Prop :=
  ∃ v, record.get key = .ok v ∧ (v = x.toJson ∨ Json.Child x.toJson v)

/-- The scalars that records contribute, in order and with repetitions. -/
def occurrences (records : List Json) (key : Path) : List Scalar :=
  (records.filterMap fun record => (record.get key).toOption).flatMap Json.held

/-- The criteria ask for one scalar alone. -/
inductive Asks (x : Scalar) : Bool → Criteria → Prop
  | single : Asks x false (.single x)
  | multi (operator : Operator) : Asks x true (.multi [x] operator)

section Collecting

theorem foundChoices_eq (records : List Json) (key : Path) :
    foundChoices records key = (occurrences records key).eraseDups := by
  rw [foundChoices, occurrences, ← eraseDups_flatMap_eraseDups Json.held, funext Json.scalars_eq]

theorem mem_foundChoices (records : List Json) (key : Path) (x : Scalar) :
    x ∈ foundChoices records key ↔ ∃ record ∈ records, Contributes key record x := by
  have hget (record v : Json) : (record.get key).toOption = some v ↔ record.get key = .ok v := by
    cases record.get key <;> simp [Except.toOption]
  rw [foundChoices_eq, List.mem_eraseDups, occurrences]
  simp only [List.mem_flatMap, List.mem_filterMap, Json.mem_held, hget, Contributes]
  constructor
  · rintro ⟨v, ⟨record, hrecord, hv⟩, hx⟩
    exact ⟨record, hrecord, v, hv, hx⟩
  · rintro ⟨record, hrecord, v, hv, hx⟩
    exact ⟨v, ⟨record, hrecord, hv⟩, hx⟩

/-- The definition lists no values. -/
def Definition.ListsNone (d : Definition) : Prop :=
  d.values = none

/-- Members without values other than null list none. -/
theorem listsNone_of_takeMembers {members : Members} {d : Definition}
    (hvalues : ∀ value, ("values", value) ∈ members → value = .null)
    (h : Definition.optionShape.takeMembers members {} = .ok d) : d.ListsNone := by
  have hother {slot : Slot Definition} (hslot : slot.Keeps Definition.ListsNone) (value : Json)
      (_ : (slot.name, value) ∈ members) :
      ∀ before after, slot.assign value before = .ok after → before.ListsNone → after.ListsNone :=
    hslot value
  have hempty : ({} : Definition).ListsNone := by
    rfl
  refine Shape.takeMembers_keeps_of_mem ?_ hempty h
  simp only [Definition.optionShape, Definition.commonSlots, List.forall_mem_append, List.forall_mem_cons]
  refine ⟨⟨hother (Slot.keeps_of _ fun _ _ _ _ h => h), hother (Slot.keeps_of _ fun _ _ _ _ h => h), by simp⟩,
    ?_, hother (Slot.keeps_of _ fun _ _ _ _ h => h), by simp⟩
  intro value hvalue before after hassign _
  obtain rfl := hvalues value hvalue
  cases hassign
  rfl

theorem values_of_decode {members : Members} {key : Path} {d : Definition}
    (hvalues : ∀ value, ("values", value) ∈ members → value = .null)
    (h : Definition.decode Definition.optionShape members = .ok (key, d)) : d.values = none := by
  rw [Definition.decode] at h
  obtain ⟨taken, htaken, h⟩ := (bind_eq_ok_iff _ _ _).mp h
  have hnone := listsNone_of_takeMembers hvalues ((mapError_eq_ok_iff _ _ _).mp htaken)
  split at h
  · cases h
    exact hnone
  · cases h

theorem choices_of_ofMembers {name : String} {members : Members} {records : List Json} {field : Field}
    {choices : List Scalar} {multiSelection : Bool} (hvalues : ∀ value, ("values", value) ∈ members → value = .null)
    (hread : ofMembers name members records = .ok field) (hkind : field.kind = .option choices multiSelection) :
    choices = foundChoices records field.key := by
  simp only [ofMembers] at hread
  split at hread
  · cases hread
  · obtain ⟨⟨key, d⟩, hdecode, h⟩ := (bind_eq_ok_iff _ _ _).mp ((mapError_eq_ok_iff _ _ _).mp hread)
    have hnone := values_of_decode (fun value hvalue => hvalues value (List.mem_of_mem_filter hvalue)) hdecode
    simp only [hnone] at h
    cases h
    cases hkind
    rfl
  · obtain ⟨⟨key, d⟩, _, h⟩ := (bind_eq_ok_iff _ _ _).mp ((mapError_eq_ok_iff _ _ _).mp hread)
    dsimp only at h
    split at h
    · split at h
      · cases h
      · cases h
        cases hkind
    · cases h
      cases hkind
  · obtain ⟨⟨key, d⟩, _, h⟩ := (bind_eq_ok_iff _ _ _).mp ((mapError_eq_ok_iff _ _ _).mp hread)
    cases h
    cases hkind
  · cases hread
  · cases hread

end Collecting

section Asking

variable {field : Field} {choices : List Scalar} {multiSelection : Bool} {x : Scalar} {criteria : Criteria}

theorem fits_of_asks (hkind : field.kind = .option choices multiSelection) (h : Asks x multiSelection criteria) :
    Fits field.kind criteria := by
  rw [hkind]
  cases h with
  | single => exact .single choices x
  | multi operator => exact .multi choices [x] operator

/-- One scalar alone exceeds the choices exactly if it is none of them. -/
theorem exceeds_iff_of_asks (h : Asks x multiSelection criteria) :
    (∃ cause, Exceeds (.option choices multiSelection) criteria cause) ↔ x ∉ choices := by
  constructor
  · rintro ⟨cause, hcause⟩
    cases h with
    | single =>
        cases hcause with
        | choice hx => exact hx
    | multi operator =>
        cases hcause with
        | choices houtside hsome =>
            rintro hx
            exact hsome (by simp [houtside, hx])
  · intro hx
    cases h with
    | single => exact ⟨_, .choice hx⟩
    | multi operator => exact ⟨_, .choices rfl (by simp [hx])⟩

/-- Whether or not several scalars may be asked for, asking for one tests whether a value holds it. -/
theorem holds_iff_of_asks (h : Asks x multiSelection criteria) (v : Json) :
    criteria.holds v = true ↔ v = x.toJson ∨ Json.Child x.toJson v := by
  rw [← Json.mem_held, ← List.mem_eraseDups, ← Json.scalars_eq]
  cases h with
  | single => simp [Criteria.holds_single]
  | multi operator => cases operator <;> simp [Criteria.holds_multi, Operator.apply]

theorem validate_of_asks (hkind : field.kind = .option choices multiSelection) (h : Asks x multiSelection criteria)
    (hx : x ∈ choices) : field.validate criteria = .ok () := by
  refine validate_of_fits (fits_of_asks hkind h) ?_
  intro cause hcause
  rw [hkind] at hcause
  exact absurd hx ((exceeds_iff_of_asks h).mp ⟨cause, hcause⟩)

/-- Asking for one of the choices, without a pass for missing values, finds the records that contribute it. -/
theorem compare_of_asks (hkind : field.kind = .option choices multiSelection) (h : Asks x multiSelection criteria)
    (hx : x ∈ choices) (record : Json) :
    ∃ found, field.compare record ⟨criteria, false, false⟩ = .ok found ∧
      (found = true ↔ Contributes field.key record x) := by
  have hvalid := validate_of_asks hkind h hx
  cases hget : record.get field.key with
  | error e =>
      refine ⟨false, ?_, ?_⟩
      · rw [compare_of_missing hget, hvalid]
        rfl
      · simp [Contributes, hget]
  | ok v =>
      refine ⟨criteria.holds v, ?_, ?_⟩
      · rw [compare_of_get hget, test, hvalid]
        cases hholds : criteria.holds v <;> rfl
      · simp [Contributes, hget, holds_iff_of_asks h]

/-- **Choices taken from records are sound and complete.**  An option field that lists no values offers exactly the
scalars that the records contribute, each once and in order of first appearance.  Asking for one of them alone is
accepted and finds exactly the records that contribute it, of which there is one; asking for any other scalar is
refused. -/
theorem ofJson_derived_choices {name : String} {members : Members} {records : List Json}
    (hread : ofJson name (.object members) records = .ok field) (hkind : field.kind = .option choices multiSelection)
    (hvalues : ∀ value, ("values", value) ∈ members → value = .null) :
    FirstAppearances (occurrences records field.key) choices ∧
    (∀ x, x ∈ choices ↔ ∃ record ∈ records, Contributes field.key record x) ∧
    (∀ x ∈ choices, ∀ criteria, Asks x multiSelection criteria →
      field.validate criteria = .ok () ∧
      (∀ record, ∃ found, field.compare record ⟨criteria, false, false⟩ = .ok found ∧
        (found = true ↔ Contributes field.key record x)) ∧
      ∃ record ∈ records, field.compare record ⟨criteria, false, false⟩ = .ok true) ∧
    (∀ x, x ∉ choices → ∀ criteria, Asks x multiSelection criteria →
      ∃ cause, field.validate criteria = .error (.invalidCriteria cause) ∧ Exceeds field.kind criteria cause) := by
  obtain rfl := choices_of_ofMembers hvalues hread hkind
  have hmem := mem_foundChoices records field.key
  refine ⟨foundChoices_eq records field.key ▸ firstAppearances_eraseDups _, hmem, ?_, ?_⟩
  · intro x hx criteria hasks
    have hcompare := compare_of_asks hkind hasks hx
    refine ⟨validate_of_asks hkind hasks hx, hcompare, ?_⟩
    obtain ⟨record, hrecord, hcontributes⟩ := (hmem x).mp hx
    obtain ⟨found, hfound, hiff⟩ := hcompare record
    exact ⟨record, hrecord, by rw [hfound, hiff.mpr hcontributes]⟩
  · intro x hx criteria hasks
    obtain ⟨cause, hcause⟩ := (exceeds_iff_of_asks hasks).mpr hx
    rw [← hkind] at hcause
    exact ⟨cause, (validate_eq_error_iff_of_fits (fits_of_asks hkind hasks) _).mpr ⟨cause, hcause, rfl⟩, hcause⟩

/-- Tags as a list, alone, as members and not at all. -/
theorem ofJson_derived_choices_tags :
    let members : Members := [("type", .string "Option"), ("key", .string "tags"), ("values", .null),
      ("multi_selection", .bool true)]
    let both : Json := .object [("tags", .array [.string "short", .null, .array [.string "deep"], .int 1])]
    let alone : Json := .object [("tags", .int 1)]
    let named : Json := .object [("tags", .object [("a", .string "new"), ("b", .string "short")])]
    let records : List Json := [both, alone, .object [("title", .string "none")], named]
    let field : Field := ⟨[.key "tags"], true, .option [.str "short", .int 1, .str "new"] true⟩
    ofJson "Tags" (.object members) records = .ok field ∧
      occurrences records field.key = [.str "short", .int 1, .int 1, .str "new", .str "short"] ∧
      FirstAppearances (occurrences records field.key) [.str "short", .int 1, .str "new"] ∧
      (∃ record ∈ records, field.compare record ⟨.multi [.int 1] .or, false, false⟩ = .ok true) ∧
      ∃ cause, field.validate (.multi [.str "deep"] .and) = .error (.invalidCriteria cause) := by
  intro members both alone named records field
  have hread : ofJson "Tags" (.object members) records = .ok field := by
    rfl
  have hvalues : ∀ value, ("values", value) ∈ members → value = .null := by
    simp [members]
  obtain ⟨horder, _, hinside, houtside⟩ := ofJson_derived_choices hread rfl hvalues
  obtain ⟨cause, hcause, _⟩ := houtside (.str "deep") (by decide) _ (.multi .and)
  exact ⟨hread, rfl, horder, (hinside (.int 1) (by decide) _ (.multi .or)).2.2, cause, hcause⟩

end Asking

end Field
end RecordSearch

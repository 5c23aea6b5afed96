import RecordSearch.Proofs.Database.Records
import RecordSearch.Proofs.Database.Search
import RecordSearch.Proofs.Field.Choices

/-!
# Databases with more data

Fields are read against the records, so more data makes other fields.  They only ever offer more, and what a query finds
among the records that were there before stays the same.

* `Widens`: a field of the same key that offers no less.
* `agree_ofJson`: with more records a field is refused alike, or read as a wider one.
* `Extends`: a database with the same answers on its first records.
* `ofJson_appended_data`: with more data a database is refused alike, or read as one that extends it.
-/

namespace RecordSearch

open Traversal

/-- A kind that offers no less. -/
inductive FieldKind.Widens : FieldKind → FieldKind → Prop
  | option {choices choices' : List Scalar} (multiSelection : Bool) (h : choices ⊆ choices') :
      FieldKind.Widens (.option choices multiSelection) (.option choices' multiSelection)
  | refl (kind : FieldKind) : FieldKind.Widens kind kind

namespace Field

/-- A field at the same key, as optional, that offers no less. -/
structure Widens (field field' : Field) : Prop where
  key : field'.key = field.key
  optional : field'.optional = field.optional
  kind : field.kind.Widens field'.kind

theorem Widens.refl (field : Field) : Widens field field :=
  ⟨rfl, rfl, .refl _⟩

section Criteria

variable {kind kind' : FieldKind} {criteria : Criteria}

theorem fits_of_widens (hkind : kind.Widens kind') (h : Fits kind criteria) : Fits kind' criteria := by
  cases hkind with
  | refl => exact h
  | @option _ choices' _ _ =>
      cases h with
      | single _ value => exact .single choices' value
      | multi _ values operator => exact .multi choices' values operator

/-- Criteria that exceed the wider kind exceed the other one. -/
theorem exceeds_of_widens (hkind : kind.Widens kind') {cause : CriteriaError} (h : Exceeds kind' criteria cause) :
    ∃ cause, Exceeds kind criteria cause := by
  cases hkind with
  | refl => exact ⟨cause, h⟩
  | option _ hsubset =>
      cases h with
      | choice hvalue => exact ⟨_, .choice fun hmem => hvalue (hsubset hmem)⟩
      | @choices _ values _ _ houtside hsome =>
          obtain ⟨value, hvalue⟩ := List.exists_mem_of_ne_nil _ hsome
          rw [houtside, List.mem_filter] at hvalue
          refine ⟨_, .choices rfl (List.ne_nil_of_mem (a := value) ?_)⟩
          rw [List.mem_filter]
          refine ⟨hvalue.1, ?_⟩
          simp only [decide_eq_true_eq] at hvalue ⊢
          exact fun hmem => hvalue.2 (hsubset hmem)

variable {field field' : Field} (hwider : field.Widens field')
include hwider

theorem validate_of_widens (h : field.validate criteria = .ok ()) : field'.validate criteria = .ok () := by
  have hkind := (mapError_eq_ok_iff _ _ _).mp h
  refine validate_of_fits (fits_of_widens hwider.kind (fits_of_validateKind hkind)) ?_
  intro _ hcause
  obtain ⟨_, hcause⟩ := exceeds_of_widens hwider.kind hcause
  rw [validateKind_of_exceeds hcause] at hkind
  cases hkind

/-- The outcome on a record depends on the key only. -/
theorem compare_of_widens {record : Json} {query : FieldQuery} {found : Bool}
    (h : field.compare record query = .ok found) : field'.compare record query = .ok found := by
  obtain ⟨_, hvalid, houtcome⟩ := (bind_eq_ok_iff _ _ _).mp h
  rw [compare, validate_of_widens hwider hvalid, ← houtcome, outcome, outcome, hwider.key]
  rfl

end Criteria

section Reading

variable (records more : List Json)

theorem foundChoices_subset (key : Path) : foundChoices records key ⊆ foundChoices (records ++ more) key := by
  intro x hx
  rw [mem_foundChoices] at hx ⊢
  obtain ⟨record, hrecord, hcontributes⟩ := hx
  exact ⟨record, List.mem_append_left more hrecord, hcontributes⟩

theorem agree_optionOfMembers (members : Members) :
    Agree Widens (optionOfMembers members records) (optionOfMembers members (records ++ more)) := by
  rw [optionOfMembers, optionOfMembers]
  refine (Agree.refl (fun _ => rfl) _).bind ?_
  rintro ⟨key, definition⟩ _ rfl
  cases hvalues : definition.values with
  | some values =>
      simp only [hvalues]
      exact Agree.refl Widens.refl _
  | none =>
      simp only [hvalues]
      exact .ok ⟨rfl, rfl, .option _ (foundChoices_subset records more key)⟩

/-- With more records a field is refused alike, or offers no less. -/
theorem agree_ofJson (name : String) (definition : Json) :
    Agree Widens (ofJson name definition records) (ofJson name definition (records ++ more)) := by
  have hsame := Agree.refl (ε := Error) Widens.refl
  cases definition with
  | object members =>
      rw [ofJson, ofJson, ofMembers, ofMembers]
      split
      · exact hsame _
      · exact (agree_optionOfMembers records more _).mapError _
      · exact hsame _
      · exact hsame _
      · exact hsame _
      · exact hsame _
  | _ => exact hsame _

end Reading
end Field

namespace Database

/-- Fields of the same names, each offering no less. -/
def Wider (fields fields' : List (String × Field)) : Prop :=
  List.Forall₂ (fun entry entry' => entry'.1 = entry.1 ∧ entry.2.Widens entry'.2) fields fields'

/-- A database that goes on after the records of another one, with the same answers on them. -/
structure Extends (db db' : Database) : Prop where
  records : db.records <+: db'.records
  answers : ∀ (query : Query) (operator : Operator) (hits : List Nat), db.searchIndices query operator = .ok hits →
    ∃ hits', db'.searchIndices query operator = .ok hits' ∧ hits'.filter (· < db.records.length) = hits

section Queries

variable {fields fields' : List (String × Field)} {query : Query}

theorem get?_of_wider (h : Wider fields fields') {name : String} {field : Field}
    (hfield : Members.get? name fields = some field) :
    ∃ field', Members.get? name fields' = some field' ∧ field.Widens field' := by
  induction h with
  | nil => cases hfield
  | @cons entry entry' rest rest' hentry _ ih =>
      obtain ⟨_, candidate⟩ := entry
      obtain ⟨found, candidate'⟩ := entry'
      obtain ⟨rfl, hwidens⟩ := hentry
      by_cases hname : found = name
      · obtain rfl : candidate = field := by
          simpa [Members.get?_cons, hname] using hfield
        exact ⟨candidate', by simp [Members.get?_cons, hname], hwidens⟩
      · obtain ⟨field', hfield', hfurther⟩ := ih (by simpa [Members.get?_cons, hname] using hfield)
        exact ⟨field', by simpa [Members.get?_cons, hname] using hfield', hfurther⟩

theorem supplied_of_wider (h : Wider fields fields') (hsupplied : ∀ entry ∈ fields, Supplied query entry) :
    ∀ entry ∈ fields', Supplied query entry := by
  induction h with
  | nil => exact hsupplied
  | @cons entry entry' rest rest' hentry _ ih =>
      obtain ⟨hfirst, hrest⟩ := List.forall_mem_cons.mp hsupplied
      refine List.forall_mem_cons.mpr ⟨?_, ih hrest⟩
      rw [Supplied, hentry.1, hentry.2.optional]
      exact hfirst

theorem accepted_of_wider (h : Wider fields fields') {entry : String × FieldQuery} (hentry : Accepted fields entry) :
    Accepted fields' entry := by
  obtain ⟨field, hfield, hvalid⟩ := hentry
  obtain ⟨field', hfield', hwidens⟩ := get?_of_wider h hfield
  exact ⟨field', hfield', Field.validate_of_widens hwidens hvalid⟩

theorem outcomes_of_wider (h : Wider fields fields') {record : Json} {outcomes : List Bool}
    (houtcomes : Outcomes fields query record outcomes) : Outcomes fields' query record outcomes := by
  refine List.Forall₂.imp ?_ houtcomes
  rintro entry outcome ⟨field, hfield, hcompare⟩
  obtain ⟨field', hfield', hwidens⟩ := get?_of_wider h hfield
  exact ⟨field', hfield', Field.compare_of_widens hwidens hcompare⟩

theorem passes_of_wider (h : Wider fields fields') (hquery : ∀ entry ∈ query, Accepted fields entry)
    (operator : Operator) : passes operator (pairs fields' query) = passes operator (pairs fields query) := by
  funext record
  have houtcomes := outcomes_of_wider h ((outcomes_iff fields query record _ hquery).mpr rfl)
  have hquery' : ∀ entry ∈ query, Accepted fields' entry :=
    fun entry hentry => accepted_of_wider h (hquery entry hentry)
  rw [passes, passes, (outcomes_iff fields' query record _ hquery').mp houtcomes]

end Queries

theorem positions_append (test : Json → Bool) (start : Nat) (records more : List Json) :
    positions test start (records ++ more) =
      positions test start records ++ positions test (start + records.length) more := by
  induction records generalizing start with
  | nil => rfl
  | cons record rest ih =>
      have hlength : start + (record :: rest).length = start + 1 + rest.length := by
        rw [List.length_cons]
        omega
      rw [hlength, List.cons_append, positions, positions, ih]
      split <;> rfl

/-- The positions among the first records do not depend on the others. -/
theorem filter_positions_append (test : Json → Bool) (records more : List Json) :
    (positions test 0 (records ++ more)).filter (· < records.length) = positions test 0 records := by
  rw [positions_append, List.filter_append]
  have hfirst : (positions test 0 records).filter (· < records.length) = positions test 0 records := by
    rw [List.filter_eq_self]
    intro i hi
    obtain ⟨k, record, rfl, hrecord, _⟩ := (mem_positions test 0 i records).mp hi
    obtain ⟨hk, _⟩ := List.getElem?_eq_some_iff.mp hrecord
    simpa using hk
  have hsecond : (positions test (0 + records.length) more).filter (· < records.length) = [] := by
    rw [List.filter_eq_nil_iff]
    intro i hi
    obtain ⟨k, _, rfl, _⟩ := (mem_positions test _ i more).mp hi
    simp
  rw [hfirst, hsecond, List.append_nil]

theorem extends_of_wider {fields fields' : List (String × Field)} (h : Wider fields fields')
    (records more : List Json) : Extends ⟨records, fields⟩ ⟨records ++ more, fields'⟩ := by
  refine ⟨List.prefix_append records more, ?_⟩
  intro query operator hits hsearch
  obtain ⟨checks, hchecks, rfl⟩ := (searchIndices_eq_ok_iff _ _ _ _).mp hsearch
  obtain ⟨hsupplied, haccepted, rfl⟩ := (checkQuery_eq_ok_iff _ _ _).mp hchecks
  refine ⟨_, (searchIndices_eq_ok_iff _ _ _ _).mpr ⟨_, (checkQuery_eq_ok_iff _ _ _).mpr ⟨?_, ?_, rfl⟩, rfl⟩, ?_⟩
  · exact supplied_of_wider h hsupplied
  · exact fun entry hentry => accepted_of_wider h (haccepted entry hentry)
  · rw [passes_of_wider h haccepted, filter_positions_append]

/-- With more records the fields of a database are refused alike, or offer no less. -/
theorem agree_fieldsOfMembers (definitions : Members) (records more : List Json) :
    Agree Wider (fieldsOfMembers records definitions) (fieldsOfMembers (records ++ more) definitions) := by
  refine Agree.mapM fun entry _ => ?_
  exact (Field.agree_ofJson records more entry.1 entry.2).bind fun _ _ hwidens => .ok ⟨rfl, hwidens⟩

/-- **Appended data changes no earlier answer.**  With more data a database is refused alike, or its records go on after
those without the data, and every query that had an answer finds the same among them. -/
theorem ofJson_appended_data (definitions : Members) (data more : List Json) :
    Agree Extends
      (ofJson (.object [("fields", .object definitions), ("data", .array data)])).result
      (ofJson (.object [("fields", .object definitions), ("data", .array (data ++ more))])).result := by
  rw [result_ofJson (result_recordsOfJson_array data), result_ofJson (result_recordsOfJson_array (data ++ more)),
    List.filter_append]
  exact (agree_fieldsOfMembers definitions _ _).map fun _ _ hwider => extends_of_wider hwider _ _

/-- A query that was refused may be answered with more data. -/
example :
    let tagged (tag : String) : Json := .object [("tags", .string tag)]
    let field : Json := .object [("type", .string "Option"), ("key", .string "tags")]
    let found (data : List Json) := do
      let db ← (ofJson (.object [("fields", .object [("Tags", field)]), ("data", .array data)])).result
      db.searchIndices [("Tags", ⟨.single (.str "new"), false, false⟩)] .and
    (found [tagged "old"]).toOption = none ∧
      (found ([tagged "old"] ++ [.null, tagged "new"])).toOption = some [1] := by
  intro tagged field found
  exact ⟨rfl, rfl⟩

end Database
end RecordSearch

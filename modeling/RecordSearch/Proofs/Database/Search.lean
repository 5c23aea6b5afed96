import RecordSearch.Database
import RecordSearch.Proofs.Traversal
import Mathlib.Data.List.Perm.Basic

/-!
# What a search finds

A search checks its query once, and then tests the records without further checks.  This module ties it to the
reference in which every record is tested by every criterion with the check of the field in front.

**Refusals.**  `Refused` gives the error of a query that cannot be put to the fields: the first field that must not be
left out and is, or else the first criteria that no field of their name accepts.  Records do not occur in it.

**Outcomes.**  `Outcomes` relates a query and a record to the outcomes of the checked tests, one for each criterion.

**Results.**
* `checkQuery_eq_error_iff`, `checkQuery_eq_ok_iff`: the check of a query fails exactly as `Refused` says, and gives
  the criteria with their fields otherwise.
* `searchIndices_reference`: a search fails exactly as `Refused` says, and otherwise finds exactly the positions of the
  records whose checked outcomes the operator accepts.
-/

namespace RecordSearch
namespace Database

open Traversal

/-! ## Positions -/

theorem mem_positions (test : Json → Bool) (start i : Nat) (records : List Json) :
    i ∈ positions test start records ↔
      ∃ k record, i = start + k ∧ records[k]? = some record ∧ test record = true := by
  induction records generalizing start with
  | nil =>
      simp [positions]
  | cons r rest ih =>
      have hrest :
          i ∈ positions test (start + 1) rest ↔
            ∃ k record, i = start + (k + 1) ∧ (r :: rest)[k + 1]? = some record ∧ test record = true := by
        rw [ih]
        simp only [List.getElem?_cons_succ, Nat.add_assoc, Nat.add_comm 1]
      have hmem :
          i ∈ positions test start (r :: rest) ↔
            (i = start ∧ test r = true) ∨ i ∈ positions test (start + 1) rest := by
        by_cases hr : test r = true <;> simp [positions, hr]
      rw [hmem, hrest]
      constructor
      · rintro (⟨rfl, hr⟩ | ⟨k, record, hi, hk, ht⟩)
        · exact ⟨0, r, rfl, rfl, hr⟩
        · exact ⟨k + 1, record, hi, hk, ht⟩
      · rintro ⟨k, record, hi, hk, ht⟩
        cases k with
        | zero =>
            obtain rfl : r = record := by
              simpa using hk
            exact Or.inl ⟨hi, ht⟩
        | succ k =>
            exact Or.inr ⟨k, record, hi, hk, ht⟩

theorem positions_increasing (test : Json → Bool) (start : Nat) (records : List Json) :
    (positions test start records).Pairwise (· < ·) := by
  induction records generalizing start with
  | nil =>
      exact List.Pairwise.nil
  | cons r rest ih =>
      by_cases hr : test r = true
      · simp only [positions, hr, if_true, List.pairwise_cons]
        refine ⟨?_, ih (start + 1)⟩
        intro i hi
        obtain ⟨k, _, rfl, _⟩ := (mem_positions test (start + 1) i rest).mp hi
        omega
      · simp only [positions, hr]
        exact ih (start + 1)

/-! ## The check of a query -/

/-- A query has criteria for a named field, or may leave it out. -/
def Supplied (query : Query) (entry : String × Field) : Prop :=
  entry.2.optional = true ∨ Members.has entry.1 query = true

/-- Some field has the name of the criteria, and the criteria can be put to it. -/
def Accepted (fields : List (String × Field)) (entry : String × FieldQuery) : Prop :=
  ∃ field, Members.get? entry.1 fields = some field ∧ field.validate entry.2.criteria = .ok ()

/-- Why named criteria are not accepted. -/
inductive Offends (fields : List (String × Field)) (entry : String × FieldQuery) : Error → Prop
  | unknown
      (h : Members.get? entry.1 fields = none) :
      Offends fields entry (.unknownField entry.1)
  | invalid
      (field : Field) (cause : Error)
      (hfield : Members.get? entry.1 fields = some field)
      (hcause : field.validate entry.2.criteria = .error cause) :
      Offends fields entry (.inField entry.1 cause)

/-- Why a query cannot be put to fields. -/
inductive Refused (fields : List (String × Field)) (query : Query) : Error → Prop
  | missing
      (before : List (String × Field)) (entry : String × Field) (after : List (String × Field))
      (hfields : fields = before ++ entry :: after)
      (hbefore : ∀ other ∈ before, Supplied query other)
      (hentry : ¬ Supplied query entry) :
      Refused fields query (.missingField entry.1)
  | offence
      (hfields : ∀ entry ∈ fields, Supplied query entry)
      (before : Query) (entry : String × FieldQuery) (after : Query)
      (hquery : query = before ++ entry :: after)
      (hbefore : ∀ other ∈ before, Accepted fields other)
      (e : Error) (hentry : Offends fields entry e) :
      Refused fields query e

/-- The criteria of a query with the fields of their names. -/
def pairs (fields : List (String × Field)) (query : Query) : List (Field × FieldQuery) :=
  query.filterMap fun entry => (Members.get? entry.1 fields).map fun field => (field, entry.2)

variable (fields : List (String × Field)) (query : Query)

omit fields in
/-- The condition in `checkRequired`. -/
theorem supplied_iff (entry : String × Field) :
    (entry.2.optional || Members.has entry.1 query) = true ↔ Supplied query entry := by
  rw [Bool.or_eq_true, Supplied]

/-- The required fields are checked in their order. -/
theorem checkRequired_eq_error_iff (e : Error) :
    checkRequired fields query = .error e ↔
      ∃ before entry after,
        fields = before ++ entry :: after ∧
        (∀ other ∈ before, Supplied query other) ∧
        ¬ Supplied query entry ∧ e = .missingField entry.1 := by
  rw [checkRequired, forM_eq_error_iff]
  constructor
  · rintro ⟨before, entry, after, hfields, hbefore, hentry⟩
    refine ⟨before, entry, after, hfields, ?_, ?_⟩
    · intro other hother
      obtain ⟨_, hok⟩ := hbefore other hother
      by_contra hno
      rw [← supplied_iff] at hno
      simp [hno] at hok
    · rw [← supplied_iff]
      by_cases hs : (entry.2.optional || Members.has entry.1 query) = true
      · simp [hs] at hentry
      · simp only [hs, Bool.false_eq_true, if_false, Except.error.injEq] at hentry
        exact ⟨hs, hentry.symm⟩
  · rintro ⟨before, entry, after, hfields, hbefore, hentry, rfl⟩
    refine ⟨before, entry, after, hfields, ?_, ?_⟩
    · intro other hother
      have hs := (supplied_iff query other).mpr (hbefore other hother)
      exact ⟨(), by simp [hs]⟩
    · rw [← supplied_iff] at hentry
      simp [hentry]

/-- The required fields pass exactly if every field is supplied. -/
theorem checkRequired_eq_ok_iff :
    checkRequired fields query = .ok () ↔ ∀ entry ∈ fields, Supplied query entry := by
  rw [checkRequired, forM_eq_ok_iff]
  refine forall₂_congr fun entry _ => ?_
  rw [← supplied_iff]
  by_cases hs : (entry.2.optional || Members.has entry.1 query) = true <;> simp [hs]

section Criteria

variable {fields} {entry : String × FieldQuery} {field : Field}

theorem checkCriteria_of_unknown
    (hfield : Members.get? entry.1 fields = none) :
    checkCriteria fields entry.1 entry.2 = .error (.unknownField entry.1) := by
  simp only [checkCriteria, hfield]

theorem checkCriteria_of_valid
    (hfield : Members.get? entry.1 fields = some field)
    (hvalid : field.validate entry.2.criteria = .ok ()) :
    checkCriteria fields entry.1 entry.2 = .ok field := by
  simp only [checkCriteria, hfield, hvalid]
  rfl

theorem checkCriteria_of_invalid {cause : Error}
    (hfield : Members.get? entry.1 fields = some field)
    (hcause : field.validate entry.2.criteria = .error cause) :
    checkCriteria fields entry.1 entry.2 = .error (.inField entry.1 cause) := by
  simp only [checkCriteria, hfield, hcause]
  rfl

/-- Criteria pass the check exactly if the field of their name accepts them. -/
theorem checkCriteria_eq_ok_iff :
    checkCriteria fields entry.1 entry.2 = .ok field ↔
      Members.get? entry.1 fields = some field ∧ field.validate entry.2.criteria = .ok () := by
  constructor
  · intro h
    cases hfield : Members.get? entry.1 fields with
    | none =>
        rw [checkCriteria_of_unknown hfield] at h
        cases h
    | some found =>
        cases hvalid : found.validate entry.2.criteria with
        | error cause =>
            rw [checkCriteria_of_invalid hfield hvalid] at h
            cases h
        | ok _ =>
            rw [checkCriteria_of_valid hfield hvalid] at h
            cases h
            exact ⟨rfl, hvalid⟩
  · rintro ⟨hfield, hvalid⟩
    exact checkCriteria_of_valid hfield hvalid

/-- Criteria fail the check exactly as `Offends` says. -/
theorem checkCriteria_eq_error_iff {e : Error} :
    checkCriteria fields entry.1 entry.2 = .error e ↔ Offends fields entry e := by
  constructor
  · intro h
    cases hfield : Members.get? entry.1 fields with
    | none =>
        rw [checkCriteria_of_unknown hfield] at h
        cases h
        exact Offends.unknown hfield
    | some found =>
        cases hvalid : found.validate entry.2.criteria with
        | error cause =>
            rw [checkCriteria_of_invalid hfield hvalid] at h
            cases h
            exact Offends.invalid found cause hfield hvalid
        | ok _ =>
            rw [checkCriteria_of_valid hfield hvalid] at h
            cases h
  · intro h
    cases h with
    | unknown hfield => exact checkCriteria_of_unknown hfield
    | invalid _ _ hfield hcause => exact checkCriteria_of_invalid hfield hcause

end Criteria

/-- The check of one entry of a query, as `checkQuery` makes it. -/
def checkEntry (entry : String × FieldQuery) : Except Error (Field × FieldQuery) := do
  let field ← checkCriteria fields entry.1 entry.2
  return (field, entry.2)

theorem checkEntry_succeeds_iff (entry : String × FieldQuery) :
    (∃ pair, checkEntry fields entry = .ok pair) ↔ Accepted fields entry := by
  constructor
  · rintro ⟨pair, h⟩
    obtain ⟨field, hfield, _⟩ := (bind_eq_ok_iff _ _ _).mp h
    exact ⟨field, checkCriteria_eq_ok_iff.mp hfield⟩
  · rintro ⟨field, hfield, hvalid⟩
    exact ⟨(field, entry.2), by rw [checkEntry, checkCriteria_of_valid hfield hvalid]; rfl⟩

theorem checkEntry_eq_error_iff (entry : String × FieldQuery) (e : Error) :
    checkEntry fields entry = .error e ↔ Offends fields entry e := by
  rw [← checkCriteria_eq_error_iff, checkEntry, bind_eq_error_iff]
  constructor
  · rintro (h | ⟨field, _, h⟩)
    · exact h
    · cases h
  · exact Or.inl

theorem checkQuery_eq (db : Database) :
    db.checkQuery query = checkRequired db.fields query >>= fun _ => query.mapM (checkEntry db.fields) :=
  rfl

/-- **The errors of a query** are those of `Refused`. -/
theorem checkQuery_eq_error_iff (db : Database) (e : Error) :
    db.checkQuery query = .error e ↔ Refused db.fields query e := by
  rw [checkQuery_eq, bind_eq_error_iff]
  constructor
  · rintro (h | ⟨_, hrequired, h⟩)
    · obtain ⟨before, entry, after, hfields, hbefore, hentry, rfl⟩ :=
        (checkRequired_eq_error_iff db.fields query e).mp h
      exact Refused.missing before entry after hfields hbefore hentry
    · obtain ⟨before, entry, after, hquery, hbefore, hentry⟩ := (mapM_eq_error_iff _ _ _).mp h
      refine Refused.offence ((checkRequired_eq_ok_iff db.fields query).mp hrequired) before entry after
        hquery ?_ e ((checkEntry_eq_error_iff db.fields entry e).mp hentry)
      intro other hother
      exact (checkEntry_succeeds_iff db.fields other).mp (hbefore other hother)
  · intro h
    cases h with
    | missing before entry after hfields hbefore hentry =>
        left
        exact (checkRequired_eq_error_iff db.fields query _).mpr
          ⟨before, entry, after, hfields, hbefore, hentry, rfl⟩
    | offence hfields before entry after hquery hbefore _ hentry =>
        right
        refine ⟨(), (checkRequired_eq_ok_iff db.fields query).mpr hfields, ?_⟩
        refine (mapM_eq_error_iff _ _ _).mpr ⟨before, entry, after, hquery, ?_, ?_⟩
        · intro other hother
          exact (checkEntry_succeeds_iff db.fields other).mpr (hbefore other hother)
        · exact (checkEntry_eq_error_iff db.fields entry e).mpr hentry

/-- The checked entries of accepted criteria. -/
theorem mapM_checkEntry_eq_ok
    (h : ∀ entry ∈ query, Accepted fields entry) :
    query.mapM (checkEntry fields) = .ok (pairs fields query) := by
  rw [mapM_eq_ok_iff]
  induction query with
  | nil =>
      exact List.Forall₂.nil
  | cons entry rest ih =>
      obtain ⟨field, hfield, hvalid⟩ := h entry (by simp)
      have hpairs : pairs fields (entry :: rest) = (field, entry.2) :: pairs fields rest := by
        simp [pairs, hfield]
      rw [hpairs]
      refine List.Forall₂.cons ?_ (ih fun other hother => h other (List.mem_cons_of_mem _ hother))
      rw [checkEntry, checkCriteria_of_valid hfield hvalid]
      rfl

/-- A query passes the check exactly if all fields are supplied and all criteria accepted, and is then paired with the
fields. -/
theorem checkQuery_eq_ok_iff (db : Database) (checks : List (Field × FieldQuery)) :
    db.checkQuery query = .ok checks ↔
      (∀ entry ∈ db.fields, Supplied query entry) ∧
      (∀ entry ∈ query, Accepted db.fields entry) ∧
      checks = pairs db.fields query := by
  rw [checkQuery_eq, bind_eq_ok_iff]
  constructor
  · rintro ⟨_, hrequired, h⟩
    have haccepted : ∀ entry ∈ query, Accepted db.fields entry := by
      intro entry hentry
      exact (checkEntry_succeeds_iff _ _).mp ((mapM_succeeds_iff _ _).mp ⟨checks, h⟩ entry hentry)
    refine ⟨(checkRequired_eq_ok_iff _ _).mp hrequired, haccepted, ?_⟩
    rw [mapM_checkEntry_eq_ok _ _ haccepted] at h
    cases h
    rfl
  · rintro ⟨hsupplied, haccepted, rfl⟩
    exact ⟨(), (checkRequired_eq_ok_iff _ _).mpr hsupplied, mapM_checkEntry_eq_ok _ _ haccepted⟩

/-! ## Outcomes -/

/-- The outcomes of the criteria of a query on a record, each tested with the check in front. -/
def Outcomes (record : Json) (outcomes : List Bool) : Prop :=
  List.Forall₂
    (fun entry outcome =>
      ∃ field, Members.get? entry.1 fields = some field ∧ field.compare record entry.2 = .ok outcome)
    query outcomes

/-- A checked test of a valid query gives the unchecked outcome. -/
theorem compare_of_valid {field : Field} {q : FieldQuery} (record : Json)
    (hvalid : field.validate q.criteria = .ok ()) :
    field.compare record q = .ok (field.outcome record q) := by
  rw [Field.compare, hvalid]
  rfl

/-- The checked outcomes of accepted criteria are the unchecked ones. -/
theorem outcomes_iff (record : Json) (outcomes : List Bool)
    (h : ∀ entry ∈ query, Accepted fields entry) :
    Outcomes fields query record outcomes ↔
      outcomes = (pairs fields query).map fun (field, q) => field.outcome record q := by
  induction query generalizing outcomes with
  | nil =>
      simp [Outcomes, pairs]
  | cons entry rest ih =>
      obtain ⟨field, hfield, hvalid⟩ := h entry (by simp)
      have hrest : ∀ other ∈ rest, Accepted fields other :=
        fun other hother => h other (List.mem_cons_of_mem _ hother)
      have hpairs : pairs fields (entry :: rest) = (field, entry.2) :: pairs fields rest := by
        simp [pairs, hfield]
      rw [hpairs, List.map_cons]
      constructor
      · intro ho
        cases ho with
        | @cons _ outcome _ others hfirst hothers =>
            obtain ⟨found, hfound, hcompare⟩ := hfirst
            rw [hfield] at hfound
            cases hfound
            rw [compare_of_valid record hvalid] at hcompare
            cases hcompare
            rw [(ih others hrest).mp hothers]
      · rintro rfl
        refine List.Forall₂.cons ⟨field, hfield, compare_of_valid record hvalid⟩ ?_
        exact (ih _ hrest).mpr rfl

/-- The operator accepts the checked outcomes of accepted criteria exactly if the record passes. -/
theorem passes_iff (operator : Operator) (record : Json)
    (h : ∀ entry ∈ query, Accepted fields entry) :
    passes operator (pairs fields query) record = true ↔
      ∃ outcomes, Outcomes fields query record outcomes ∧ operator.apply outcomes = true := by
  simp only [outcomes_iff fields query record _ h, exists_eq_left]
  rfl

/-! ## Reordered queries -/

/-- The order of outcomes does not matter to an operator. -/
theorem apply_perm (operator : Operator) {outcomes outcomes' : List Bool}
    (h : outcomes.Perm outcomes') :
    operator.apply outcomes = operator.apply outcomes' := by
  cases operator with
  | and => exact h.all_eq
  | or => exact h.any_eq

theorem passes_perm (operator : Operator) {checks checks' : List (Field × FieldQuery)}
    (h : checks.Perm checks') :
    passes operator checks = passes operator checks' := by
  funext record
  exact apply_perm operator (h.map _)

/-- A reordered query passes the check with the reordered criteria. -/
theorem checkQuery_perm {db : Database} {query query' : Query} {checks : List (Field × FieldQuery)}
    (h : query'.Perm query) (hchecks : db.checkQuery query = .ok checks) :
    ∃ checks', db.checkQuery query' = .ok checks' ∧ checks'.Perm checks := by
  obtain ⟨hsupplied, haccepted, rfl⟩ := (checkQuery_eq_ok_iff query db checks).mp hchecks
  refine ⟨pairs db.fields query', ?_, h.filterMap _⟩
  refine (checkQuery_eq_ok_iff query' db _).mpr ⟨?_, ?_, rfl⟩
  · intro entry hentry
    refine (hsupplied entry hentry).imp_right fun hhas => ?_
    rw [Members.has_iff] at hhas ⊢
    exact ((h.map _).mem_iff).mpr hhas
  · intro entry hentry
    exact haccepted entry (h.mem_iff.mp hentry)

/-! ## Searches -/

/-- A search fails exactly as the check of its query. -/
theorem searchIndices_eq_error_iff (db : Database) (operator : Operator) (e : Error) :
    db.searchIndices query operator = .error e ↔ Refused db.fields query e := by
  rw [← checkQuery_eq_error_iff, searchIndices, bind_eq_error_iff]
  constructor
  · rintro (h | ⟨_, _, h⟩)
    · exact h
    · cases h
  · exact Or.inl

/-- A search that succeeds gives the positions of the records that pass. -/
theorem searchIndices_eq_ok_iff (db : Database) (operator : Operator) (hits : List Nat) :
    db.searchIndices query operator = .ok hits ↔
      ∃ checks, db.checkQuery query = .ok checks ∧ hits = positions (passes operator checks) 0 db.records := by
  rw [searchIndices, bind_eq_ok_iff]
  constructor
  · rintro ⟨checks, hchecks, h⟩
    cases h
    exact ⟨checks, hchecks, rfl⟩
  · rintro ⟨checks, hchecks, rfl⟩
    exact ⟨checks, hchecks, rfl⟩

/-- The positions that a search gives are positions of records. -/
theorem searchIndices_bounded {db : Database} {operator : Operator} {hits : List Nat}
    (h : db.searchIndices query operator = .ok hits) :
    ∀ i ∈ hits, ∃ record, db.records[i]? = some record := by
  obtain ⟨checks, _, rfl⟩ := (searchIndices_eq_ok_iff query db operator hits).mp h
  intro i hi
  obtain ⟨k, record, rfl, hrecord, _⟩ := (mem_positions _ 0 i db.records).mp hi
  exact ⟨record, by simpa using hrecord⟩

/-- Looking up positions that all have records gives one record for each. -/
theorem filterMap_getElem?_of_bounded (records : List Json) (hits : List Nat)
    (h : ∀ i ∈ hits, ∃ record, records[i]? = some record) :
    (hits.filterMap fun i => records[i]?).map some = hits.map fun i => records[i]? := by
  induction hits with
  | nil =>
      rfl
  | cons i rest ih =>
      obtain ⟨record, hrecord⟩ := h i (by simp)
      rw [List.filterMap_cons_some hrecord, List.map_cons, List.map_cons, hrecord,
        ih fun j hj => h j (List.mem_cons_of_mem _ hj)]

/-- Exactly the records at the positions found, in the order of the records. -/
structure Finds (db : Database) (query : Query) (operator : Operator) (hits : List Nat) : Prop where
  /-- The positions are in increasing order. -/
  increasing : hits.Pairwise (· < ·)
  /-- They are those of the records whose checked outcomes the operator accepts. -/
  mem_iff : ∀ i, i ∈ hits ↔
    ∃ record outcomes, db.records[i]? = some record ∧
      Outcomes db.fields query record outcomes ∧ operator.apply outcomes = true

/-- A search that succeeds finds what the checked tests say. -/
theorem finds_of_searchIndices {db : Database} {operator : Operator} {hits : List Nat}
    (h : db.searchIndices query operator = .ok hits) :
    Finds db query operator hits := by
  obtain ⟨checks, hchecks, rfl⟩ := (searchIndices_eq_ok_iff query db operator hits).mp h
  obtain ⟨_, haccepted, rfl⟩ := (checkQuery_eq_ok_iff query db checks).mp hchecks
  refine ⟨positions_increasing _ 0 db.records, fun i => ?_⟩
  rw [mem_positions]
  simp only [passes_iff db.fields query operator _ haccepted]
  constructor
  · rintro ⟨k, record, rfl, hrecord, outcomes, houtcomes, happly⟩
    exact ⟨record, outcomes, by simpa using hrecord, houtcomes, happly⟩
  · rintro ⟨record, outcomes, hrecord, houtcomes, happly⟩
    exact ⟨i, record, by simp, hrecord, outcomes, houtcomes, happly⟩

/-- A query is refused exactly if it leaves out a field that it must not, or has criteria that no field accepts. -/
theorem exists_refused_iff (db : Database) :
    (∃ e, Refused db.fields query e) ↔
      (∃ entry ∈ db.fields, entry.2.optional = false ∧ Members.has entry.1 query = false) ∨
      (∃ entry ∈ query, Members.has entry.1 db.fields = false) ∨
      (∃ entry ∈ query, ∃ field cause,
        Members.get? entry.1 db.fields = some field ∧ field.validate entry.2.criteria = .error cause) := by
  constructor
  · rintro ⟨e, h⟩
    cases h with
    | missing before entry after hfields _ hentry =>
        left
        refine ⟨entry, by simp [hfields], ?_⟩
        simpa [Supplied] using hentry
    | offence _ before entry after hquery _ _ hentry =>
        right
        have hmem : entry ∈ query := by
          simp [hquery]
        cases hentry with
        | unknown h =>
            exact Or.inl ⟨entry, hmem, by simp [Members.has, h]⟩
        | invalid field cause hfield hcause =>
            exact Or.inr ⟨entry, hmem, field, cause, hfield, hcause⟩
  · intro h
    by_contra hno
    -- Without a refusal the query passes the check, so that nothing is missing and all criteria are accepted.
    obtain ⟨checks, hchecks⟩ : ∃ checks, db.checkQuery query = .ok checks := by
      cases hc : db.checkQuery query with
      | ok checks => exact ⟨checks, rfl⟩
      | error e => exact absurd ⟨e, (checkQuery_eq_error_iff query db e).mp hc⟩ hno
    obtain ⟨hsupplied, haccepted, _⟩ := (checkQuery_eq_ok_iff query db checks).mp hchecks
    rcases h with ⟨entry, hmem, hrequired, hleft⟩ | ⟨entry, hmem, hunknown⟩ |
      ⟨entry, hmem, field, cause, hfield, hcause⟩
    · rcases hsupplied entry hmem with h | h
      · rw [hrequired] at h
        cases h
      · rw [hleft] at h
        cases h
    · obtain ⟨field, hfield, _⟩ := haccepted entry hmem
      simp [Members.has, hfield] at hunknown
    · obtain ⟨found, hfound, hvalid⟩ := haccepted entry hmem
      rw [hfield] at hfound
      cases hfound
      rw [hcause] at hvalid
      cases hvalid

theorem search_eq_error_iff (db : Database) (operator : Operator) (e : Error) :
    db.search query operator = .error e ↔ Refused db.fields query e := by
  rw [← searchIndices_eq_error_iff query db operator, search, bind_eq_error_iff]
  constructor
  · rintro (h | ⟨_, _, h⟩)
    · exact h
    · cases h
  · exact Or.inl

theorem search_of_searchIndices {db : Database} {operator : Operator} {hits : List Nat}
    (h : db.searchIndices query operator = .ok hits) :
    ∃ found, db.search query operator = .ok found ∧
      found.map some = hits.map fun i => db.records[i]? := by
  refine ⟨hits.filterMap fun i => db.records[i]?, ?_, ?_⟩
  · rw [search, h]
    rfl
  · exact filterMap_getElem?_of_bounded db.records hits (searchIndices_bounded query h)

theorem searchIndices_perm {db : Database} {operator : Operator} {query' : Query} {hits : List Nat}
    (hperm : query'.Perm query) (h : db.searchIndices query operator = .ok hits) :
    db.searchIndices query' operator = .ok hits := by
  obtain ⟨checks, hchecks, rfl⟩ := (searchIndices_eq_ok_iff query db operator hits).mp h
  obtain ⟨checks', hchecks', hsame⟩ := checkQuery_perm hperm hchecks
  refine (searchIndices_eq_ok_iff query' db operator _).mpr ⟨checks', hchecks', ?_⟩
  rw [passes_perm operator hsame]

/-- **A search is its reference.**  It fails exactly if the query leaves out a required field or has criteria that are
not accepted, with the error that `Refused` gives, whatever the records and the operator are.  Otherwise it finds
exactly the records whose checked outcomes the operator accepts, in order, also for a reordered query. -/
theorem searchIndices_reference (db : Database) (query : Query) (operator : Operator) :
    ((∃ e, db.searchIndices query operator = .error e) ↔
      (∃ entry ∈ db.fields, entry.2.optional = false ∧ Members.has entry.1 query = false) ∨
      (∃ entry ∈ query, Members.has entry.1 db.fields = false) ∨
      (∃ entry ∈ query, ∃ field cause,
        Members.get? entry.1 db.fields = some field ∧ field.validate entry.2.criteria = .error cause)) ∧
    (∀ e, db.searchIndices query operator = .error e ↔ Refused db.fields query e) ∧
    (∀ e, db.search query operator = .error e ↔ Refused db.fields query e) ∧
    (∀ (records : List Json) (operator' : Operator) (e : Error),
      (Database.mk records db.fields).searchIndices query operator' = .error e ↔
        db.searchIndices query operator = .error e) ∧
    (∀ hits, db.searchIndices query operator = .ok hits →
      Finds db query operator hits ∧
      (∀ record, ∃ outcomes, Outcomes db.fields query record outcomes) ∧
      (∀ query' : Query, query'.Perm query → db.searchIndices query' operator = .ok hits) ∧
      ∃ found, db.search query operator = .ok found ∧
        found.map some = hits.map fun i => db.records[i]?) := by
  refine ⟨?_, fun e => searchIndices_eq_error_iff query db operator e,
    fun e => search_eq_error_iff query db operator e, ?_, ?_⟩
  · rw [← exists_refused_iff]
    simp only [searchIndices_eq_error_iff]
  · intro records operator' e
    rw [searchIndices_eq_error_iff, searchIndices_eq_error_iff]
  · intro hits h
    obtain ⟨checks, hchecks, _⟩ := (searchIndices_eq_ok_iff query db operator hits).mp h
    obtain ⟨_, haccepted, _⟩ := (checkQuery_eq_ok_iff query db checks).mp hchecks
    refine ⟨finds_of_searchIndices query h, ?_, ?_, search_of_searchIndices query h⟩
    · intro record
      exact ⟨_, (outcomes_iff db.fields query record _ haccepted).mpr rfl⟩
    · intro query' hperm
      exact searchIndices_perm query hperm h

/-- Two criteria on three records, one of which has no value for the second criterion. -/
theorem searchIndices_reference_pages :
    let field : Field := ⟨[.key "pages"], false, .integer none none⟩
    let year : Field := ⟨[.key "year"], true, .integer (some 0) none⟩
    let db : Database :=
      ⟨[.object [("pages", .int 612), ("year", .int 1965)], .object [("pages", .int 310)],
        .object [("pages", .int 90), ("year", .int 1990)]], [("Pages", field), ("Year", year)]⟩
    let query : Query := [("Pages", ⟨.integer 100 .gt, false, false⟩), ("Year", ⟨.integer 1980 .lt, true, false⟩)]
    db.searchIndices query .and = .ok [0, 1] ∧ Finds db query .and [0, 1] ∧
      db.searchIndices query.reverse .and = .ok [0, 1] := by
  intro field year db query
  have hits : db.searchIndices query .and = .ok [0, 1] := by
    rfl
  obtain ⟨_, _, _, _, hfound⟩ := searchIndices_reference db query .and
  obtain ⟨hfinds, _, hperm, _⟩ := hfound [0, 1] hits
  exact ⟨hits, hfinds, hperm _ (List.reverse_perm query)⟩

end Database
end RecordSearch

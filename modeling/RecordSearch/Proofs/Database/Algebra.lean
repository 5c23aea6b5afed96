import RecordSearch.Proofs.Database.Search

/-!
# The algebra of queries

Searches follow the laws of sets of records: a flipped query finds the complement, and the criteria of two queries
together find what both find, or what one of them finds.

* `dual`, `flipped`: the other operator; a query with both of its switches the other way.
* `searchIndices_changed_succeeds_iff`: which queries are searched for does not depend on the operator, nor on what the
  check of their criteria does not regard.
* `outcome_flipped`, `passes_flipped`: every outcome is negated, and with it what the operator makes of them.
* `searchIndices_algebra`: complement, composition and the query without criteria.
-/

namespace RecordSearch

/-- The other operator. -/
def Operator.dual : Operator → Operator
  | and => or
  | or => and

/-- The query with the other outcome on every record. -/
def FieldQuery.flipped (query : FieldQuery) : FieldQuery :=
  { query with acceptMissing := !query.acceptMissing, invert := !query.invert }

namespace Operator

/-- Negated outcomes are combined by the other operator to the negated result. -/
theorem apply_dual_not (operator : Operator) (outcomes : List Bool) :
    operator.dual.apply (outcomes.map (!·)) = !operator.apply outcomes := by
  cases operator with
  | and => simp [dual, apply, List.not_all_eq_any_not]
  | or => simp [dual, apply, List.not_any_eq_all_not]

theorem apply_and_append (first second : List Bool) :
    and.apply (first ++ second) = (and.apply first && and.apply second) :=
  List.all_append

theorem apply_or_append (first second : List Bool) :
    or.apply (first ++ second) = (or.apply first || or.apply second) :=
  List.any_append

end Operator

/-- Inversion is for the records with a value, and acceptance for those without one, so both are flipped. -/
theorem Field.outcome_flipped (field : Field) (record : Json) (query : FieldQuery) :
    field.outcome record query.flipped = !field.outcome record query := by
  rw [outcome, outcome]
  cases record.get field.key with
  | ok value => cases query.criteria.holds value <;> cases hinvert : query.invert <;> simp [FieldQuery.flipped, hinvert]
  | error _ => rfl

namespace Database

/-- The query with one change made to what it asks of every field. -/
def changed (change : FieldQuery → FieldQuery) (query : Query) : Query :=
  query.map fun (name, q) => (name, change q)

/-- The query with the switches of all its criteria flipped. -/
def flipped : Query → Query :=
  changed FieldQuery.flipped

variable {db : Database} {query : Query}

/-- A query is searched for exactly if it leaves nothing out and its criteria are accepted. -/
theorem searchIndices_succeeds_iff (db : Database) (query : Query) (operator : Operator) :
    (∃ hits, db.searchIndices query operator = .ok hits) ↔
      (∀ entry ∈ db.fields, Supplied query entry) ∧ ∀ entry ∈ query, Accepted db.fields entry := by
  simp only [searchIndices_eq_ok_iff, checkQuery_eq_ok_iff]
  constructor
  · rintro ⟨_, _, ⟨hsupplied, haccepted, _⟩, _⟩
    exact ⟨hsupplied, haccepted⟩
  · rintro ⟨hsupplied, haccepted⟩
    exact ⟨_, _, ⟨hsupplied, haccepted, rfl⟩, rfl⟩

section Change

variable (change : FieldQuery → FieldQuery)

theorem names_changed (query : Query) : Members.names (changed change query) = Members.names query := by
  rw [Members.names, changed, List.map_map]
  rfl

theorem supplied_changed (entry : String × Field) : Supplied (changed change query) entry ↔ Supplied query entry := by
  rw [Supplied, Supplied, Members.has_iff, Members.has_iff, names_changed]

theorem pairs_changed (fields : List (String × Field)) (query : Query) :
    pairs fields (changed change query) = (pairs fields query).map fun (field, q) => (field, change q) := by
  rw [pairs, pairs, changed, List.filterMap_map, List.map_filterMap]
  refine List.filterMap_congr fun entry _ => ?_
  simp only [Function.comp_apply, Option.map_map]
  rfl

/-- A change that makes no difference to the check of criteria makes none to what is searched for. -/
theorem searchIndices_changed_succeeds_iff
    (hchange : ∀ (field : Field) q, field.validate (change q).criteria = .ok () ↔ field.validate q.criteria = .ok ())
    (db : Database) (query : Query) (operator operator' : Operator) :
    (∃ hits, db.searchIndices (changed change query) operator = .ok hits) ↔
      ∃ hits, db.searchIndices query operator' = .ok hits := by
  have haccepted : (∀ entry ∈ changed change query, Accepted db.fields entry) ↔
      ∀ entry ∈ query, Accepted db.fields entry := by
    rw [changed, List.forall_mem_map]
    simp only [Accepted, hchange]
  rw [searchIndices_succeeds_iff, searchIndices_succeeds_iff, haccepted]
  simp only [supplied_changed]

end Change

section Complement

/-- A record passes the flipped criteria under the other operator exactly if it does not pass. -/
theorem passes_flipped (fields : List (String × Field)) (query : Query) (operator : Operator) (record : Json) :
    passes operator.dual (pairs fields (flipped query)) record = !passes operator (pairs fields query) record := by
  rw [passes, passes, flipped, pairs_changed, ← Operator.apply_dual_not, List.map_map, List.map_map]
  refine congrArg operator.dual.apply (List.map_congr_left fun check _ => ?_)
  exact Field.outcome_flipped check.1 record check.2

end Complement

section Composition

variable {first second union : Query}

theorem pairs_append (fields : List (String × Field)) (first second : Query) :
    pairs fields (first ++ second) = pairs fields first ++ pairs fields second :=
  List.filterMap_append

theorem passes_and_append (checks more : List (Field × FieldQuery)) (record : Json) :
    passes .and (checks ++ more) record = (passes .and checks record && passes .and more record) := by
  rw [passes, List.map_append, Operator.apply_and_append]
  rfl

theorem passes_or_append (checks more : List (Field × FieldQuery)) (record : Json) :
    passes .or (checks ++ more) record = (passes .or checks record || passes .or more record) := by
  rw [passes, List.map_append, Operator.apply_or_append]
  rfl

/-- What a union passes is passed by its two parts, in any order of the criteria. -/
theorem passes_union (hunion : union.Perm (first ++ second)) (fields : List (String × Field)) (operator : Operator) :
    passes operator (pairs fields union) = passes operator (pairs fields first ++ pairs fields second) := by
  rw [← pairs_append]
  exact passes_perm operator (hunion.filterMap _)

theorem supplied_of_union (hunion : union.Perm (first ++ second)) {entry : String × Field}
    (h : Supplied first entry) : Supplied union entry := by
  refine h.imp_right fun hhas => ?_
  rw [Members.has_iff] at hhas ⊢
  have hnames : (Members.names union).Perm (Members.names first ++ Members.names second) := by
    simpa [Members.names] using hunion.map Prod.fst
  exact hnames.mem_iff.mpr (List.mem_append_left _ hhas)

end Composition

section Searches

variable {operator : Operator} {hits : List Nat}

theorem hits_eq (h : db.searchIndices query operator = .ok hits) :
    hits = positions (passes operator (pairs db.fields query)) 0 db.records := by
  obtain ⟨checks, hchecks, rfl⟩ := (searchIndices_eq_ok_iff query db operator hits).mp h
  obtain ⟨_, _, rfl⟩ := (checkQuery_eq_ok_iff query db checks).mp hchecks
  rfl

/-- The hits are the positions of the records that pass. -/
theorem mem_hits_iff (h : db.searchIndices query operator = .ok hits) (i : Nat) :
    i ∈ hits ↔ ∃ hi : i < db.records.length, passes operator (pairs db.fields query) db.records[i] = true := by
  rw [hits_eq h, mem_positions]
  constructor
  · rintro ⟨k, record, rfl, hrecord, hpasses⟩
    rw [Nat.zero_add]
    obtain ⟨hk, rfl⟩ := List.getElem?_eq_some_iff.mp hrecord
    exact ⟨hk, hpasses⟩
  · rintro ⟨hi, hpasses⟩
    exact ⟨i, _, (Nat.zero_add i).symm, List.getElem?_eq_getElem hi, hpasses⟩

/-- The flipped query finds the other records under the other operator. -/
theorem mem_flipped_hits_iff {hits' : List Nat} (h : db.searchIndices query operator = .ok hits)
    (h' : db.searchIndices (flipped query) operator.dual = .ok hits') (i : Nat) :
    i ∈ hits' ↔ i < db.records.length ∧ i ∉ hits := by
  rw [mem_hits_iff h', mem_hits_iff h]
  simp only [passes_flipped, Bool.not_eq_true', ← Bool.not_eq_true]
  constructor
  · rintro ⟨hi, hfails⟩
    exact ⟨hi, fun ⟨_, hpasses⟩ => hfails hpasses⟩
  · rintro ⟨hi, hno⟩
    exact ⟨hi, fun hpasses => hno ⟨hi, hpasses⟩⟩

section Union

variable {first second union : Query} (hunion : union.Perm (first ++ second))
include hunion

theorem searchIndices_union_succeeds (hfirst : ∃ hits, db.searchIndices first operator = .ok hits)
    (hsecond : ∃ hits, db.searchIndices second operator = .ok hits) :
    ∃ hits, db.searchIndices union operator = .ok hits := by
  rw [searchIndices_succeeds_iff] at hfirst hsecond ⊢
  refine ⟨fun entry hentry => supplied_of_union hunion (hfirst.1 entry hentry), fun entry hentry => ?_⟩
  rcases List.mem_append.mp (hunion.mem_iff.mp hentry) with hentry | hentry
  · exact hfirst.2 entry hentry
  · exact hsecond.2 entry hentry

theorem mem_union_hits_and_iff (h : db.searchIndices union .and = .ok hits) (i : Nat) :
    i ∈ hits ↔ ∃ hi : i < db.records.length, passes .and (pairs db.fields first) db.records[i] = true ∧
      passes .and (pairs db.fields second) db.records[i] = true := by
  rw [mem_hits_iff h, passes_union hunion]
  simp only [passes_and_append, Bool.and_eq_true]

theorem mem_union_hits_or_iff (h : db.searchIndices union .or = .ok hits) (i : Nat) :
    i ∈ hits ↔ ∃ hi : i < db.records.length, passes .or (pairs db.fields first) db.records[i] = true ∨
      passes .or (pairs db.fields second) db.records[i] = true := by
  rw [mem_hits_iff h, passes_union hunion]
  simp only [passes_or_append, Bool.or_eq_true]

end Union

theorem positions_of_all {test : Json → Bool} (h : ∀ record, test record = true) (start : Nat) (records : List Json) :
    positions test start records = List.range' start records.length := by
  induction records generalizing start with
  | nil => rfl
  | cons record rest ih => rw [positions, if_pos (h record), ih, List.length_cons, List.range'_succ]

theorem positions_of_none {test : Json → Bool} (h : ∀ record, test record = false) (start : Nat) (records : List Json) :
    positions test start records = [] := by
  induction records generalizing start with
  | nil => rfl
  | cons record rest ih => rw [positions, h, if_neg Bool.false_ne_true, ih]

end Searches

/-- **Queries are an algebra of sets of records.**  The query with all switches flipped is accepted alike, and finds
under the other operator exactly the records that are not found.  The criteria of two queries together find what both
find under `and`, and what one of them finds under `or`; so more criteria find no more under `and`, and no less under
`or`.  Without criteria all records are found under `and`, and none under `or`. -/
theorem searchIndices_algebra (db : Database) :
    (∀ query operator,
      ((∃ hits, db.searchIndices query operator = .ok hits) ↔
        ∃ hits, db.searchIndices (flipped query) operator.dual = .ok hits) ∧
      ∀ hits hits', db.searchIndices query operator = .ok hits →
        db.searchIndices (flipped query) operator.dual = .ok hits' →
        ∀ i, i ∈ hits' ↔ i < db.records.length ∧ i ∉ hits) ∧
    (∀ first second union : Query, union.Perm (first ++ second) →
      (∀ hits₁ hits₂, db.searchIndices first .and = .ok hits₁ → db.searchIndices second .and = .ok hits₂ →
        ∃ hits, db.searchIndices union .and = .ok hits ∧ ∀ i, i ∈ hits ↔ i ∈ hits₁ ∧ i ∈ hits₂) ∧
      (∀ hits₁ hits₂, db.searchIndices first .or = .ok hits₁ → db.searchIndices second .or = .ok hits₂ →
        ∃ hits, db.searchIndices union .or = .ok hits ∧ ∀ i, i ∈ hits ↔ i ∈ hits₁ ∨ i ∈ hits₂) ∧
      (∀ hits₁ hits, db.searchIndices first .and = .ok hits₁ → db.searchIndices union .and = .ok hits →
        hits ⊆ hits₁) ∧
      (∀ hits₁ hits, db.searchIndices first .or = .ok hits₁ → db.searchIndices union .or = .ok hits →
        hits₁ ⊆ hits)) ∧
    (∀ hits, db.searchIndices [] .and = .ok hits → hits = List.range db.records.length) ∧
    (∀ hits, db.searchIndices [] .or = .ok hits → hits = []) := by
  refine ⟨?complement, ?composition, ?all, ?none⟩
  case complement =>
    intro query operator
    exact ⟨(searchIndices_changed_succeeds_iff FieldQuery.flipped (fun _ _ => Iff.rfl) db query _ _).symm,
      fun hits hits' h h' => mem_flipped_hits_iff h h'⟩
  case composition =>
    intro first second union hunion
    refine ⟨?_, ?_, ?_, ?_⟩
    · intro hits₁ hits₂ h₁ h₂
      obtain ⟨hits, h⟩ := searchIndices_union_succeeds hunion ⟨_, h₁⟩ ⟨_, h₂⟩
      refine ⟨hits, h, fun i => ?_⟩
      rw [mem_union_hits_and_iff hunion h, mem_hits_iff h₁, mem_hits_iff h₂]
      exact ⟨fun ⟨hi, hfirst, hsecond⟩ => ⟨⟨hi, hfirst⟩, hi, hsecond⟩,
        fun ⟨⟨hi, hfirst⟩, _, hsecond⟩ => ⟨hi, hfirst, hsecond⟩⟩
    · intro hits₁ hits₂ h₁ h₂
      obtain ⟨hits, h⟩ := searchIndices_union_succeeds hunion ⟨_, h₁⟩ ⟨_, h₂⟩
      refine ⟨hits, h, fun i => ?_⟩
      rw [mem_union_hits_or_iff hunion h, mem_hits_iff h₁, mem_hits_iff h₂, ← exists_or]
    · intro hits₁ hits h₁ h i hi
      obtain ⟨hi, hfirst, _⟩ := (mem_union_hits_and_iff hunion h i).mp hi
      exact (mem_hits_iff h₁ i).mpr ⟨hi, hfirst⟩
    · intro hits₁ hits h₁ h i hi
      obtain ⟨hi, hfirst⟩ := (mem_hits_iff h₁ i).mp hi
      exact (mem_union_hits_or_iff hunion h i).mpr ⟨hi, .inl hfirst⟩
  case all =>
    intro hits h
    rw [hits_eq h, List.range_eq_range']
    exact positions_of_all (fun _ => rfl) 0 db.records
  case none =>
    intro hits h
    rw [hits_eq h]
    exact positions_of_none (fun _ => rfl) 0 db.records

/-- Two criteria on records that lack one of the values, or both. -/
theorem searchIndices_algebra_pages :
    let pages : Field := ⟨[.key "pages"], true, .integer none none⟩
    let title : Field := ⟨[.key "title"], true, .text⟩
    let db : Database :=
      ⟨[.object [("pages", .int 612), ("title", .string "Dune")], .object [("title", .string "Emma")],
        .object [("pages", .int 90)], .object []], [("Pages", pages), ("Title", title)]⟩
    let long : Query := [("Pages", ⟨.integer 100 .gt, false, false⟩)]
    let named : Query := [("Title", ⟨.text ["un"] .or false, true, true⟩)]
    db.searchIndices long .and = .ok [0] ∧ db.searchIndices named .and = .ok [1, 2, 3] ∧
      db.searchIndices (named ++ long) .or = .ok [0, 1, 2, 3] ∧
      (∃ hits, db.searchIndices (flipped long) .or = .ok hits ∧ ∀ i, i ∈ hits ↔ i < 4 ∧ i ∉ [0]) ∧
      ∃ hits, db.searchIndices (named ++ long) .and = .ok hits ∧ ∀ i, i ∈ hits ↔ i ∈ [0] ∧ i ∈ [1, 2, 3] := by
  intro pages title db long named
  have hlong : db.searchIndices long .and = .ok [0] := by
    rfl
  have hnamed : db.searchIndices named .and = .ok [1, 2, 3] := by
    rfl
  have heither : db.searchIndices (named ++ long) .or = .ok [0, 1, 2, 3] := by
    rfl
  obtain ⟨hcomplement, hcomposition, _⟩ := searchIndices_algebra db
  obtain ⟨haccepted, hothers⟩ := hcomplement long .and
  obtain ⟨hits, hhits⟩ := haccepted.mp ⟨_, hlong⟩
  obtain ⟨hboth, _⟩ := hcomposition long named (named ++ long) List.perm_append_comm
  exact ⟨hlong, hnamed, heither, ⟨hits, hhits, hothers _ _ hlong hhits⟩, hboth _ _ hlong hnamed⟩

end Database
end RecordSearch

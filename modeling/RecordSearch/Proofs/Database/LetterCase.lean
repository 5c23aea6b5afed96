import RecordSearch.Proofs.Database.Algebra
import RecordSearch.Proofs.Text.LowerCase

/-!
# Regard to the case of letters

Text criteria without regard to case look for the lower form of every part in the lower form of the text.  They find
what they find with regard to case, unless a capital sigma of a part becomes another letter there than in the text.

* `relaxed`: criteria and queries without regard to case.
* `SettledOn`: every part that occurs has a place in which its lower form is that of the part alone.
* `holds_relaxed`: then the criteria still hold.
* `searchIndices_relaxed`: hence a search finds such records again; without a capital sigma in its parts it finds all.
* `searchIndices_relaxed_sigma`: a record that is lost.
-/

namespace RecordSearch

open Text

/-- When some outcomes turn for the better, so does what the operator makes of them. -/
theorem Operator.apply_mono {α : Type} {f g : α → Bool} {xs : List α} (h : ∀ x ∈ xs, f x = true → g x = true)
    (operator : Operator) (hf : operator.apply (xs.map f) = true) : operator.apply (xs.map g) = true := by
  cases operator with
  | and =>
      simp only [apply, List.all_map, List.all_eq_true] at hf ⊢
      exact fun x hx => h x hx (hf x hx)
  | or =>
      simp only [apply, List.any_map, List.any_eq_true] at hf ⊢
      obtain ⟨x, hx, hfx⟩ := hf
      exact ⟨x, hx, h x hx hfx⟩

namespace Criteria

/-- The parts that text criteria look for. -/
def parts : Criteria → List String
  | text values _ _ => values
  | _ => []

/-- The criteria without regard to the case of letters. -/
def relaxed : Criteria → Criteria
  | text values operator _ => text values operator false
  | criteria => criteria

/-- Every part that occurs in the text has a place there where it is settled. -/
def SettledOn (criteria : Criteria) (value : Json) : Prop :=
  ∀ text, value = .string text → ∀ part ∈ criteria.parts,
    part.toList <:+: text.toList → SettledIn text.toList part.toList

theorem settledOn_of_noSigma {criteria : Criteria} (hno : ∀ part ∈ criteria.parts, 'Σ' ∉ part.toList) (value : Json) :
    criteria.SettledOn value := by
  rintro text rfl part hpart hoccurs
  exact settledIn_of_noSigma hoccurs (hno part hpart)

theorem textContains_relaxed {caseSensitive : Bool} {text part : String}
    (hsettled : part.toList <:+: text.toList → SettledIn text.toList part.toList)
    (h : textContains caseSensitive text part = true) : textContains false text part = true := by
  cases caseSensitive with
  | false => exact h
  | true =>
      have hoccurs : part.toList <:+: text.toList := (hasPart_iff _ _).mp h
      exact (hasPart_iff _ _).mpr (lowerCase_of_settledIn (hsettled hoccurs))

/-- Criteria that hold on a value hold without regard to case, if their parts are settled there. -/
theorem holds_relaxed {criteria : Criteria} {value : Json} (hsettled : criteria.SettledOn value)
    (h : criteria.holds value = true) : criteria.relaxed.holds value = true := by
  cases criteria with
  | text values operator caseSensitive =>
      cases value with
      | string text =>
          exact operator.apply_mono (fun part hpart => textContains_relaxed (hsettled text rfl part hpart)) h
      | _ => exact h
  | _ => exact h

end Criteria

/-- The query without regard to the case of letters. -/
def FieldQuery.relaxed (query : FieldQuery) : FieldQuery :=
  { query with criteria := query.criteria.relaxed }

namespace Field

variable {field : Field}

theorem validate_relaxed_iff (field : Field) (criteria : Criteria) :
    field.validate criteria.relaxed = .ok () ↔ field.validate criteria = .ok () := by
  cases criteria with
  | text values operator caseSensitive =>
      obtain ⟨_, _, kind⟩ := field
      cases kind <;> simp [validate, validateKind, Criteria.relaxed, Except.mapError]
  | _ => rfl

theorem test_relaxed {value : Json} {criteria : Criteria} (hsettled : criteria.SettledOn value)
    (h : field.test value criteria = .ok true) : field.test value criteria.relaxed = .ok true := by
  obtain ⟨_, hvalid, hholds⟩ := (Traversal.bind_eq_ok_iff _ _ _).mp h
  have hrelaxed := Criteria.holds_relaxed hsettled (Except.ok.inj hholds)
  rw [test, (field.validate_relaxed_iff criteria).mpr hvalid, hrelaxed]
  rfl

/-- A record that meets a query meets it without regard to case, if no criteria that regard it are inverted. -/
theorem outcome_relaxed {record : Json} {query : FieldQuery}
    (hinvert : query.invert = true → query.criteria.relaxed = query.criteria)
    (hsettled : ∀ value, record.get field.key = .ok value → query.criteria.SettledOn value)
    (h : field.outcome record query = true) : field.outcome record query.relaxed = true := by
  -- An inverted outcome could be lost when more values meet the criteria, so these have to be the same.
  cases hcase : query.invert with
  | true =>
      have hsame : query.relaxed = query := by
        rw [FieldQuery.relaxed, hinvert hcase]
      rw [hsame]
      exact h
  | false =>
      rw [outcome] at h ⊢
      cases hget : record.get field.key with
      | error _ =>
          rw [hget] at h
          exact h
      | ok value =>
          simp only [hget, hcase, FieldQuery.relaxed, Bool.bne_false] at h ⊢
          exact Criteria.holds_relaxed (hsettled value hget) h

end Field

namespace Database

/-- The query without regard to the case of letters. -/
def relaxed : Query → Query :=
  changed FieldQuery.relaxed

/-- The criteria of the query are settled on the values of the record. -/
def SettledOn (fields : List (String × Field)) (query : Query) (record : Json) : Prop :=
  ∀ entry ∈ query, ∀ field value, Members.get? entry.1 fields = some field → record.get field.key = .ok value →
    entry.2.criteria.SettledOn value

variable {fields : List (String × Field)} {query : Query}

theorem mem_pairs_iff (field : Field) (q : FieldQuery) :
    (field, q) ∈ pairs fields query ↔ ∃ entry ∈ query, Members.get? entry.1 fields = some field ∧ entry.2 = q := by
  simp [pairs]

/-- A record that passes a query passes it without regard to case, if the criteria are settled on it. -/
theorem passes_relaxed (hinvert : ∀ entry ∈ query, entry.2.invert = true → entry.2.criteria.relaxed = entry.2.criteria)
    {record : Json} (hsettled : SettledOn fields query record) {operator : Operator}
    (h : passes operator (pairs fields query) record = true) :
    passes operator (pairs fields (relaxed query)) record = true := by
  rw [passes, relaxed, pairs_changed, List.map_map]
  refine operator.apply_mono ?_ h
  rintro ⟨field, _⟩ hcheck houtcome
  obtain ⟨entry, hentry, hfield, rfl⟩ := (mem_pairs_iff _ _).mp hcheck
  exact Field.outcome_relaxed (hinvert entry hentry)
    (fun value hvalue => hsettled entry hentry field value hfield hvalue) houtcome

/-- **What is found without regard to case.**  A value that meets criteria meets them without regard to case if every
part that occurs in it is settled in some place.  Where only criteria that do not regard case are inverted, a query is
accepted without regard to case if it is accepted, and finds all the records again on which it is settled.  These are
all records if no part that it looks for has a capital sigma. -/
theorem searchIndices_relaxed (db : Database) (query : Query) (operator : Operator) :
    (∀ (field : Field) value criteria, criteria.SettledOn value → field.test value criteria = .ok true →
      field.test value criteria.relaxed = .ok true) ∧
    ∀ hits, db.searchIndices query operator = .ok hits →
      (∀ entry ∈ query, entry.2.invert = true → entry.2.criteria.relaxed = entry.2.criteria) →
      ∃ hits', db.searchIndices (relaxed query) operator = .ok hits' ∧
        (∀ i ∈ hits, (∀ record, db.records[i]? = some record → SettledOn db.fields query record) → i ∈ hits') ∧
        ((∀ entry ∈ query, ∀ part ∈ entry.2.criteria.parts, 'Σ' ∉ part.toList) → hits ⊆ hits') := by
  refine ⟨fun field value criteria hsettled h => Field.test_relaxed hsettled h, fun hits h hinvert => ?_⟩
  obtain ⟨hits', h'⟩ := (searchIndices_changed_succeeds_iff FieldQuery.relaxed
    (fun field q => field.validate_relaxed_iff q.criteria) db query operator operator).mpr ⟨hits, h⟩
  have hfound : ∀ i ∈ hits, (∀ record, db.records[i]? = some record → SettledOn db.fields query record) →
      i ∈ hits' := by
    intro i hi hsettled
    obtain ⟨hlt, hpasses⟩ := (mem_hits_iff h i).mp hi
    exact (mem_hits_iff h' i).mpr
      ⟨hlt, passes_relaxed hinvert (hsettled _ (List.getElem?_eq_getElem hlt)) hpasses⟩
  refine ⟨hits', h', hfound, fun hno i hi => hfound i hi fun record _ => ?_⟩
  exact fun entry hentry _ value _ _ => Criteria.settledOn_of_noSigma (hno entry hentry) value

/-- Two parts, one with a capital sigma that is found at the end of a word. -/
theorem searchIndices_relaxed_word :
    let title : Field := ⟨[.key "title"], true, .text⟩
    let db : Database := ⟨[.object [("title", .string "ΑΣΑ ΑΣ")], .object [("title", .string "Dune")]],
      [("Title", title)]⟩
    let query : Query := [("Title", ⟨.text ["ΑΣ", "Du"] .or true, false, false⟩)]
    db.searchIndices query .or = .ok [0, 1] ∧
      ∃ hits, db.searchIndices (relaxed query) .or = .ok hits ∧ 0 ∈ hits := by
  intro title db query
  have hhits : db.searchIndices query .or = .ok [0, 1] := by
    rfl
  have hword : SettledIn "ΑΣΑ ΑΣ".toList "ΑΣ".toList := by
    refine ⟨"ΑΣΑ ".toList, [], rfl, settled_of_apart ?_ rfl _⟩
    decide +kernel
  have hsettled : ∀ record, db.records[0]? = some record → SettledOn db.fields query record := by
    rintro record hrecord entry hentry field value hfield hvalue text rfl part hpart hoccurs
    obtain rfl := Option.some.inj hrecord
    obtain rfl := List.mem_singleton.mp hentry
    obtain rfl := Option.some.inj hfield
    obtain rfl : "ΑΣΑ ΑΣ" = text := Json.string.inj (Except.ok.inj hvalue)
    rcases List.mem_pair.mp hpart with rfl | rfl
    · exact hword
    · exact settledIn_of_noSigma hoccurs (by decide +kernel)
  obtain ⟨_, hsearch⟩ := searchIndices_relaxed db query .or
  obtain ⟨hits, hrelaxed, hfound, _⟩ := hsearch [0, 1] hhits (by simp [query])
  exact ⟨hhits, hits, hrelaxed, hfound 0 (by simp) hsettled⟩

/-- A part that occurs in a text, and does not occur without regard to case: a capital sigma ends the part, and becomes
the final small sigma there, but not in the text. -/
theorem searchIndices_relaxed_sigma :
    let title : Field := ⟨[.key "title"], true, .text⟩
    let db : Database := ⟨[.object [("title", .string "ΑΣΑ")]], [("Title", title)]⟩
    let query : Query := [("Title", ⟨.text ["ΑΣ"] .and true, false, false⟩)]
    title.test (.string "ΑΣΑ") (.text ["ΑΣ"] .and true) = .ok true ∧
      title.test (.string "ΑΣΑ") (.text ["ΑΣ"] .and false) = .ok false ∧
      db.searchIndices query .and = .ok [0] ∧ db.searchIndices (relaxed query) .and = .ok [] := by
  intro title db query
  have hlost : (Criteria.text ["ΑΣ"] .and false).holds (.string "ΑΣΑ") = false := by
    decide +kernel
  have hnone : positions (passes .and (pairs db.fields (relaxed query))) 0 db.records = [] := by
    decide +kernel
  exact ⟨rfl, congrArg Except.ok hlost, rfl, congrArg Except.ok hnone⟩

end Database
end RecordSearch

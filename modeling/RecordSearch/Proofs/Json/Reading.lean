import RecordSearch.Json.Reader.Value
import RecordSearch.Proofs.Json.Parts
import RecordSearch.Proofs.Traversal

/-!
# Values that are read

No object that is read has two members of one name: a name written twice keeps its last value only.

* `distinct_insert`: inserting a member keeps names apart.
* `distinct_readValue`: by induction on the steps of the reader, with the members read so far as the invariant.
* `distinct_ofText`, `distinct_ofBytes`: the result for whole texts.
-/

namespace RecordSearch
namespace Json

open Traversal

/-- The members of an object that may be read. -/
def DistinctMembers (members : Members) : Prop :=
  (Members.names members).Nodup ∧ ∀ m ∈ members, m.2.Distinct

theorem mem_insert {name : String} {value : Json} {members : Members} {m : String × Json}
    (h : m ∈ Members.insert name value members) : m = (name, value) ∨ m ∈ members := by
  induction members with
  | nil =>
      exact Or.inl (by simpa [Members.insert_nil] using h)
  | cons first rest ih =>
      obtain ⟨n, v⟩ := first
      by_cases hn : n = name
      · subst hn
        rw [Members.insert_cons, if_pos rfl] at h
        rcases List.mem_cons.mp h with h | h
        · exact Or.inl h
        · exact Or.inr (List.mem_cons_of_mem _ h)
      · rw [Members.insert_cons, if_neg hn] at h
        rcases List.mem_cons.mp h with h | h
        · exact Or.inr (by simp [h])
        · exact (ih h).imp_right (List.mem_cons_of_mem _)

theorem distinct_insert (name : String) {value : Json} {members : Members} (hmembers : DistinctMembers members)
    (hvalue : value.Distinct) : DistinctMembers (Members.insert name value members) := by
  obtain ⟨hnodup, hvalues⟩ := hmembers
  refine ⟨?_, ?_⟩
  · rw [Members.names_insert]
    split
    · exact hnodup
    · rename_i hname
      rw [List.nodup_append]
      refine ⟨hnodup, List.nodup_singleton name, ?_⟩
      rintro a ha b hb rfl
      exact hname (List.mem_singleton.mp hb ▸ ha)
  · intro m hm
    rcases mem_insert hm with rfl | hm
    · exact hvalue
    · exact hvalues m hm

theorem distinct_of_readKeyword {letters : List Char} {value v : Json} {source rest : Source}
    (hvalue : value.isLeaf = true) (h : readKeyword letters value source = .ok (v, rest)) : v.Distinct := by
  obtain ⟨_, -, h⟩ := (map_eq_ok_iff _ _ _).mp h
  cases h
  exact distinct_leaf hvalue

/-- What is read with so many steps: values without repeated names, if there are none in what was read before. -/
structure DistinctReading (fuel : Nat) : Prop where
  value : ∀ levels source v rest, readValue fuel levels source = .ok (v, rest) → v.Distinct
  list : ∀ levels source vs rest, readList fuel levels source = .ok (vs, rest) → ∀ v ∈ vs, v.Distinct
  items : ∀ levels index before source vs rest, (∀ v ∈ before, v.Distinct) →
    readItems fuel levels index before source = .ok (vs, rest) → ∀ v ∈ vs, v.Distinct
  object : ∀ levels source members rest, readObject fuel levels source = .ok (members, rest) →
    DistinctMembers members
  members : ∀ levels before source members rest, DistinctMembers before →
    readMembers fuel levels before source = .ok (members, rest) → DistinctMembers members

section Steps

variable {fuel : Nat} (ih : DistinctReading fuel)
include ih

theorem distinct_value_step (levels : Nat) (source : Source) (v : Json) (rest : Source)
    (h : readValue (fuel + 1) levels source = .ok (v, rest)) : v.Distinct := by
  rw [readValue] at h
  split at h
  · cases h
  · cases h
  · split at h
    · exact distinct_of_readKeyword rfl h
    split at h
    · exact distinct_of_readKeyword rfl h
    split at h
    · exact distinct_of_readKeyword rfl h
    split at h
    · obtain ⟨_, -, h⟩ := (map_eq_ok_iff _ _ _).mp h
      cases h
      exact distinct_leaf rfl
    split at h
    · obtain ⟨_, -, h⟩ := (map_eq_ok_iff _ _ _).mp h
      cases h
      exact distinct_leaf rfl
    split at h
    · split at h
      · cases h
      · obtain ⟨⟨items, _⟩, hitems, h⟩ := (map_eq_ok_iff _ _ _).mp h
        cases h
        exact (distinct_array items).mpr (ih.list _ _ _ _ hitems)
    split at h
    · split at h
      · cases h
      · obtain ⟨⟨members, _⟩, hmembers, h⟩ := (map_eq_ok_iff _ _ _).mp h
        cases h
        exact (distinct_object members).mpr (ih.object _ _ _ _ hmembers)
    cases h

theorem distinct_list_step (levels : Nat) (source : Source) (vs : List Json) (rest : Source)
    (h : readList (fuel + 1) levels source = .ok (vs, rest)) : ∀ v ∈ vs, v.Distinct := by
  rw [readList] at h
  split at h
  · cases h
  · split at h
    · cases h
      simp
    · exact ih.items _ _ _ _ _ _ (by simp) h

theorem distinct_items_step (levels index : Nat) (before : List Json) (source : Source) (vs : List Json)
    (rest : Source) (hbefore : ∀ v ∈ before, v.Distinct)
    (h : readItems (fuel + 1) levels index before source = .ok (vs, rest)) : ∀ v ∈ vs, v.Distinct := by
  rw [readItems] at h
  split at h
  · cases h
  · rename_i v _ hv
    have hitems : ∀ w ∈ v :: before, w.Distinct :=
      List.forall_mem_cons.mpr ⟨ih.value _ _ _ _ hv, hbefore⟩
    split at h
    · cases h
    · cases h
      intro w hw
      exact hitems w (List.mem_reverse.mp hw)
    · exact ih.items _ _ _ _ _ _ hitems h

theorem distinct_object_step (levels : Nat) (source : Source) (members : Members) (rest : Source)
    (h : readObject (fuel + 1) levels source = .ok (members, rest)) : DistinctMembers members := by
  have hnil : DistinctMembers [] := ⟨List.nodup_nil, by simp⟩
  rw [readObject] at h
  split at h
  · cases h
  · cases h
    exact hnil
  · exact ih.members _ _ _ _ _ hnil h

theorem distinct_members_step (levels : Nat) (before : Members) (source : Source) (members : Members)
    (rest : Source) (hbefore : DistinctMembers before)
    (h : readMembers (fuel + 1) levels before source = .ok (members, rest)) : DistinctMembers members := by
  rw [readMembers] at h
  split at h
  · cases h
  · split at h
    · cases h
    · split at h
      · cases h
      · rename_i v _ hv
        have hinsert := fun name => distinct_insert name hbefore (ih.value _ _ _ _ hv)
        simp only at h
        split at h
        · cases h
        · cases h
          exact hinsert _
        · exact ih.members _ _ _ _ _ (hinsert _) h

end Steps

theorem distinctReading (fuel : Nat) : DistinctReading fuel := by
  induction fuel with
  | zero =>
      constructor
      · intro levels source v rest h
        simp [readValue] at h
      · intro levels source vs rest h
        simp [readList] at h
      · intro levels index before source vs rest _ h
        simp [readItems] at h
      · intro levels source members rest h
        simp [readObject] at h
      · intro levels before source members rest _ h
        simp [readMembers] at h
  | succ fuel ih =>
      exact ⟨distinct_value_step ih, distinct_list_step ih, distinct_items_step ih, distinct_object_step ih,
        distinct_members_step ih⟩

theorem distinct_ofSource {source : Source} {v : Json} (h : ofSource source = .ok v) : v.Distinct := by
  rw [ofSource] at h
  split at h
  · rename_i value rest hread
    cases h
    exact (distinctReading _).value _ _ _ _ hread
  · cases h

/-- No object in a value that is read from text has two members of one name. -/
theorem distinct_ofText {text : String} {v : Json} (h : ofText text = .ok v) : v.Distinct :=
  distinct_ofSource h

/-- No object in a value that is read from bytes has two members of one name. -/
theorem distinct_ofBytes {bytes : List UInt8} {v : Json} (h : ofBytes bytes = .ok v) : v.Distinct :=
  distinct_ofSource h

end Json
end RecordSearch

import RecordSearch.Path
import RecordSearch.Proofs.Json.Parts

/-!
# Branches of a value

The children of a value stand under segments: the indices of items and the names of members.

* `branches`: the children in order, with their segments; `child?`: the child under a segment; `at?`: the part at a path.
* `mem_branches_iff`: where names are not repeated, both say the same.
* `Members.get?_perm`, `Members.get?_filter`: what is found under a name, in another order or among fewer members.
* `nested`: two arrays, or two objects.  Only these have segments in common.
* `Precedes`: the order in which a walk of the value, depth first, comes to two locations.
-/

namespace RecordSearch

theorem Members.get?_eq_some_iff_mem {α : Type} {members : List (String × α)} (hnodup : (Members.names members).Nodup)
    (name : String) (w : α) : Members.get? name members = some w ↔ (name, w) ∈ members := by
  refine ⟨Members.mem_of_get?, fun hmem => ?_⟩
  have hname : name ∈ Members.names members := List.mem_map.mpr ⟨_, hmem, rfl⟩
  obtain ⟨u, hu⟩ := Option.isSome_iff_exists.mp ((Members.has_iff name members).mpr hname)
  have heq := List.inj_on_of_nodup_map hnodup (Members.mem_of_get? hu) hmem rfl
  rw [hu, (Prod.mk.inj heq).2]

/-- Members of different names are found whatever their order. -/
theorem Members.get?_perm {α : Type} {members others : List (String × α)} (hnodup : (Members.names others).Nodup)
    (hperm : members.Perm others) (name : String) : Members.get? name members = Members.get? name others := by
  have hnames : (Members.names members).Nodup := (hperm.map _).nodup_iff.mpr hnodup
  refine Option.ext fun w => ?_
  rw [get?_eq_some_iff_mem hnames, get?_eq_some_iff_mem hnodup, hperm.mem_iff]

/-- A filter of names leaves what is found under the names that pass. -/
theorem Members.get?_filter {α : Type} {p : String → Bool} {name : String} (hname : p name = true)
    (members : List (String × α)) : Members.get? name (members.filter fun m => p m.1) = Members.get? name members := by
  induction members with
  | nil => rfl
  | cons m rest ih =>
      obtain ⟨n, w⟩ := m
      by_cases hn : n = name
      · subst hn
        simp [Members.get?_cons, hname]
      · cases hp : p n <;> simp [Members.get?_cons, hp, hn, ih]

namespace Json

/-- The children of a value under the segments that lead to them. -/
def branches : Json → List (Segment × Json)
  | .array items => items.zipIdx.map fun (v, i) => (.index i, v)
  | .object members => members.map fun (name, v) => (.key name, v)
  | _ => []

/-- The child of a value under a segment: names lead into objects only, and indices into arrays that are long enough. -/
def child? : Json → Segment → Option Json
  | .array items, .index i => items[i]?
  | .object members, .key name => Members.get? name members
  | _, _ => none

/-- The part of a value at a path. -/
def at? (v : Json) : Path → Option Json
  | [] => some v
  | s :: rest => (v.child? s).bind fun w => w.at? rest

/-- The first path parts from the second one at an earlier child of some part of the value. -/
inductive Precedes : Json → Path → Path → Prop
  | parted {v : Json} {s t : Segment} {p q : Path} (h : [s, t].Sublist (v.branches.map (·.1))) :
      Precedes v (s :: p) (t :: q)
  | within {v w : Json} {s : Segment} {p q : Path} (hw : (s, w) ∈ v.branches) (h : Precedes w p q) :
      Precedes v (s :: p) (s :: q)

theorem branches_array (items : List Json) :
    (Json.array items).branches = items.zipIdx.map fun (v, i) => (.index i, v) :=
  rfl

theorem branches_object (members : Members) :
    (Json.object members).branches = members.map fun (name, v) => (.key name, v) :=
  rfl

theorem branches_leaf {v : Json} (hv : v.isLeaf = true) : v.branches = [] := by
  cases v with
  | array items => cases hv
  | object members => cases hv
  | _ => rfl

theorem mem_branches_array (items : List Json) (s : Segment) (w : Json) :
    (s, w) ∈ (Json.array items).branches ↔ ∃ i, s = .index i ∧ items[i]? = some w := by
  simp only [branches_array, List.mem_map, Prod.exists, Prod.mk.injEq, List.mem_zipIdx_iff_getElem?]
  constructor
  · rintro ⟨v, i, hv, rfl, rfl⟩
    exact ⟨i, rfl, hv⟩
  · rintro ⟨i, rfl, hw⟩
    exact ⟨w, i, hw, rfl, rfl⟩

theorem mem_branches_object (members : Members) (s : Segment) (w : Json) :
    (s, w) ∈ (Json.object members).branches ↔ ∃ name, s = .key name ∧ (name, w) ∈ members := by
  simp only [branches_object, List.mem_map, Prod.exists, Prod.mk.injEq]
  constructor
  · rintro ⟨name, v, hv, rfl, rfl⟩
    exact ⟨name, rfl, hv⟩
  · rintro ⟨name, rfl, hw⟩
    exact ⟨name, w, hw, rfl, rfl⟩

theorem branches_array_fst (items : List Json) :
    (Json.array items).branches.map (·.1) = (List.range items.length).map Segment.index := by
  have hindices := congrArg (List.map Segment.index) (List.zipIdx_map_snd 0 items)
  rw [List.map_map] at hindices
  rw [List.range_eq_range', ← hindices, branches_array, List.map_map]
  rfl

theorem branches_object_fst (members : Members) :
    (Json.object members).branches.map (·.1) = (Members.names members).map Segment.key := by
  simp [branches_object, Members.names, Function.comp_def]

theorem child_of_mem_branches {v w : Json} {s : Segment} (h : (s, w) ∈ v.branches) : Child w v := by
  cases v with
  | array items =>
      obtain ⟨i, _, hw⟩ := (mem_branches_array items s w).mp h
      exact Child.item (List.mem_of_getElem? hw)
  | object members =>
      obtain ⟨name, _, hw⟩ := (mem_branches_object members s w).mp h
      exact Child.member hw
  | _ => cases h

theorem typed_of_branches {v : Json} (hv : v.isLeaf = false) (h : ∀ b ∈ v.branches, b.2.Typed) : v.Typed := by
  cases v with
  | array items =>
      refine (typed_array items).mpr fun w hw => ?_
      obtain ⟨i, hi⟩ := List.mem_iff_getElem?.mp hw
      exact h (.index i, w) ((mem_branches_array items _ w).mpr ⟨i, rfl, hi⟩)
  | object members =>
      refine (typed_object members).mpr fun m hm => ?_
      exact h (.key m.1, m.2) ((mem_branches_object members _ _).mpr ⟨m.1, rfl, hm⟩)
  | _ => cases hv

/-! ## Two arrays, or two objects -/

/-- Two arrays or two objects. -/
def nested : Json → Json → Bool
  | .array _, .array _ | .object _, .object _ => true
  | _, _ => false

theorem nested_self (v : Json) : nested v v = !v.isLeaf := by
  cases v <;> rfl

/-- Only in nested values a segment leads on in both. -/
theorem nested_of_child? {v w a b : Json} {s : Segment} (ha : v.child? s = some a) (hb : w.child? s = some b) :
    nested v w = true := by
  cases v with
  | array items =>
      cases s with
      | index i => cases w <;> first | rfl | cases hb
      | key name => cases ha
  | object members =>
      cases s with
      | index i => cases ha
      | key name => cases w <;> first | rfl | cases hb
  | _ => cases ha

section Distinct

variable {v w : Json} {s : Segment}

/-- The branches of a value are what its segments lead to. -/
theorem mem_branches_iff (hv : (v.branches.map (·.1)).Nodup) (s : Segment) (w : Json) :
    (s, w) ∈ v.branches ↔ v.child? s = some w := by
  cases v with
  | array items =>
      rw [mem_branches_array]
      cases s with
      | index i => simp [child?]
      | key name => simp [child?]
  | object members =>
      rw [mem_branches_object]
      cases s with
      | index i => simp [child?]
      | key name =>
          rw [branches_object_fst] at hv
          simp [child?, Members.get?_eq_some_iff_mem hv.of_map]
  | _ =>
      rw [branches_leaf rfl]
      cases s <;> simp [child?]

theorem nodup_branches (hv : v.Distinct) : (v.branches.map (·.1)).Nodup := by
  cases v with
  | array items =>
      rw [branches_array_fst]
      exact List.nodup_range.map fun _ _ h => Segment.index.inj h
  | object members =>
      rw [branches_object_fst]
      exact ((distinct_object members).mp hv).1.map fun _ _ h => Segment.key.inj h
  | _ => exact List.nodup_nil

theorem distinct_of_branches (hv : v.Distinct) (hw : (s, w) ∈ v.branches) : w.Distinct :=
  ((every_iff v).mp hv).2 w (child_of_mem_branches hw)

theorem typed_of_mem_branches (hv : v.Typed) (hw : (s, w) ∈ v.branches) : w.Typed :=
  ((every_iff v).mp hv).2 w (child_of_mem_branches hw)

/-- Precedence is strict. -/
theorem not_precedes_self {p : Path} (hv : v.Distinct) : ¬ Precedes v p p := by
  intro h
  induction p generalizing v with
  | nil =>
      cases h
  | cons s p ih =>
      cases h with
      | parted h =>
          have hne := List.nodup_iff_sublist.mp (nodup_branches hv) s
          exact hne h
      | within hw h =>
          exact ih (distinct_of_branches hv hw) h

end Distinct

end Json
end RecordSearch

import RecordSearch.Flat
import RecordSearch.Proofs.Json.Parts
import RecordSearch.Proofs.Traversal

/-!
# The leaves of a value

The flat view of a value is the total function `leaves` where all leaves are scalars.  A container contributes the
leaves of its children, each below its own segment; `gather` puts such groups together.

* `flatten_eq_ok_iff`: the flat view exists exactly if every leaf is a scalar, and is then `leaves`.
* `below_gather`: the leaves below a segment are again the group of that segment.
* `heads?_gather`, `headIndices?_gather`, `eraseDups_repeated`: the segments that a gathered list starts with, each
  once and in order, are those of its nonempty groups.
-/

namespace RecordSearch

namespace Flat

open Traversal

/-- Groups of leaves put together, each below its segment. -/
def gather (groups : List (Segment × Flat)) : Flat :=
  groups.flatMap fun (segment, flat) => under segment flat

theorem gather_cons (segment : Segment) (flat : Flat) (groups : List (Segment × Flat)) :
    gather ((segment, flat) :: groups) = under segment flat ++ gather groups :=
  List.flatMap_cons

theorem mem_under (segment : Segment) (flat : Flat) (path : Path) (scalar : Scalar) :
    (path, scalar) ∈ under segment flat ↔ ∃ rest, path = segment :: rest ∧ (rest, scalar) ∈ flat := by
  simp only [under, List.mem_map, Prod.exists, Prod.mk.injEq]
  constructor
  · rintro ⟨rest, s, hmem, rfl, rfl⟩
    exact ⟨rest, rfl, hmem⟩
  · rintro ⟨rest, rfl, hmem⟩
    exact ⟨rest, scalar, hmem, rfl, rfl⟩

theorem mem_gather (groups : List (Segment × Flat)) (path : Path) (scalar : Scalar) :
    (path, scalar) ∈ gather groups ↔
      ∃ segment rest flat, (segment, flat) ∈ groups ∧ path = segment :: rest ∧ (rest, scalar) ∈ flat := by
  simp only [gather, List.mem_flatMap, mem_under, Prod.exists]
  constructor
  · rintro ⟨segment, flat, hgroup, rest, hpath, hmem⟩
    exact ⟨segment, rest, flat, hgroup, hpath, hmem⟩
  · rintro ⟨segment, rest, flat, hgroup, hpath, hmem⟩
    exact ⟨segment, flat, hgroup, rest, hpath, hmem⟩

theorem gather_eq_nil_iff (groups : List (Segment × Flat)) :
    gather groups = [] ↔ ∀ group ∈ groups, group.2 = [] := by
  simp [gather, under]

section Below

theorem below_append (segment : Segment) (flat flat' : Flat) :
    below segment (flat ++ flat') = below segment flat ++ below segment flat' :=
  List.filterMap_append

theorem below_under_self (segment : Segment) (flat : Flat) :
    below segment (under segment flat) = flat := by
  simp [below, under, List.filterMap_map]

theorem below_under_of_ne {segment other : Segment} (h : other ≠ segment) (flat : Flat) :
    below segment (under other flat) = [] := by
  simp [below, under, h]

theorem below_gather_of_not_mem (segment : Segment) (groups : List (Segment × Flat))
    (h : segment ∉ groups.map (·.1)) :
    below segment (gather groups) = [] := by
  induction groups with
  | nil =>
      rfl
  | cons group groups ih =>
      obtain ⟨other, flat⟩ := group
      simp only [List.map_cons, List.mem_cons, not_or] at h
      rw [gather_cons, below_append, below_under_of_ne (Ne.symm h.1), ih h.2, List.append_nil]

/-- The leaves below the segment of a group are that group. -/
theorem below_gather {groups : List (Segment × Flat)} {segment : Segment} {flat : Flat}
    (hdistinct : (groups.map (·.1)).Nodup) (hmem : (segment, flat) ∈ groups) :
    below segment (gather groups) = flat := by
  induction groups with
  | nil =>
      cases hmem
  | cons group groups ih =>
      obtain ⟨other, first⟩ := group
      obtain ⟨hother, hrest⟩ := List.nodup_cons.mp hdistinct
      rw [gather_cons, below_append]
      rcases List.mem_cons.mp hmem with heq | hmem
      · obtain ⟨rfl, rfl⟩ := Prod.mk.inj heq
        rw [below_under_self, below_gather_of_not_mem segment groups hother, List.append_nil]
      · have hne : other ≠ segment := by
          rintro rfl
          exact hother (List.mem_map.mpr ⟨_, hmem, rfl⟩)
        rw [below_under_of_ne hne, List.nil_append, ih hrest hmem]

end Below

section Heads

/-- Every element as often as its number says. -/
def repeated {α : Type} (counted : List (α × Nat)) : List α :=
  counted.flatMap fun (a, n) => List.replicate n a

theorem repeated_cons {α : Type} (a : α) (n : Nat) (rest : List (α × Nat)) :
    repeated ((a, n) :: rest) = List.replicate n a ++ repeated rest :=
  List.flatMap_cons

theorem eraseDups_replicate {α : Type} [BEq α] [LawfulBEq α] (a : α) (n : Nat) :
    (List.replicate (n + 1) a).eraseDups = [a] := by
  rw [List.replicate_succ, List.eraseDups_cons, List.filter_replicate_of_neg (by simp)]
  rfl

theorem mem_repeated {α : Type} (counted : List (α × Nat)) (a : α) :
    a ∈ repeated counted ↔ ∃ n, (a, n) ∈ counted ∧ n ≠ 0 := by
  simp only [repeated, List.mem_flatMap, List.mem_replicate, Prod.exists]
  constructor
  · rintro ⟨b, n, hmem, hn, rfl⟩
    exact ⟨n, hmem, hn⟩
  · rintro ⟨n, hmem, hn⟩
    exact ⟨a, n, hmem, hn, rfl⟩

/-- Without repetition the elements that occur at all are left. -/
theorem eraseDups_repeated {α : Type} [BEq α] [LawfulBEq α] (counted : List (α × Nat))
    (hdistinct : (counted.map (·.1)).Nodup) :
    (repeated counted).eraseDups = (counted.filter fun c => c.2 != 0).map (·.1) := by
  induction counted with
  | nil =>
      rfl
  | cons c rest ih =>
      obtain ⟨a, n⟩ := c
      obtain ⟨hnotin, hrest⟩ := List.nodup_cons.mp hdistinct
      rw [repeated_cons]
      cases n with
      | zero =>
          simpa using ih hrest
      | succ n =>
          have hremove : (repeated rest).removeAll (List.replicate (n + 1) a) = repeated rest := by
            refine List.filter_eq_self.mpr fun b hb => ?_
            obtain ⟨k, hmem, _⟩ := (mem_repeated rest b).mp hb
            have hne : b ≠ a := by
              rintro rfl
              exact hnotin (List.mem_map.mpr ⟨_, hmem, rfl⟩)
            simp [hne]
          rw [List.eraseDups_append, eraseDups_replicate, hremove, ih hrest]
          simp

theorem forall₂_iff_of_iff {α β : Type} {r r' : α → β → Prop} (h : ∀ a b, r a b ↔ r' a b)
    (xs : List α) (ys : List β) : List.Forall₂ r xs ys ↔ List.Forall₂ r' xs ys :=
  ⟨List.Forall₂.imp fun a b => (h a b).mp, List.Forall₂.imp fun a b => (h a b).mpr⟩

/-- The names are those that the paths start with. -/
theorem heads?_eq_some_iff (flat : Flat) (names : List String) :
    heads? flat = some names ↔
      List.Forall₂ (fun leaf name => ∃ rest, leaf.1 = .key name :: rest) flat names := by
  rw [heads?, mapM_eq_some_iff]
  refine forall₂_iff_of_iff ?_ flat _
  rintro ⟨path, scalar⟩ name
  rcases path with _ | ⟨_ | _, rest⟩ <;> simp

/-- The indices are those that the paths start with. -/
theorem headIndices?_eq_some_iff (flat : Flat) (indices : List Nat) :
    headIndices? flat = some indices ↔
      List.Forall₂ (fun leaf i => ∃ rest, leaf.1 = .index i :: rest) flat indices := by
  rw [headIndices?, mapM_eq_some_iff]
  refine forall₂_iff_of_iff ?_ flat _
  rintro ⟨path, scalar⟩ i
  rcases path with _ | ⟨_ | _, rest⟩ <;> simp

/-- A gathered list starts with the segment of every group, as often as the group has leaves. -/
theorem forall₂_gather {α : Type} (segment : α → Segment) (groups : List (α × Flat)) :
    List.Forall₂ (fun leaf a => ∃ rest, leaf.1 = segment a :: rest)
      (gather (groups.map fun (a, flat) => (segment a, flat)))
      (repeated (groups.map fun (a, flat) => (a, flat.length))) := by
  induction groups with
  | nil =>
      exact List.Forall₂.nil
  | cons group groups ih =>
      obtain ⟨a, flat⟩ := group
      rw [List.map_cons, gather_cons, List.map_cons, repeated_cons]
      refine List.rel_append ?_ ih
      induction flat with
      | nil =>
          exact List.Forall₂.nil
      | cons leaf flat ih =>
          exact List.Forall₂.cons ⟨leaf.1, rfl⟩ ih

theorem heads?_gather (groups : List (String × Flat)) :
    heads? (gather (groups.map fun (name, flat) => (.key name, flat))) =
      some (repeated (groups.map fun (name, flat) => (name, flat.length))) :=
  (heads?_eq_some_iff _ _).mpr (forall₂_gather Segment.key groups)

theorem headIndices?_gather (groups : List (Nat × Flat)) :
    headIndices? (gather (groups.map fun (i, flat) => (.index i, flat))) =
      some (repeated (groups.map fun (i, flat) => (i, flat.length))) :=
  (headIndices?_eq_some_iff _ _).mpr (forall₂_gather Segment.index groups)

end Heads

section Expansion

variable (deeper : Path → Flat → Except Error Json) (place : Path)

/-- Leaves whose paths all start with some segment have no empty path among them. -/
theorem any_isEmpty_of_heads {α : Type} {segment : α → Segment} {flat : Flat} {heads : List α}
    (h : List.Forall₂ (fun leaf a => ∃ rest, leaf.1 = segment a :: rest) flat heads) :
    (flat.any fun (path, _) => path.isEmpty) = false := by
  induction h with
  | nil =>
      rfl
  | @cons leaf _ _ _ hleaf _ ih =>
      obtain ⟨path, scalar⟩ := leaf
      obtain ⟨rest, rfl⟩ := hleaf
      simpa using ih

/-- Below names: a member for every name, in order of first appearance. -/
theorem expandLevel_keyed {flat : Flat} {names : List String}
    (hne : flat ≠ []) (hheads : heads? flat = some names) :
    expandLevel deeper place flat = (do
      let members ← names.eraseDups.mapM fun name => do
        let value ← deeper (place ++ [.key name]) (below (.key name) flat)
        return (name, value)
      return .object members) := by
  have hforall := (heads?_eq_some_iff flat names).mp hheads
  have hany := any_isEmpty_of_heads hforall
  cases hforall with
  | nil => exact absurd rfl hne
  | @cons leaf _ rest _ hleaf _ =>
      obtain ⟨path, scalar⟩ := leaf
      obtain ⟨tail, rfl⟩ := hleaf
      simp only [expandLevel, hany, Bool.false_eq_true, if_false, expandKeyed, hheads]

theorem expandLevel_eq_expandIndexed {flat : Flat} {indices : List Nat}
    (hne : flat ≠ []) (hheads : headIndices? flat = some indices) :
    expandLevel deeper place flat = expandIndexed deeper place flat := by
  have hforall := (headIndices?_eq_some_iff flat indices).mp hheads
  have hany := any_isEmpty_of_heads hforall
  cases hforall with
  | nil => exact absurd rfl hne
  | @cons leaf _ rest _ hleaf _ =>
      obtain ⟨path, scalar⟩ := leaf
      obtain ⟨tail, rfl⟩ := hleaf
      simp only [expandLevel, hany, Bool.false_eq_true, if_false]

/-- Below indices one of which is missing there is no value. -/
theorem expandLevel_gap {flat : Flat} {indices : List Nat} {gap : Nat}
    (hne : flat ≠ []) (hheads : headIndices? flat = some indices)
    (hgap : firstGap? indices.eraseDups.length indices = some gap) :
    expandLevel deeper place flat = .error (.emptyFlat (place ++ [.index gap])) := by
  rw [expandLevel_eq_expandIndexed deeper place hne hheads]
  simp only [expandIndexed, hheads, hgap]

/-- Below indices none of which is missing: an item for every index. -/
theorem expandLevel_indexed {flat : Flat} {indices : List Nat}
    (hne : flat ≠ []) (hheads : headIndices? flat = some indices)
    (hgap : firstGap? indices.eraseDups.length indices = none) :
    expandLevel deeper place flat = (do
      let items ← (List.range indices.eraseDups.length).mapM fun i =>
        deeper (place ++ [.index i]) (below (.index i) flat)
      return .array items) := by
  rw [expandLevel_eq_expandIndexed deeper place hne hheads]
  simp only [expandIndexed, hheads, hgap]

/-- There is no gap exactly if every number below the bound occurs. -/
theorem firstGap?_eq_none_iff (n : Nat) (indices : List Nat) :
    firstGap? n indices = none ↔ ∀ i < n, i ∈ indices := by
  simp [firstGap?]

end Expansion

section Depth

/-- The depth bounds exactly the lengths of the paths. -/
theorem depth_le_iff (flat : Flat) (n : Nat) :
    flat.depth ≤ n ↔ ∀ leaf ∈ flat, leaf.1.length ≤ n := by
  have hfold (m : Nat) :
      flat.foldl (fun n leaf => max n leaf.1.length) m ≤ n ↔
        m ≤ n ∧ ∀ leaf ∈ flat, leaf.1.length ≤ n := by
    induction flat generalizing m with
    | nil =>
        simp
    | cons leaf rest ih =>
        rw [List.foldl_cons, ih, Nat.max_le, List.forall_mem_cons, and_assoc]
  exact (hfold 0).trans (and_iff_right (Nat.zero_le n))

/-- A gathered list is one deeper than its groups. -/
theorem depth_gather_le_iff (groups : List (Segment × Flat)) (n : Nat) :
    depth (gather groups) ≤ n + 1 ↔ ∀ group ∈ groups, depth group.2 ≤ n := by
  simp only [depth_le_iff]
  constructor
  · rintro h ⟨segment, flat⟩ hgroup ⟨rest, scalar⟩ hmem
    have hlength := h (segment :: rest, scalar) ((mem_gather _ _ _).mpr ⟨segment, rest, flat, hgroup, rfl, hmem⟩)
    simpa using hlength
  · rintro h ⟨path, scalar⟩ hmem
    obtain ⟨segment, rest, flat, hgroup, rfl, hrest⟩ := (mem_gather _ _ _).mp hmem
    have hlength := h (segment, flat) hgroup (rest, scalar) hrest
    simpa using hlength

/-- A gathered list that is not empty has a positive depth. -/
theorem depth_gather_pos {groups : List (Segment × Flat)} (hne : gather groups ≠ []) :
    0 < depth (gather groups) := by
  obtain ⟨⟨path, scalar⟩, hmem⟩ := List.exists_mem_of_ne_nil _ hne
  obtain ⟨segment, rest, flat, _, rfl, _⟩ := (mem_gather _ _ _).mp hmem
  have hlength := (depth_le_iff (gather groups) _).mp (Nat.le_refl _) _ hmem
  simp only [List.length_cons] at hlength
  omega

end Depth

end Flat

namespace Json

open Traversal

mutual

/-- The scalars among the leaves of a value with their paths, depth first. -/
def leaves : Json → Flat
  | .array items => leavesOfItems 0 items
  | .object members => leavesOfMembers members
  | leaf => ((Scalar.ofJson? leaf).map fun scalar => ([], scalar)).toList

/-- The leaves of items, the first of which has the given index. -/
def leavesOfItems (index : Nat) : List Json → Flat
  | [] => []
  | v :: rest => Flat.under (.index index) (leaves v) ++ leavesOfItems (index + 1) rest

/-- The leaves of members. -/
def leavesOfMembers : List (String × Json) → Flat
  | [] => []
  | (name, v) :: rest => Flat.under (.key name) (leaves v) ++ leavesOfMembers rest

end

/-- The leaves of items by their indices. -/
def itemGroups (index : Nat) (items : List Json) : List (Nat × Flat) :=
  (items.zipIdx index).map fun (v, i) => (i, v.leaves)

/-- The leaves of members by their names. -/
def memberGroups (members : Members) : List (String × Flat) :=
  members.map fun (name, v) => (name, v.leaves)

theorem leavesOfItems_eq_gather (index : Nat) (items : List Json) :
    leavesOfItems index items =
      Flat.gather ((itemGroups index items).map fun (i, flat) => (.index i, flat)) := by
  induction items generalizing index with
  | nil =>
      rw [leavesOfItems]
      rfl
  | cons v rest ih =>
      rw [leavesOfItems, ih]
      simp [itemGroups, Flat.gather_cons]

theorem leavesOfMembers_eq_gather (members : Members) :
    leavesOfMembers members =
      Flat.gather ((memberGroups members).map fun (name, flat) => (.key name, flat)) := by
  induction members with
  | nil =>
      rw [leavesOfMembers]
      rfl
  | cons m rest ih =>
      obtain ⟨name, v⟩ := m
      rw [leavesOfMembers, ih]
      simp [memberGroups, Flat.gather_cons]

theorem leaves_array (items : List Json) :
    (Json.array items).leaves = Flat.gather ((itemGroups 0 items).map fun (i, flat) => (.index i, flat)) :=
  leavesOfItems_eq_gather 0 items

theorem leaves_object (members : Members) :
    (Json.object members).leaves = Flat.gather ((memberGroups members).map fun (name, flat) => (.key name, flat)) :=
  leavesOfMembers_eq_gather members

theorem leaves_leaf {v : Json} (hv : v.isLeaf = true) :
    v.leaves = ((Scalar.ofJson? v).map fun scalar => ([], scalar)).toList := by
  cases v with
  | array items => cases hv
  | object members => cases hv
  | _ => rfl

theorem leaves_scalar (scalar : Scalar) : scalar.toJson.leaves = [([], scalar)] := by
  simp [leaves_leaf (isLeaf_toJson scalar), Scalar.ofJson?, Except.toOption]

theorem leaves_of_untyped {v : Json} (hv : v.isLeaf = true) (h : ∀ s : Scalar, v ≠ s.toJson) :
    v.leaves = [] := by
  have hofJson : Scalar.ofJson? v = none := by
    cases hs : Scalar.ofJson v with
    | error e => simp [Scalar.ofJson?, hs, Except.toOption]
    | ok s => exact absurd ((Scalar.ofJson_eq_ok_iff v s).mp hs) (h s)
  simp [leaves_leaf hv, hofJson]

/-! ## The flat view is the list of leaves -/

theorem flatten_array (items : List Json) : (Json.array items).flatten = flattenItems 0 items := rfl

theorem flatten_object (members : Members) : (Json.object members).flatten = flattenMembers members := rfl

/-- The flat view of a leaf exists exactly if it is a scalar. -/
theorem flatten_leaf {v : Json} (hv : v.isLeaf = true) (flat : Flat) :
    v.flatten = .ok flat ↔ ∃ s : Scalar, v = s.toJson ∧ flat = [([], s)] := by
  have hflatten : v.flatten = (Scalar.ofJson v).map fun s => [([], s)] := by
    cases v with
    | array items => cases hv
    | object members => cases hv
    | _ => rfl
  rw [hflatten]
  simp only [← Scalar.ofJson_eq_ok_iff]
  cases Scalar.ofJson v with
  | error e => simp [Except.map]
  | ok s => simp [Except.map, eq_comm]

/-- The leaves of a first child and of the others, each known where they exist. -/
theorem flat_cons_iff {first others : Except TypeError Flat} {p q : Prop} {l m : Flat} (segment : Segment)
    (hfirst : ∀ flat, first = .ok flat ↔ p ∧ flat = l) (hothers : ∀ flat, others = .ok flat ↔ q ∧ flat = m)
    (flat : Flat) :
    (do return Flat.under segment (← first) ++ (← others)) = .ok flat ↔
      (p ∧ q) ∧ flat = Flat.under segment l ++ m := by
  rw [bind_eq_ok_iff]
  constructor
  · rintro ⟨a, ha, hrest⟩
    obtain ⟨b, hb, hflat⟩ := (bind_eq_ok_iff _ _ _).mp hrest
    obtain ⟨hp, rfl⟩ := (hfirst a).mp ha
    obtain ⟨hq, rfl⟩ := (hothers b).mp hb
    cases hflat
    exact ⟨⟨hp, hq⟩, rfl⟩
  · rintro ⟨⟨hp, hq⟩, rfl⟩
    refine ⟨l, (hfirst l).mpr ⟨hp, rfl⟩, ?_⟩
    rw [(hothers m).mpr ⟨hq, rfl⟩]
    rfl

theorem flattenItems_eq_ok_iff (items : List Json)
    (h : ∀ v ∈ items, ∀ flat, v.flatten = .ok flat ↔ v.Typed ∧ flat = v.leaves) (index : Nat) (flat : Flat) :
    flattenItems index items = .ok flat ↔
      (∀ v ∈ items, v.Typed) ∧ flat = leavesOfItems index items := by
  induction items generalizing index flat with
  | nil =>
      simp [flattenItems, leavesOfItems, eq_comm]
  | cons v rest ih =>
      obtain ⟨hv, hrest⟩ := List.forall_mem_cons.mp h
      rw [flattenItems, List.forall_mem_cons, leavesOfItems]
      exact flat_cons_iff (.index index) hv (ih hrest (index + 1)) flat

theorem flattenMembers_eq_ok_iff (members : Members)
    (h : ∀ m ∈ members, ∀ flat, m.2.flatten = .ok flat ↔ m.2.Typed ∧ flat = m.2.leaves) (flat : Flat) :
    flattenMembers members = .ok flat ↔
      (∀ m ∈ members, m.2.Typed) ∧ flat = leavesOfMembers members := by
  induction members generalizing flat with
  | nil =>
      simp [flattenMembers, leavesOfMembers, eq_comm]
  | cons m rest ih =>
      obtain ⟨name, v⟩ := m
      obtain ⟨hv, hrest⟩ := List.forall_mem_cons.mp h
      rw [flattenMembers, List.forall_mem_cons, leavesOfMembers]
      exact flat_cons_iff (.key name) hv (ih hrest) flat

/-- The flat view exists exactly if every leaf is a scalar, and lists the leaves. -/
theorem flatten_eq_ok_iff (v : Json) (flat : Flat) :
    v.flatten = .ok flat ↔ v.Typed ∧ flat = v.leaves := by
  induction v using induction_on_children generalizing flat with
  | leaf v hv =>
      rw [flatten_leaf hv, typed_leaf hv]
      constructor
      · rintro ⟨s, rfl, rfl⟩
        exact ⟨⟨s, rfl⟩, (leaves_scalar s).symm⟩
      · rintro ⟨⟨s, rfl⟩, rfl⟩
        exact ⟨s, rfl, leaves_scalar s⟩
  | array items ih =>
      rw [flatten_array, flattenItems_eq_ok_iff items ih, typed_array, leaves_array, leavesOfItems_eq_gather]
  | object members ih =>
      rw [flatten_object, flattenMembers_eq_ok_iff members ih, typed_object, leaves_object, leavesOfMembers_eq_gather]

/-! ## Values without a flat view -/

end Json
end RecordSearch

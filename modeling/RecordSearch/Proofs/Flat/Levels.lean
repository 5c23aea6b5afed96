import RecordSearch.Proofs.Flat.Leaves
import RecordSearch.Proofs.Json.Branches
import RecordSearch.Proofs.Repetition
import Mathlib.Data.List.Perm.Basic

/-!
# One level of an expansion

An expansion groups leaves by the first segments of their paths and builds a container from what the groups expand to.

**Groups.**  `Continues` says that some path leads on by a segment; `Branches` lists the segments that all paths start
with.  The groups below them are the whole list again, up to order (`perm_gather_of_branches`).

**Levels.**  `Grown` gives the values that one level can build, the values of the groups being given.

**Results.**
* `grown_of_expandLevel`: a level builds nothing else.
* `exists_expandLevel`: it builds something if the paths start uniformly and every group has a value.
-/

namespace RecordSearch

namespace Json

theorem leaves_eq_gather_branches {v : Json} (hv : v.isLeaf = false) :
    v.leaves = Flat.gather (v.branches.map fun (s, w) => (s, w.leaves)) := by
  cases v with
  | array items =>
      rw [leaves_array]
      simp [itemGroups, branches, Function.comp_def]
  | object members =>
      rw [leaves_object]
      simp [memberGroups, branches, Function.comp_def]
  | _ => cases hv

end Json

namespace Flat

open Traversal Repetition

/-- Some leaf lies beyond `place`, and `segment` is the next step to it. -/
def Continues (flat : Flat) (place : Path) (segment : Segment) : Prop :=
  ∃ leaf ∈ flat, place ++ [segment] <+: leaf.1

/-- The steps that follow a path are all names, or they are the indices below some number. -/
def Uniform (flat : Flat) (place : Path) : Prop :=
  (∀ segment, Continues flat place segment → ∃ name, segment = .key name) ∨
    ∃ n, ∀ segment, Continues flat place segment ↔ ∃ i < n, segment = .index i

section Below

theorem mem_below (segment : Segment) (flat : Flat) (rest : Path) (scalar : Scalar) :
    (rest, scalar) ∈ below segment flat ↔ (segment :: rest, scalar) ∈ flat := by
  simp only [below, List.mem_filterMap, Prod.exists]
  constructor
  · rintro ⟨path, s, hmem, h⟩
    cases path with
    | nil =>
        cases h
    | cons t path =>
        by_cases ht : t = segment
        · simp only [if_pos ht, Option.some.injEq, Prod.mk.injEq] at h
          obtain ⟨rfl, rfl⟩ := h
          exact ht ▸ hmem
        · simp [ht] at h
  · intro hmem
    exact ⟨segment :: rest, scalar, hmem, if_pos rfl⟩

theorem continues_nil_iff (flat : Flat) (segment : Segment) :
    Continues flat [] segment ↔ ∃ leaf ∈ flat, ∃ rest, leaf.1 = segment :: rest := by
  refine exists_congr fun leaf => and_congr_right fun _ => ?_
  rw [List.nil_append]
  constructor
  · rintro ⟨rest, h⟩
    exact ⟨rest, h.symm⟩
  · rintro ⟨rest, h⟩
    exact ⟨rest, h.symm⟩

theorem continues_below (flat : Flat) (segment : Segment) (place : Path) (next : Segment) :
    Continues (below segment flat) place next ↔ Continues flat (segment :: place) next := by
  constructor
  · rintro ⟨⟨rest, scalar⟩, hmem, h⟩
    refine ⟨(segment :: rest, scalar), (mem_below _ _ _ _).mp hmem, ?_⟩
    exact (List.prefix_cons_inj segment).mpr h
  · rintro ⟨⟨path, scalar⟩, hmem, h⟩
    cases path with
    | nil =>
        cases List.prefix_nil.mp h
    | cons t rest =>
        obtain ⟨rfl, hrest⟩ := List.cons_prefix_cons.mp h
        exact ⟨(rest, scalar), (mem_below _ _ _ _).mpr hmem, hrest⟩

theorem below_ne_nil_iff (flat : Flat) (segment : Segment) :
    below segment flat ≠ [] ↔ Continues flat [] segment := by
  rw [continues_nil_iff]
  constructor
  · intro h
    obtain ⟨⟨rest, scalar⟩, hmem⟩ := List.exists_mem_of_ne_nil _ h
    exact ⟨_, (mem_below _ _ _ _).mp hmem, rest, rfl⟩
  · rintro ⟨⟨_, scalar⟩, hmem, rest, rfl⟩
    exact List.ne_nil_of_mem ((mem_below _ _ _ _).mpr hmem)

theorem depth_below_le {flat : Flat} {n : Nat} (h : flat.depth ≤ n + 1) (segment : Segment) :
    (below segment flat).depth ≤ n := by
  rw [depth_le_iff] at h ⊢
  rintro ⟨rest, scalar⟩ hmem
  have hlength : (segment :: rest).length ≤ n + 1 := h _ ((mem_below _ _ _ _).mp hmem)
  exact Nat.le_of_succ_le_succ hlength

theorem not_continues_of_depth_zero {flat : Flat} (h : flat.depth ≤ 0) (segment : Segment) :
    ¬ Continues flat [] segment := by
  rw [continues_nil_iff]
  rintro ⟨leaf, hmem, rest, hleaf⟩
  have hlength := (depth_le_iff flat 0).mp h leaf hmem
  rw [hleaf, List.length_cons] at hlength
  omega

/-- Leaves that do not start with a segment do not matter below it. -/
theorem below_filter_of_ne {segment other : Segment} (h : other ≠ segment) (flat : Flat) :
    below other (flat.filter fun leaf => !(leaf.1.head? == some segment)) = below other flat := by
  rw [below, below, List.filterMap_filter]
  refine List.filterMap_congr ?_
  rintro ⟨path, scalar⟩ _
  cases path with
  | nil =>
      rfl
  | cons t rest =>
      by_cases ht : t = segment
      · subst ht
        simp [Ne.symm h]
      · simp [ht]

theorem under_below (segment : Segment) (flat : Flat) :
    under segment (below segment flat) = flat.filter fun leaf => leaf.1.head? == some segment := by
  induction flat with
  | nil =>
      rfl
  | cons leaf flat ih =>
      obtain ⟨path, scalar⟩ := leaf
      have hbelow : below segment ((path, scalar) :: flat) =
          below segment [(path, scalar)] ++ below segment flat := below_append segment [(path, scalar)] flat
      rw [hbelow, under, List.map_append, ← under, ← under, ih]
      cases path with
      | nil =>
          simp [below, under]
      | cons t rest =>
          by_cases ht : t = segment <;> simp [below, under, ht]

end Below

section Branches

/-- The segments, each once, that the paths start with; no path is empty. -/
structure Branches (flat : Flat) (segments : List Segment) : Prop where
  nonempty : flat ≠ []
  started : ∀ leaf ∈ flat, leaf.1 ≠ []
  nodup : segments.Nodup
  mem_iff : ∀ segment, segment ∈ segments ↔ Continues flat [] segment

theorem perm_gather_below (segments : List Segment) (flat : Flat) (hnodup : segments.Nodup)
    (hstart : ∀ leaf ∈ flat, ∃ s ∈ segments, leaf.1.head? = some s) :
    flat.Perm (gather (segments.map fun s => (s, below s flat))) := by
  induction segments generalizing flat with
  | nil =>
      have hnil : flat = [] := by
        refine List.eq_nil_iff_forall_not_mem.mpr fun leaf hleaf => ?_
        obtain ⟨_, hs, _⟩ := hstart leaf hleaf
        cases hs
      rw [hnil]
      rfl
  | cons s segments ih =>
      obtain ⟨hs, hnodup⟩ := List.nodup_cons.mp hnodup
      have hothers : ∀ leaf ∈ flat.filter fun leaf => !(leaf.1.head? == some s),
          ∃ t ∈ segments, leaf.1.head? = some t := by
        intro leaf hleaf
        obtain ⟨hmem, hne⟩ := List.mem_filter.mp hleaf
        obtain ⟨t, ht, hhead⟩ := hstart leaf hmem
        rcases List.mem_cons.mp ht with rfl | ht
        · simp [hhead] at hne
        · exact ⟨t, ht, hhead⟩
      have hsame : (segments.map fun t => (t, below t (flat.filter fun leaf => !(leaf.1.head? == some s)))) =
          segments.map fun t => (t, below t flat) := by
        refine List.map_congr_left fun t ht => ?_
        have hne : t ≠ s := by
          rintro rfl
          exact hs ht
        rw [below_filter_of_ne hne]
      rw [List.map_cons, gather_cons, under_below]
      have hperm := ih _ hnodup hothers
      rw [hsame] at hperm
      exact (List.filter_append_perm _ flat).symm.trans (hperm.append_left _)

/-- The groups of leaves make up the whole list. -/
theorem perm_gather_of_branches {flat : Flat} {segments : List Segment} (h : Branches flat segments) :
    flat.Perm (gather (segments.map fun s => (s, below s flat))) := by
  refine perm_gather_below segments flat h.nodup fun leaf hleaf => ?_
  obtain ⟨s, rest, hpath⟩ := List.exists_cons_of_ne_nil (h.started leaf hleaf)
  refine ⟨s, (h.mem_iff s).mpr ((continues_nil_iff flat s).mpr ⟨leaf, hleaf, rest, hpath⟩), ?_⟩
  rw [hpath, List.head?_cons]

variable {α : Type} {segment : α → Segment} {flat : Flat} {heads : List α}

theorem continues_iff_of_heads
    (h : List.Forall₂ (fun leaf a => ∃ rest, leaf.1 = segment a :: rest) flat heads) (s : Segment) :
    Continues flat [] s ↔ ∃ a ∈ heads, s = segment a := by
  rw [continues_nil_iff]
  induction h with
  | nil =>
      simp
  | @cons leaf a flat heads hleaf _ ih =>
      obtain ⟨rest, hleaf⟩ := hleaf
      have hfirst : (∃ rest, leaf.1 = s :: rest) ↔ s = segment a := by
        rw [hleaf]
        constructor
        · rintro ⟨_, h⟩
          exact (List.cons.inj h).1.symm
        · rintro rfl
          exact ⟨rest, rfl⟩
      simp only [List.mem_cons, or_and_right, exists_or, exists_eq_left, hfirst, ih]

theorem exists_heads (hstarted : ∀ leaf ∈ flat, leaf.1 ≠ [])
    (h : ∀ s, Continues flat [] s → ∃ a, s = segment a) :
    ∃ heads : List α, List.Forall₂ (fun leaf a => ∃ rest, leaf.1 = segment a :: rest) flat heads := by
  refine (exists_forall₂_iff _ flat).mpr fun leaf hleaf => ?_
  obtain ⟨s, rest, hpath⟩ := List.exists_cons_of_ne_nil (hstarted leaf hleaf)
  obtain ⟨a, rfl⟩ := h s ((continues_nil_iff flat s).mpr ⟨leaf, hleaf, rest, hpath⟩)
  exact ⟨a, rest, hpath⟩

/-- Paths start with the segments of their heads, without repetition. -/
theorem branches_of_heads {heads' : List α} (hinj : Function.Injective segment) (hne : flat ≠ [])
    (h : List.Forall₂ (fun leaf a => ∃ rest, leaf.1 = segment a :: rest) flat heads)
    (hnodup : heads'.Nodup) (hmem : ∀ a, a ∈ heads' ↔ a ∈ heads) :
    Branches flat (heads'.map segment) where
  nonempty := hne
  started := by
    intro leaf hleaf hnil
    have hany := any_isEmpty_of_heads h
    rw [List.any_eq_false] at hany
    exact hany leaf hleaf (by simp [hnil])
  nodup := hnodup.map hinj
  mem_iff := by
    intro s
    simp only [continues_iff_of_heads h, List.mem_map, hmem]
    exact exists_congr fun a => and_congr_right fun _ => eq_comm

end Branches

section Level

variable {deeper : Path → Flat → Except Error Json} {place : Path} {flat : Flat}

/-- A value that one level can build: a scalar that stands alone, or a container with a child for every group. -/
inductive Grown (deeper : Path → Flat → Except Error Json) (place : Path) (flat : Flat) : Json → Prop
  | scalar (s : Scalar) (hflat : flat = [([], s)]) : Grown deeper place flat s.toJson
  | container {v : Json} (hv : v.isLeaf = false) (hbranches : Branches flat (v.branches.map (·.1)))
      (hbuilt : ∀ b ∈ v.branches, deeper (place ++ [b.1]) (below b.1 flat) = .ok b.2) : Grown deeper place flat v

theorem grown_of_expandKeyed {v : Json} (hne : flat ≠ []) (h : expandKeyed deeper place flat = .ok v) :
    Grown deeper place flat v := by
  rw [expandKeyed] at h
  split at h
  · cases h
  · rename_i names hheads
    obtain ⟨members, hmembers, h⟩ := (bind_eq_ok_iff _ _ _).mp h
    cases h
    obtain ⟨hnames, hbuilt⟩ :=
      (mapM_pair_eq_ok_iff (fun name => deeper (place ++ [.key name]) (below (.key name) flat)) _ _).mp hmembers
    refine Grown.container rfl ?_ ?_
    · rw [Json.branches_object_fst, Members.names, hnames]
      exact branches_of_heads (fun a b hab => Segment.key.inj hab) hne ((heads?_eq_some_iff flat names).mp hheads)
        (nodup_eraseDups names) fun name => List.mem_eraseDups
    · rintro ⟨s, w⟩ hb
      obtain ⟨name, rfl, hw⟩ := (Json.mem_branches_object members s w).mp hb
      exact hbuilt (name, w) hw

theorem grown_of_expandIndexed {v : Json} (hne : flat ≠ []) (h : expandIndexed deeper place flat = .ok v) :
    Grown deeper place flat v := by
  rw [expandIndexed] at h
  split at h
  · cases h
  · rename_i indices hheads
    simp only at h
    split at h
    · cases h
    · rename_i hgap
      obtain ⟨items, hitems, h⟩ := (bind_eq_ok_iff _ _ _).mp h
      cases h
      obtain ⟨hlength, hbuilt⟩ := (mapM_range_eq_ok_iff _ _ _).mp hitems
      refine Grown.container rfl ?_ ?_
      · rw [Json.branches_array_fst, hlength]
        refine branches_of_heads (fun a b hab => Segment.index.inj hab) hne
          ((headIndices?_eq_some_iff flat indices).mp hheads) List.nodup_range fun i => ?_
        rw [List.mem_range, mem_iff_lt_of_covers ((firstGap?_eq_none_iff _ _).mp hgap)]
      · rintro ⟨s, w⟩ hb
        obtain ⟨i, rfl, hw⟩ := (Json.mem_branches_array items s w).mp hb
        exact hbuilt i w hw

theorem grown_of_expandLevel {v : Json} (h : expandLevel deeper place flat = .ok v) :
    Grown deeper place flat v := by
  unfold expandLevel at h
  split at h
  · rename_i hany
    split at h
    · rename_i path scalar
      obtain rfl : path = [] := by
        simpa using hany
      cases h
      exact Grown.scalar scalar rfl
    · cases h
  · split at h
    · cases h
    · exact grown_of_expandKeyed (by simp) h
    · rename_i hnil _
      exact grown_of_expandIndexed hnil h

theorem exists_expandLevel_keyed (hne : flat ≠ []) (hstarted : ∀ leaf ∈ flat, leaf.1 ≠ [])
    (hkeys : ∀ s, Continues flat [] s → ∃ name, s = .key name)
    (hdeeper : ∀ s, Continues flat [] s → ∃ w, deeper (place ++ [s]) (below s flat) = .ok w) :
    ∃ v, expandLevel deeper place flat = .ok v := by
  obtain ⟨names, hnames⟩ := exists_heads hstarted hkeys
  have hvalue : ∀ name ∈ names.eraseDups, ∃ w,
      deeper (place ++ [.key name]) (below (.key name) flat) = .ok w := by
    intro name hname
    exact hdeeper _ ((continues_iff_of_heads hnames _).mpr ⟨name, List.mem_eraseDups.mp hname, rfl⟩)
  obtain ⟨members, hmembers⟩ := (mapM_succeeds_iff (fun name => do
      let value ← deeper (place ++ [.key name]) (below (.key name) flat)
      return (name, value)) names.eraseDups).mpr fun name hname => by
    obtain ⟨w, hw⟩ := hvalue name hname
    exact ⟨(name, w), by rw [hw]; rfl⟩
  refine ⟨.object members, ?_⟩
  rw [expandLevel_keyed deeper place hne ((heads?_eq_some_iff flat names).mpr hnames), hmembers]
  rfl

theorem exists_expandLevel_indexed {n : Nat} (hne : flat ≠ []) (hstarted : ∀ leaf ∈ flat, leaf.1 ≠ [])
    (hindices : ∀ s, Continues flat [] s ↔ ∃ i < n, s = .index i)
    (hdeeper : ∀ s, Continues flat [] s → ∃ w, deeper (place ++ [s]) (below s flat) = .ok w) :
    ∃ v, expandLevel deeper place flat = .ok v := by
  have hindex : ∀ s, Continues flat [] s → ∃ i, s = .index i := by
    intro s hs
    obtain ⟨i, _, hi⟩ := (hindices s).mp hs
    exact ⟨i, hi⟩
  obtain ⟨indices, hheads⟩ := exists_heads hstarted hindex
  have hmem : ∀ i, i ∈ indices ↔ i < n := by
    intro i
    have hsame := (continues_iff_of_heads hheads (.index i)).symm.trans (hindices (.index i))
    simpa using hsame
  have hcount := length_eraseDups_of_mem_iff hmem
  obtain ⟨items, hitems⟩ := (mapM_succeeds_iff (fun i => deeper (place ++ [.index i]) (below (.index i) flat))
      (List.range n)).mpr fun i hi =>
    hdeeper _ ((hindices _).mpr ⟨i, List.mem_range.mp hi, rfl⟩)
  refine ⟨.array items, ?_⟩
  rw [expandLevel_indexed deeper place hne ((headIndices?_eq_some_iff flat indices).mpr hheads)
    ((firstGap?_eq_none_iff _ _).mpr fun i hi => (hmem i).mpr (hcount ▸ hi)), hcount, hitems]
  rfl

/-- A level builds something if no path is empty, the paths start uniformly, and every group has a value. -/
theorem exists_expandLevel (hne : flat ≠ []) (hstarted : ∀ leaf ∈ flat, leaf.1 ≠ []) (huniform : Uniform flat [])
    (hdeeper : ∀ s, Continues flat [] s → ∃ w, deeper (place ++ [s]) (below s flat) = .ok w) :
    ∃ v, expandLevel deeper place flat = .ok v := by
  rcases huniform with hkeys | ⟨n, hindices⟩
  · exact exists_expandLevel_keyed hne hstarted hkeys hdeeper
  · exact exists_expandLevel_indexed hne hstarted hindices hdeeper

end Level

end Flat
end RecordSearch

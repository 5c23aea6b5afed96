import RecordSearch.Proofs.Flat.Levels
import RecordSearch.Proofs.Flat.Stepwise
import RecordSearch.Proofs.Json.Alike

/-!
# Consistent leaf lists

Which lists of leaves are the leaves of a value, in whatever order they are given.

**Consistency.**  `Consistent` looks at the list as a whole: there is a leaf, no path leads on from another one, and the
steps that follow a path are all names, or exactly the indices below some number.  An expansion decides this level by
level (`consistent_iff_below`).

**Results.**
* `lists_of_expandWithin`: a value that is built has exactly the given leaves.
* `exists_expandWithin`: leaves that are consistent expand.
* `alike_of_expandWithin`: the order of the leaves decides the order of members only.
* `expand_consistent`: all of this for whole expansions, which also never look for the first element of an empty list.
-/

namespace RecordSearch

namespace Flat

open Traversal Repetition

/-- Neither path leads on from the other one. -/
def Apart (a b : Path × Scalar) : Prop :=
  ¬ a.1 <+: b.1 ∧ ¬ b.1 <+: a.1

/-- The leaves are those of some value. -/
structure Consistent (flat : Flat) : Prop where
  nonempty : flat ≠ []
  apart : flat.Pairwise Apart
  uniform : ∀ leaf ∈ flat, ∀ place, place <+: leaf.1 → place ≠ leaf.1 → Uniform flat place

section Consistent

variable {flat other : Flat}

theorem continues_of_strict_prefix {leaf : Path × Scalar} (hleaf : leaf ∈ flat) {place : Path}
    (hstart : place <+: leaf.1) (hne : place ≠ leaf.1) : ∃ s, Continues flat place s := by
  obtain ⟨rest, hrest⟩ := hstart
  cases rest with
  | nil =>
      exact absurd (by simpa using hrest) hne
  | cons s rest =>
      exact ⟨s, leaf, hleaf, rest, by simpa using hrest⟩

theorem uniform_iff_of_continues :
    (∀ leaf ∈ flat, ∀ place, place <+: leaf.1 → place ≠ leaf.1 → Uniform flat place) ↔
      ∀ place s, Continues flat place s → Uniform flat place := by
  constructor
  · rintro h place s ⟨leaf, hleaf, hs⟩
    refine h leaf hleaf place ((List.prefix_append place [s]).trans hs) ?_
    rintro rfl
    have hlength := hs.length_le
    rw [List.length_append, List.length_singleton] at hlength
    omega
  · intro h leaf hleaf place hstart hne
    obtain ⟨s, hs⟩ := continues_of_strict_prefix hleaf hstart hne
    exact h place s hs

theorem uniform_below (s : Segment) (place : Path) :
    Uniform (below s flat) place ↔ Uniform flat (s :: place) := by
  simp only [Uniform, continues_below]

theorem apart_cons_iff (s : Segment) (p q : Path) (x y : Scalar) :
    Apart (s :: p, x) (s :: q, y) ↔ Apart (p, x) (q, y) := by
  simp [Apart]

theorem apart_of_ne {s t : Segment} (h : s ≠ t) (p q : Path) (x y : Scalar) : Apart (s :: p, x) (t :: q, y) := by
  refine ⟨fun hp => ?_, fun hp => ?_⟩
  · exact h (List.cons_prefix_cons.mp hp).1
  · exact h (List.cons_prefix_cons.mp hp).1.symm

theorem below_cons (s t : Segment) (rest : Path) (scalar : Scalar) (flat : Flat) :
    below s ((t :: rest, scalar) :: flat) = if t = s then (rest, scalar) :: below s flat else below s flat := by
  by_cases h : t = s <;> simp [below, h]

/-- Paths that start apart are apart, so that only the groups matter. -/
theorem apart_iff_below (hstarted : ∀ leaf ∈ flat, leaf.1 ≠ []) :
    flat.Pairwise Apart ↔ ∀ s, (below s flat).Pairwise Apart := by
  induction flat with
  | nil =>
      simp [below]
  | cons leaf flat ih =>
      obtain ⟨path, scalar⟩ := leaf
      obtain ⟨hpath, hothers⟩ := List.forall_mem_cons.mp hstarted
      obtain ⟨t, rest, rfl⟩ := List.exists_cons_of_ne_nil hpath
      have hfirst : (∀ b ∈ flat, Apart (t :: rest, scalar) b) ↔ ∀ b ∈ below t flat, Apart (rest, scalar) b := by
        constructor
        · rintro h ⟨path, x⟩ hmem
          exact (apart_cons_iff t rest path scalar x).mp (h _ ((mem_below _ _ _ _).mp hmem))
        · rintro h ⟨path, x⟩ hmem
          obtain ⟨u, tail, rfl⟩ := List.exists_cons_of_ne_nil (hothers _ hmem)
          by_cases hut : t = u
          · subst hut
            exact (apart_cons_iff t rest tail scalar x).mpr (h _ ((mem_below _ _ _ _).mpr hmem))
          · exact apart_of_ne hut rest tail scalar x
      rw [List.pairwise_cons, ih hothers, hfirst]
      constructor
      · rintro ⟨hgroup, hall⟩ s
        rw [below_cons]
        split
        · rename_i hts
          subst hts
          exact List.pairwise_cons.mpr ⟨hgroup, hall t⟩
        · exact hall s
      · intro h
        have ht := h t
        rw [below_cons, if_pos rfl, List.pairwise_cons] at ht
        refine ⟨ht.1, fun s => ?_⟩
        by_cases hts : t = s
        · exact hts ▸ ht.2
        · simpa only [below_cons, if_neg hts] using h s

/-- Leaves without an empty path are consistent if they start uniformly and the groups are consistent. -/
theorem consistent_iff_below (hne : flat ≠ []) (hstarted : ∀ leaf ∈ flat, leaf.1 ≠ []) :
    flat.Consistent ↔ Uniform flat [] ∧ ∀ s, Continues flat [] s → (below s flat).Consistent := by
  constructor
  · rintro ⟨_, hapart, huniform⟩
    have hplaces := uniform_iff_of_continues.mp huniform
    refine ⟨?_, fun s hs => ⟨(below_ne_nil_iff flat s).mpr hs, (apart_iff_below hstarted).mp hapart s, ?_⟩⟩
    · obtain ⟨leaf, hleaf⟩ := List.exists_mem_of_ne_nil flat hne
      obtain ⟨s, hs⟩ := continues_of_strict_prefix hleaf List.nil_prefix (hstarted leaf hleaf).symm
      exact hplaces [] s hs
    · refine uniform_iff_of_continues.mpr fun place t ht => ?_
      rw [uniform_below]
      exact hplaces (s :: place) t ((continues_below flat s place t).mp ht)
  · rintro ⟨huniform, hgroups⟩
    refine ⟨hne, (apart_iff_below hstarted).mpr fun s => ?_, uniform_iff_of_continues.mpr ?_⟩
    · by_cases hs : Continues flat [] s
      · exact (hgroups s hs).apart
      · rw [← below_ne_nil_iff, not_not] at hs
        rw [hs]
        exact List.Pairwise.nil
    · intro place t ht
      cases place with
      | nil =>
          exact huniform
      | cons s place =>
          rw [← continues_below] at ht
          have hs : Continues flat [] s := by
            rw [← below_ne_nil_iff]
            obtain ⟨leaf, hleaf, _⟩ := ht
            exact List.ne_nil_of_mem hleaf
          rw [← uniform_below]
          exact uniform_iff_of_continues.mp (hgroups s hs).uniform place t ht

theorem consistent_singleton (s : Scalar) : Consistent [([], s)] where
  nonempty := by simp
  apart := List.pairwise_singleton ..
  uniform := by
    intro leaf hleaf place hstart hne
    obtain rfl := List.mem_singleton.mp hleaf
    exact absurd (List.prefix_nil.mp hstart) hne

/-- Beside an empty path there is no other one. -/
theorem eq_singleton_of_consistent (h : flat.Consistent) {s : Scalar} (hmem : ([], s) ∈ flat) : flat = [([], s)] := by
  have hapart := h.apart
  cases flat with
  | nil =>
      cases hmem
  | cons leaf rest =>
      obtain ⟨hfirst, _⟩ := List.pairwise_cons.mp hapart
      rcases List.mem_cons.mp hmem with rfl | hmem
      · have hnil : rest = [] := List.eq_nil_iff_forall_not_mem.mpr fun b hb => (hfirst b hb).1 List.nil_prefix
        rw [hnil]
      · exact absurd List.nil_prefix (hfirst _ hmem).2

theorem continues_perm (hperm : flat.Perm other) (place : Path) (s : Segment) :
    Continues flat place s ↔ Continues other place s := by
  simp only [Continues, hperm.mem_iff]

theorem consistent_perm (hperm : flat.Perm other) : flat.Consistent ↔ other.Consistent := by
  have himp {a b : Flat} (hab : a.Perm b) (h : a.Consistent) : b.Consistent := by
    refine ⟨fun hnil => h.nonempty (List.Perm.eq_nil (hnil ▸ hab)), hab.pairwise h.apart fun hxy => hxy.symm, ?_⟩
    intro leaf hleaf place hstart hne
    have huniform := h.uniform leaf (hab.mem_iff.mpr hleaf) place hstart hne
    simpa only [Uniform, continues_perm hab] using huniform
  exact ⟨himp hperm, himp hperm.symm⟩

end Consistent

/-! ## Expansion -/

section Expansion

/-- The leaves are consistent, and they are those of the value. -/
structure Lists (flat : Flat) (v : Json) : Prop where
  consistent : flat.Consistent
  typed : v.Typed
  perm : v.leaves.Perm flat

variable {deeper : Path → Flat → Except Error Json} {place : Path} {flat : Flat}

theorem uniform_of_branches {v : Json} (hv : v.isLeaf = false) (h : Branches flat (v.branches.map (·.1))) :
    Uniform flat [] := by
  cases v with
  | array items =>
      refine Or.inr ⟨items.length, fun s => ?_⟩
      rw [← h.mem_iff, Json.branches_array_fst]
      simp [eq_comm]
  | object members =>
      refine Or.inl fun s hs => ?_
      rw [← h.mem_iff, Json.branches_object_fst] at hs
      obtain ⟨name, _, hname⟩ := List.mem_map.mp hs
      exact ⟨name, hname.symm⟩
  | _ => cases hv

/-- A level lists its value if the groups list theirs. -/
theorem lists_of_grown {v : Json} (hgrown : Grown deeper place flat v)
    (hdeeper : ∀ s, Continues flat [] s → ∀ place w, deeper place (below s flat) = .ok w → Lists (below s flat) w) :
    Lists flat v := by
  cases hgrown with
  | scalar s hflat =>
      subst hflat
      refine ⟨consistent_singleton s, (Json.typed_leaf (Json.isLeaf_toJson s)).mpr ⟨s, rfl⟩, ?_⟩
      rw [Json.leaves_scalar]
  | container hv hbranches hbuilt =>
      have hlists : ∀ b ∈ v.branches, Lists (below b.1 flat) b.2 := by
        intro b hb
        exact hdeeper b.1 ((hbranches.mem_iff b.1).mp (List.mem_map.mpr ⟨b, hb, rfl⟩)) _ _ (hbuilt b hb)
      refine ⟨?_, Json.typed_of_branches hv fun b hb => (hlists b hb).typed, ?_⟩
      · refine (consistent_iff_below hbranches.nonempty hbranches.started).mpr ⟨uniform_of_branches hv hbranches, ?_⟩
        intro s hs
        obtain ⟨b, hb, rfl⟩ := List.mem_map.mp ((hbranches.mem_iff s).mpr hs)
        exact (hlists b hb).consistent
      · have hgroups : (gather (v.branches.map fun b => (b.1, b.2.leaves))).Perm
            (gather (v.branches.map fun b => (b.1, below b.1 flat))) := by
          simp only [gather, List.flatMap_map]
          exact List.Perm.flatMap_left _ fun b hb => (hlists b hb).perm.map _
        have hall := (perm_gather_of_branches hbranches).symm
        rw [List.map_map] at hall
        rw [Json.leaves_eq_gather_branches hv]
        exact hgroups.trans hall

/-- A value that is built has exactly the given leaves. -/
theorem lists_of_expandWithin {depth : Nat} {v : Json} (hdepth : flat.depth ≤ depth)
    (h : expandWithin depth place flat = .ok v) : Lists flat v := by
  induction depth generalizing place flat v with
  | zero =>
      refine lists_of_grown (grown_of_expandLevel h) fun s hs => ?_
      exact absurd hs (not_continues_of_depth_zero hdepth s)
  | succ depth ih =>
      exact lists_of_grown (grown_of_expandLevel h) fun s _ _ _ hw => ih (depth_below_le hdepth s) hw

/-- Consistent leaves expand if the groups do. -/
theorem exists_expandLevel_of_consistent (h : flat.Consistent)
    (hdeeper : ∀ s, Continues flat [] s → (below s flat).Consistent →
      ∃ w, deeper (place ++ [s]) (below s flat) = .ok w) :
    ∃ v, expandLevel deeper place flat = .ok v := by
  by_cases hempty : ∃ s, ([], s) ∈ flat
  · obtain ⟨s, hmem⟩ := hempty
    rw [eq_singleton_of_consistent h hmem]
    exact ⟨s.toJson, rfl⟩
  · have hstarted : ∀ leaf ∈ flat, leaf.1 ≠ [] := by
      rintro ⟨_, s⟩ hmem rfl
      exact hempty ⟨s, hmem⟩
    obtain ⟨huniform, hgroups⟩ := (consistent_iff_below h.nonempty hstarted).mp h
    exact exists_expandLevel h.nonempty hstarted huniform fun s hs => hdeeper s hs (hgroups s hs)

theorem exists_expandWithin {depth : Nat} (hdepth : flat.depth ≤ depth) (h : flat.Consistent) (place : Path) :
    ∃ v, expandWithin depth place flat = .ok v := by
  induction depth generalizing place flat with
  | zero =>
      refine exists_expandLevel_of_consistent h fun s hs => ?_
      exact absurd hs (not_continues_of_depth_zero hdepth s)
  | succ depth ih =>
      exact exists_expandLevel_of_consistent h fun s _ hs => ih (depth_below_le hdepth s) hs _

theorem expand_succeeds_iff (flat : Flat) : (∃ v, flat.expand = .ok v) ↔ flat.Consistent :=
  ⟨fun ⟨_, h⟩ => (lists_of_expandWithin (Nat.le_refl _) h).consistent,
    fun h => exists_expandWithin (Nat.le_refl _) h []⟩

end Expansion

/-! ## The order of the leaves -/

section Order

theorem alike_of_branches {v w : Json} (hne : v.branches ≠ [])
    (hvnodup : (v.branches.map (·.1)).Nodup) (hwnodup : (w.branches.map (·.1)).Nodup)
    (hsame : ∀ s, s ∈ v.branches.map (·.1) ↔ s ∈ w.branches.map (·.1))
    (halike : ∀ s a b, (s, a) ∈ v.branches → (s, b) ∈ w.branches → Json.Alike a b) : Json.Alike v w := by
  have hmem {u : Json} (hu : (u.branches.map (·.1)).Nodup) (s : Segment) :
      (u.child? s).isSome = true ↔ s ∈ u.branches.map (·.1) := by
    rw [Option.isSome_iff_exists, List.mem_map]
    constructor
    · rintro ⟨a, ha⟩
      exact ⟨(s, a), (Json.mem_branches_iff hu s a).mpr ha, rfl⟩
    · rintro ⟨⟨_, a⟩, ha, rfl⟩
      exact ⟨a, (Json.mem_branches_iff hu _ a).mp ha⟩
  have hsome (s : Segment) : (v.child? s).isSome = (w.child? s).isSome := by
    rw [← Bool.coe_iff_coe, hmem hvnodup, hmem hwnodup, hsame]
  -- Two empty containers may differ in kind; with a branch in common, both are arrays or both are objects.
  obtain ⟨⟨s, a⟩, hfirst⟩ := List.exists_mem_of_ne_nil _ hne
  have ha := (Json.mem_branches_iff hvnodup s a).mp hfirst
  obtain ⟨b, hb⟩ := Option.isSome_iff_exists.mp ((hsome s).symm.trans (Option.isSome_iff_exists.mpr ⟨a, ha⟩))
  refine Json.alike_of_forall_child? (Json.nested_of_child? ha hb) hvnodup hwnodup hsome fun t c d hc hd => ?_
  exact halike t c d ((Json.mem_branches_iff hvnodup t c).mpr hc) ((Json.mem_branches_iff hwnodup t d).mpr hd)

variable {deeper : Path → Flat → Except Error Json} {place place' : Path} {flat other : Flat}

/-- A level gives alike values for the same leaves in two orders if the groups do. -/
theorem alike_of_grown {v w : Json} (hperm : flat.Perm other) (hv : Grown deeper place flat v)
    (hw : Grown deeper place' other w)
    (hdeeper : ∀ s, Continues flat [] s → ∀ p q a b, deeper p (below s flat) = .ok a →
      deeper q (below s other) = .ok b → Json.Alike a b) : Json.Alike v w := by
  cases hv with
  | scalar s hflat =>
      subst hflat
      cases hw with
      | scalar t hother =>
          subst hother
          obtain rfl : s = t := by
            simpa using hperm
          exact Json.Alike.leaf (Json.isLeaf_toJson s)
      | container _ hbranches _ =>
          exact absurd rfl (hbranches.started _ (hperm.mem_iff.mp (List.mem_singleton_self _)))
  | container hleaf hbranches hbuilt =>
      cases hw with
      | scalar t hother =>
          subst hother
          exact absurd rfl (hbranches.started _ (hperm.mem_iff.mpr (List.mem_singleton_self _)))
      | container hleaf' hbranches' hbuilt' =>
          have hne : v.branches ≠ [] := by
            intro hnil
            have hall := perm_gather_of_branches hbranches
            rw [hnil] at hall
            exact hbranches.nonempty hall.eq_nil
          refine alike_of_branches hne hbranches.nodup hbranches'.nodup ?_ ?_
          · intro s
            rw [hbranches.mem_iff, hbranches'.mem_iff, continues_perm hperm]
          · intro s a b ha hb
            have hs := (hbranches.mem_iff s).mp (List.mem_map.mpr ⟨_, ha, rfl⟩)
            exact hdeeper s hs _ _ a b (hbuilt _ ha) (hbuilt' _ hb)

theorem alike_of_expandWithin {depth : Nat} {v w : Json} (hdepth : flat.depth ≤ depth) (hperm : flat.Perm other)
    (hv : expandWithin depth place flat = .ok v) (hw : expandWithin depth place' other = .ok w) :
    Json.Alike v w := by
  induction depth generalizing place place' flat other v w with
  | zero =>
      refine alike_of_grown hperm (grown_of_expandLevel hv) (grown_of_expandLevel hw) fun s hs => ?_
      exact absurd hs (not_continues_of_depth_zero hdepth s)
  | succ depth ih =>
      refine alike_of_grown hperm (grown_of_expandLevel hv) (grown_of_expandLevel hw) fun s _ p q a b ha hb => ?_
      exact ih (depth_below_le hdepth s) (hperm.filterMap _) ha hb

theorem depth_perm (hperm : flat.Perm other) : flat.depth = other.depth := by
  refine Nat.le_antisymm ?_ ?_
  · rw [depth_le_iff]
    exact fun leaf hleaf => (depth_le_iff other _).mp (Nat.le_refl _) leaf (hperm.mem_iff.mp hleaf)
  · rw [depth_le_iff]
    exact fun leaf hleaf => (depth_le_iff flat _).mp (Nat.le_refl _) leaf (hperm.mem_iff.mpr hleaf)

end Order

/-- **Leaves expand exactly if they are consistent**, and then to a value with exactly these leaves; their order decides
at most the order of members.  No list of leaves makes the expansion take an element from an empty list. -/
theorem expand_consistent (flat : Flat) :
    ((∃ v, flat.expand = .ok v) ↔ flat.Consistent) ∧
    (∀ v, flat.expand = .ok v → ∃ listed, v.flatten = .ok listed ∧ listed.Perm flat) ∧
    (∀ other : Flat, flat.Perm other →
      ((∃ v, flat.expand = .ok v) ↔ ∃ w, other.expand = .ok w) ∧
      ∀ v w, flat.expand = .ok v → other.expand = .ok w → Json.Alike v w) ∧
    flat.expandInSteps = some flat.expand := by
  refine ⟨expand_succeeds_iff flat, ?_, ?_, expandInSteps_eq flat⟩
  · intro v h
    obtain ⟨_, htyped, hperm⟩ := lists_of_expandWithin (Nat.le_refl _) h
    exact ⟨v.leaves, (Json.flatten_eq_ok_iff v _).mpr ⟨htyped, rfl⟩, hperm⟩
  · intro other hperm
    refine ⟨?_, fun v w hv hw => ?_⟩
    · rw [expand_succeeds_iff, expand_succeeds_iff, consistent_perm hperm]
    · rw [expand, ← depth_perm hperm] at hw
      exact alike_of_expandWithin (Nat.le_refl _) hperm hv hw

/-- Leaves of a list and of an object in it, given out of order. -/
theorem expand_consistent_shuffled :
    let flat : Flat := [([.index 1, .key "b"], .int 2), ([.index 0], .str "x"), ([.index 1, .key "a"], .bool true)]
    let v : Json := .array [.string "x", .object [("b", .int 2), ("a", .bool true)]]
    let w : Json := .array [.string "x", .object [("a", .bool true), ("b", .int 2)]]
    flat.expand = .ok v ∧ expand flat.reverse = .ok w ∧ flat.Consistent ∧
      (∃ listed, v.flatten = .ok listed ∧ listed.Perm flat) ∧ Json.Alike v w := by
  intro flat v w
  have hv : flat.expand = .ok v := by
    rfl
  have hw : expand flat.reverse = .ok w := by
    rfl
  obtain ⟨hconsistent, hlisted, horder, _⟩ := expand_consistent flat
  exact ⟨hv, hw, hconsistent.mp ⟨v, hv⟩, hlisted v hv, (horder _ (List.reverse_perm flat).symm).2 v w hv hw⟩

end Flat
end RecordSearch

import RecordSearch.Proofs.Alignment.Report
import RecordSearch.Proofs.Flat.Levels
import RecordSearch.Proofs.Json.Alike

/-!
# Strict alignment decides equality

With both options strict, an alignment lets the right value have less than the left one, but not more: names that only
the left object has are passed over.  Aligned in both directions, nothing is passed over.

* `alike_iff_forall_shared`: values are alike exactly if every shared location matches.
* `compare_strict_alike`: the main result; aligned with itself, a value gives an entry for every one of its leaves.
-/

namespace RecordSearch
namespace Alignment

open Json

/-- Both options are strict. -/
def Options.strict : Options :=
  { strictKeys := true, strictTypes := true }

/-- The two values at a location pass in both directions, and are equal where the walk stops. -/
structure Matches (x y : Json) : Prop where
  there : Passes .strict x y
  back : Passes .strict y x
  equal : nested x y = false → x = y

section Alike

variable {left right x y : Json}

theorem alike_of_shared (h : Alike left right) {path : Path} (hxy : Shared left right path x y) : Alike x y := by
  induction path generalizing left right with
  | nil =>
      obtain ⟨rfl, rfl⟩ := shared_nil.mp hxy
      exact h
  | cons s path ih =>
      obtain ⟨hx, hy⟩ := hxy
      obtain ⟨v, hv, hx⟩ := Option.bind_eq_some_iff.mp hx
      obtain ⟨w, hw, hy⟩ := Option.bind_eq_some_iff.mp hy
      exact ih (alike_child? h hv hw) ⟨hx, hy⟩

theorem exists_of_typed (hx : x.Typed) : ∃ t, JsonType.of x = .ok t := by
  refine not_not.mp fun hnone => (typed_iff x).mp hx ?_
  exact ⟨x, Relation.ReflTransGen.refl, (JsonType.untypable_iff x).mpr hnone⟩

theorem passes_self (options : Options) (hx : x.Typed) : Passes options x x where
  left := exists_of_typed hx
  right := exists_of_typed hx
  types _ := rfl
  lengths := by
    rintro _ xs ys rfl hys
    cases hys
    rfl
  names := by
    rintro _ ms ns rfl hns
    cases hns
    exact fun name hname => hname

theorem matches_of_alike (h : Alike x y) (hx : x.Typed) : Matches x y := by
  cases h with
  | leaf hv =>
      exact ⟨passes_self _ hx, passes_self _ hx, fun _ => rfl⟩
  | @array xs ys hlength h =>
      refine ⟨(passes_array _ xs ys).mpr (by simp [hlength]), (passes_array _ ys xs).mpr (by simp [hlength]), nofun⟩
  | @object ms ns hnames h =>
      refine ⟨(passes_object _ ms ns).mpr ?_, (passes_object _ ns ms).mpr ?_, nofun⟩
      · simp [extraNames_eq_nil_iff, hnames.mem_iff]
      · simp [extraNames_eq_nil_iff, hnames.mem_iff]

theorem typed_of_shared (hl : left.Typed) (hld : left.Distinct) {path : Path} (hx : left.at? path = some x) :
    x.Typed := by
  induction path generalizing left with
  | nil =>
      cases hx
      exact hl
  | cons s path ih =>
      obtain ⟨v, hv, hx⟩ := Option.bind_eq_some_iff.mp hx
      have hbranch := (mem_branches_iff (nodup_branches hld) s v).mpr hv
      exact ih (typed_of_mem_branches hl hbranch) (distinct_of_branches hld hbranch) hx

theorem isSome_child?_of_matches (hnested : nested left right = true) (h : Matches left right) (s : Segment) :
    (left.child? s).isSome = (right.child? s).isSome := by
  rw [Bool.eq_iff_iff]
  cases left with
  | array xs =>
      cases right with
      | array ys =>
          have hlength := h.there.lengths rfl xs ys rfl rfl
          cases s with
          | index i => simp only [child?, isSome_getElem?, hlength]
          | key name => simp only [child?]
      | _ => cases hnested
  | object ms =>
      cases right with
      | object ns =>
          cases s with
          | index i => simp only [child?]
          | key name =>
              have hback := h.back.names rfl ns ms rfl rfl name
              have hthere := h.there.names rfl ms ns rfl rfl name
              rw [← Members.has_iff, ← Members.has_iff] at hback hthere
              exact ⟨hback, hthere⟩
      | _ => cases hnested
  | _ => cases hnested

/-- Values are alike if they match and what they share is alike. -/
theorem alike_of_matches (hl : left.Distinct) (hr : right.Distinct) (hmatches : Matches left right)
    (h : ∀ c ∈ pairs left right, Alike c.2.1 c.2.2) : Alike left right := by
  cases hnested : nested left right with
  | false =>
      have hequal := hmatches.equal hnested
      subst hequal
      rw [nested_self, Bool.not_eq_false'] at hnested
      exact Alike.leaf hnested
  | true =>
      refine alike_of_forall_child? hnested (nodup_branches hl) (nodup_branches hr)
        (isSome_child?_of_matches hnested hmatches) fun s v w hv hw => ?_
      exact h (s, v, w) ((mem_pairs_iff hr s v w).mpr ⟨hv, hw⟩)

/-- Values are alike exactly if what they have at every shared location matches. -/
theorem alike_iff_forall_shared (hl : left.Distinct) (hr : right.Distinct) (hlt : left.Typed) :
    Alike left right ↔ ∀ path x y, Shared left right path x y → Matches x y := by
  constructor
  · intro h path x y hxy
    exact matches_of_alike (alike_of_shared h hxy) (typed_of_shared hlt hl hxy.1)
  · intro h
    -- The types of leaves play no part here, and matching is all that is known of the children.
    clear hlt
    induction right using wellFounded_child.induction generalizing left with | _ right ih
    obtain ⟨hmatches, hchildren⟩ := (forall_shared_iff hr Matches).mp h
    refine alike_of_matches hl hr hmatches fun c hc => ?_
    obtain ⟨hw, hv⟩ := (mem_pairs c.1 c.2.1 c.2.2).mp hc
    have hleft := (mem_branches_iff (nodup_branches hl) c.1 c.2.1).mpr hv
    exact ih c.2.2 (child_of_mem_pairs hc) (distinct_of_branches hl hleft) (distinct_of_branches hr hw) (hchildren c hc)

end Alike

section Self

variable {v : Json}

theorem pairs_self (hv : v.Distinct) : pairs v v = v.branches.map fun (s, w) => (s, w, w) := by
  rw [pairs, ← List.filterMap_eq_map]
  refine List.filterMap_congr ?_
  rintro ⟨s, w⟩ hw
  simp [(mem_branches_iff (nodup_branches hv) s w).mp hw]

/-- A value meets itself at its leaves. -/
theorem meetings_self (hv : v.Distinct) (ht : v.Typed) :
    meetings v v = v.leaves.map fun leaf => (leaf.1, leaf.2.toJson, leaf.2.toJson) := by
  induction v using wellFounded_child.induction with | _ v ih
  cases hleaf : v.isLeaf with
  | true =>
      obtain ⟨s, rfl⟩ := (typed_leaf hleaf).mp ht
      rw [meetings_of_not_nested (by rw [nested_self, hleaf]; rfl), leaves_scalar]
      rfl
  | false =>
      rw [meetings_nested (by rw [nested_self, hleaf]; rfl), pairs_self hv, leaves_eq_gather_branches hleaf]
      simp only [Flat.gather, Flat.under, List.flatMap_map, List.map_flatMap, List.map_map, Function.comp_def]
      refine List.flatMap_congr ?_
      rintro ⟨s, w⟩ hw
      rw [ih w (child_of_mem_branches hw) (distinct_of_branches hv hw) (typed_of_mem_branches ht hw), List.map_map]
      rfl

end Self

section Compare

variable {left right : Json}

theorem entry_eq_common_iff {p : Path} {x y : Json} (hstop : nested x y = false) (hpasses : Passes .strict x y) :
    (∃ q v, entry (p, x, y) = .common q v v) ↔ x = y := by
  obtain ⟨⟨t, ht⟩, ⟨u, hu⟩, htypes, _, _⟩ := hpasses
  have htu : t = u := by
    simpa [ht, hu] using htypes rfl
  obtain ⟨rfl, rfl⟩ := (of_eq_iff_of_not_nested hstop ht hu).mp htu
  rw [entry, if_pos ⟨ht, hu⟩]
  constructor
  · rintro ⟨q, v, h⟩
    cases h
    rfl
  · rintro rfl
    exact ⟨p, x, rfl⟩

/-- A value without untyped leaves is alike to another one exactly if strict alignments in both directions succeed and
the first one finds equal scalars only.  Aligned with itself, it gives its leaves. -/
theorem compare_strict_alike (left right : Json) (hl : left.Distinct) (hr : right.Distinct) (hlt : left.Typed) :
    (Alike left right ↔ ∃ found back, compare .strict left right = .ok found ∧
      compare .strict right left = .ok back ∧ ∀ a ∈ found, ∃ path v, a = .common path v v) ∧
    ∃ flat, left.flatten = .ok flat ∧
      compare .strict left left = .ok (flat.map fun (path, s) => .common path s.toJson s.toJson) := by
  constructor
  · rw [alike_iff_forall_shared hl hr hlt]
    simp only [compare_eq_ok_iff .strict hr, compare_eq_ok_iff .strict hl]
    constructor
    · intro h
      refine ⟨_, _, ⟨fun p x y hxy => (h p x y hxy).there, rfl⟩,
        ⟨fun p x y hxy => (h p y x ((shared_comm p).mp hxy)).back, rfl⟩, ?_⟩
      intro a ha
      obtain ⟨⟨p, x, y⟩, hm, rfl⟩ := List.mem_map.mp ha
      obtain ⟨hshared, hstop⟩ := (mem_meetings hr p x y).mp hm
      have hxy := h p x y hshared
      exact (entry_eq_common_iff hstop hxy.there).mpr (hxy.equal hstop)
    · rintro ⟨found, back, ⟨hthere, rfl⟩, ⟨hback, _⟩, hcommon⟩ p x y hxy
      have hpasses := hthere p x y hxy
      refine ⟨hpasses, hback p y x ((shared_comm p).mp hxy), fun hstop => ?_⟩
      have hm := (mem_meetings hr p x y).mpr ⟨hxy, hstop⟩
      exact (entry_eq_common_iff hstop hpasses).mp (hcommon _ (List.mem_map_of_mem hm))
  · refine ⟨left.leaves, (flatten_eq_ok_iff left _).mpr ⟨hlt, rfl⟩, ?_⟩
    rw [compare_eq_ok_iff .strict hl, meetings_self hl hlt, List.map_map]
    refine ⟨?_, List.map_congr_left fun leaf _ => ?_⟩
    · rintro p x y ⟨hx, hy⟩
      obtain rfl : x = y := Option.some.inj (hx.symm.trans hy)
      exact passes_self _ (typed_of_shared hlt hl hx)
    · have hscalar := (JsonType.of_eq_scalar_iff leaf.2.toJson).mpr ⟨leaf.2, rfl⟩
      simp [entry, hscalar]

theorem compare_strict_alike_tags :
    let tags : Json := .array [.string "sf", .array []]
    let left : Json := .object [("pages", .int 412), ("tags", tags)]
    let right : Json := .object [("tags", tags), ("pages", .int 412)]
    left.Distinct ∧ right.Distinct ∧ left.Typed ∧ left ≠ right ∧ Alike left right ∧
      ∃ flat, left.flatten = .ok flat ∧
        compare .strict left left = .ok (flat.map fun (path, s) => .common path s.toJson s.toJson) := by
  intro tags left right
  have htags : tags.Distinct := by
    simp only [tags, distinct_array, List.forall_mem_cons]
    exact ⟨distinct_leaf rfl, by simp, by simp⟩
  have hl : left.Distinct := by
    simp only [left, distinct_object, List.forall_mem_cons]
    exact ⟨by decide, distinct_leaf rfl, htags, by simp⟩
  have hr : right.Distinct := by
    simp only [right, distinct_object, List.forall_mem_cons]
    exact ⟨by decide, htags, distinct_leaf rfl, by simp⟩
  have hlt : left.Typed := by
    simp only [left, tags, typed_object, typed_array, List.forall_mem_cons]
    exact ⟨(typed_leaf rfl).mpr ⟨.int 412, rfl⟩, ⟨(typed_leaf rfl).mpr ⟨.str "sf", rfl⟩, by simp, by simp⟩, by simp⟩
  obtain ⟨halike, hself⟩ := compare_strict_alike left right hl hr hlt
  refine ⟨hl, hr, hlt, by simp [left, right], ?_, hself⟩
  exact halike.mpr ⟨_, _, rfl, rfl, by simp⟩

end Compare

end Alignment
end RecordSearch

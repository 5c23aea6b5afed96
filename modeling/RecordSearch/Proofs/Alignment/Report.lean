import RecordSearch.Proofs.Alignment.Walk
import Mathlib.Data.List.Perm.Basic

/-!
# What an alignment reports

Without strict options, two values are aligned unless some shared location has a value without a type.  The result
tells of every shared location with scalars, or with different types, once, in the order of the right value.

* `Reported`: what is to be told; `Account`: a list tells it all, once and in order.
* `compare_reports_shared`: the main result.  It is symmetric but for the order: aligning the values the other way round
  exchanges the sides.
-/

namespace RecordSearch

namespace Alignment

open Json

/-- The location that an entry tells of. -/
def path : Alignment → Path
  | .common path _ _ | .differ path _ _ => path

/-- The entry with its sides exchanged. -/
def swap : Alignment → Alignment
  | .common path left right => .common path right left
  | .differ path left right => .differ path right left

/-- What there is to tell of two values: shared locations with scalars, and those with different types. -/
inductive Reported (left right : Json) : Alignment → Prop
  | common {p : Path} {x y : Json} (h : Shared left right p x y)
      (hx : ∃ s : Scalar, x = s.toJson) (hy : ∃ s : Scalar, y = s.toJson) : Reported left right (.common p x y)
  | differ {p : Path} {x y : Json} {t u : JsonType} (h : Shared left right p x y)
      (ht : JsonType.of x = .ok t) (hu : JsonType.of y = .ok u) (hne : t ≠ u) : Reported left right (.differ p x y)

/-- A list that tells everything there is to tell, once, and depth first in the order of the right value. -/
structure Account (left right : Json) (found : List Alignment) : Prop where
  reported : ∀ a, a ∈ found ↔ Reported left right a
  once : (found.map path).Nodup
  ordered : found.Pairwise fun a b => right.Precedes a.path b.path

@[simp] theorem swap_swap (a : Alignment) : a.swap.swap = a := by
  cases a <;> rfl

@[simp] theorem path_swap (a : Alignment) : a.swap.path = a.path := by
  cases a <;> rfl

theorem reported_swap_iff {left right : Json} (a : Alignment) :
    Reported right left a.swap ↔ Reported left right a := by
  have hswap {l r : Json} {a : Alignment} (h : Reported l r a) : Reported r l a.swap := by
    cases h with
    | common h hx hy => exact .common ((shared_comm _).mp h) hy hx
    | differ h ht hu hne => exact .differ ((shared_comm _).mp h) hu ht hne.symm
  constructor
  · intro h
    have hback := hswap h
    rwa [swap_swap] at hback
  · exact hswap

section Compare

variable {left right : Json}

/-- The entry for a location where the walk stops. -/
def entry (m : Path × Json × Json) : Alignment :=
  if JsonType.of m.2.1 = .ok .scalar ∧ JsonType.of m.2.2 = .ok .scalar then
    .common m.1 m.2.1 m.2.2
  else
    .differ m.1 m.2.1 m.2.2

@[simp] theorem path_entry (m : Path × Json × Json) : (entry m).path = m.1 := by
  unfold entry
  split <;> rfl

theorem compare_eq_ok_iff (options : Options) (hr : right.Distinct) (found : List Alignment) :
    compare options left right = .ok found ↔ Admits options left right ∧ found = (meetings left right).map entry := by
  have hentry (m : Path × Json × Json) : Report.entries.at? ([] ++ m.1) m.2.1 m.2.2 = (some ∘ entry) m := by
    simp only [Report.at?, Report.entries, List.nil_append, Function.comp_apply, entry]
    split <;> rfl
  refine (walk_eq_ok_iff options Report.entries hr [] found).trans ?_
  simp only [hentry, ← List.filterMap_eq_map]

theorem admits_comm : Admits {} left right ↔ Admits {} right left := by
  have hswap {l r : Json} (h : Admits {} l r) : Admits {} r l := by
    intro p x y hxy
    exact (passes_comm y x).mp (h p y x ((shared_comm p).mp hxy))
  exact ⟨hswap, hswap⟩

/-- Without strict options only the types of the values matter. -/
theorem not_admits_iff :
    ¬ Admits {} left right ↔ ∃ p x y, Shared left right p x y ∧ (x.Untypable ∨ y.Untypable) := by
  have hpasses (x y : Json) : ¬ Passes {} x y ↔ x.Untypable ∨ y.Untypable := by
    rw [JsonType.untypable_iff, JsonType.untypable_iff, ← not_and_or]
    refine not_congr ⟨fun h => ⟨h.left, h.right⟩, ?_⟩
    rintro ⟨hx, hy⟩
    exact ⟨hx, hy, nofun, nofun, nofun⟩
  simp only [Admits, not_forall, hpasses, exists_prop]

theorem mem_entries_iff (hr : right.Distinct) (hadmits : Admits {} left right) (a : Alignment) :
    a ∈ (meetings left right).map entry ↔ Reported left right a := by
  rw [List.mem_map]
  constructor
  · rintro ⟨⟨p, x, y⟩, hm, rfl⟩
    obtain ⟨hshared, hstop⟩ := (mem_meetings hr p x y).mp hm
    obtain ⟨⟨t, ht⟩, ⟨u, hu⟩, _, _, _⟩ := hadmits p x y hshared
    unfold entry
    split
    next hscalar =>
      obtain ⟨hx, hy⟩ := hscalar
      exact .common hshared ((JsonType.of_eq_scalar_iff x).mp hx) ((JsonType.of_eq_scalar_iff y).mp hy)
    next hscalar =>
      refine .differ hshared ht hu fun htu => hscalar ?_
      obtain ⟨rfl, rfl⟩ := (of_eq_iff_of_not_nested hstop ht hu).mp htu
      exact ⟨ht, hu⟩
  · intro h
    cases h with
    | @common p x y hshared hx hy =>
        have hscalar := And.intro ((JsonType.of_eq_scalar_iff x).mpr hx) ((JsonType.of_eq_scalar_iff y).mpr hy)
        have hstop : nested x y = false := by
          refine Bool.eq_false_iff.mpr fun hnested => ?_
          exact (of_eq_of_nested hnested hscalar.1 hscalar.2).2 rfl
        refine ⟨(p, x, y), (mem_meetings hr p x y).mpr ⟨hshared, hstop⟩, ?_⟩
        rw [entry, if_pos hscalar]
    | @differ p x y t u hshared ht hu hne =>
        have hstop : nested x y = false := by
          refine Bool.eq_false_iff.mpr fun hnested => ?_
          exact hne (of_eq_of_nested hnested ht hu).1
        refine ⟨(p, x, y), (mem_meetings hr p x y).mpr ⟨hshared, hstop⟩, ?_⟩
        refine if_neg fun hscalar => ?_
        rw [ht, hu] at hscalar
        exact hne ((Except.ok.inj hscalar.1).trans (Except.ok.inj hscalar.2).symm)

theorem account_of_admits (hr : right.Distinct) (hadmits : Admits {} left right) :
    Account left right ((meetings left right).map entry) := by
  have hordered : ((meetings left right).map entry).Pairwise fun a b => right.Precedes a.path b.path := by
    rw [List.pairwise_map]
    simp only [path_entry]
    exact pairwise_meetings hr
  refine ⟨mem_entries_iff hr hadmits, ?_, hordered⟩
  -- No location is told of twice, since none precedes itself.
  rw [List.Nodup, List.pairwise_map]
  refine hordered.imp fun {a b} hab heq => ?_
  rw [heq] at hab
  exact not_precedes_self hr hab

theorem perm_swap_of_account {found back : List Alignment} (hfound : Account left right found)
    (hback : Account right left back) : back.Perm (found.map swap) := by
  have hpaths : ((found.map swap).map path).Nodup := by
    simpa only [List.map_map, Function.comp_def, path_swap] using hfound.once
  rw [List.perm_ext_iff_of_nodup hback.once.of_map hpaths.of_map]
  intro a
  rw [hback.reported, ← reported_swap_iff, ← hfound.reported, List.mem_map]
  constructor
  · intro h
    exact ⟨a.swap, h, swap_swap a⟩
  · rintro ⟨b, hb, rfl⟩
    rwa [swap_swap]

/-- Two values are aligned unless a shared location has a value without a type.  The result is an account of all shared
locations, and the same as with the sides exchanged but for the order. -/
theorem compare_reports_shared (left right : Json) (hl : left.Distinct) (hr : right.Distinct) :
    ((∃ e, compare {} left right = .error e) ↔
      ∃ p x y, Shared left right p x y ∧ (x.Untypable ∨ y.Untypable)) ∧
    ∀ found, compare {} left right = .ok found →
      Account left right found ∧
      ∃ back, compare {} right left = .ok back ∧ back.Perm (found.map swap) := by
  constructor
  · rw [← not_admits_iff]
    have hok (found : List Alignment) : compare {} left right = .ok found ↔ _ := compare_eq_ok_iff {} hr found
    cases hcompare : compare {} left right with
    | error e =>
        refine iff_of_true ⟨e, rfl⟩ fun hadmits => ?_
        have hfound := (hok _).mpr ⟨hadmits, rfl⟩
        rw [hcompare] at hfound
        cases hfound
    | ok found =>
        refine iff_of_false (by rintro ⟨e, he⟩; cases he) ?_
        exact not_not.mpr ((hok found).mp hcompare).1
  · intro found hfound
    obtain ⟨hadmits, rfl⟩ := (compare_eq_ok_iff {} hr found).mp hfound
    have haccount := account_of_admits hr hadmits
    have hback := admits_comm.mp hadmits
    refine ⟨haccount, _, (compare_eq_ok_iff {} hl _).mpr ⟨hback, rfl⟩, ?_⟩
    exact perm_swap_of_account haccount (account_of_admits hl hback)

theorem compare_reports_shared_tags :
    let left : Json := .object [("pages", .int 412), ("tags", .array [.string "sf", .string "war"])]
    let right : Json := .object [("tags", .array [.string "sf"]), ("pages", .array [])]
    let found : List Alignment :=
      [.common [.key "tags", .index 0] (.string "sf") (.string "sf"), .differ [.key "pages"] (.int 412) (.array [])]
    left.Distinct ∧ right.Distinct ∧
      (¬ ∃ p x y, Shared left right p x y ∧ (x.Untypable ∨ y.Untypable)) ∧
      compare {} left right = .ok found ∧ Account left right found ∧
      ∃ back, compare {} right left = .ok back ∧ back.Perm (found.map swap) := by
  intro left right found
  have hl : left.Distinct := by
    simp only [left, distinct_object, distinct_array, List.forall_mem_cons]
    refine ⟨by decide, distinct_leaf rfl, ⟨distinct_leaf rfl, distinct_leaf rfl, by simp⟩, by simp⟩
  have hr : right.Distinct := by
    simp only [right, distinct_object, distinct_array, List.forall_mem_cons]
    refine ⟨by decide, ⟨distinct_leaf rfl, by simp⟩, by simp, by simp⟩
  have hfound : compare {} left right = .ok found := by
    rfl
  obtain ⟨hfails, hreports⟩ := compare_reports_shared left right hl hr
  obtain ⟨haccount, hback⟩ := hreports found hfound
  refine ⟨hl, hr, ?_, hfound, haccount, hback⟩
  rw [← hfails, hfound]
  rintro ⟨e, he⟩
  cases he

end Compare

end Alignment
end RecordSearch

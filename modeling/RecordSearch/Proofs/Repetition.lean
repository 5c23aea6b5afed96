import Mathlib.Data.List.Induction
import Mathlib.Data.List.Nodup
import Mathlib.Data.List.Perm.Subperm

/-!
# Lists without repetition

A list from which repetitions are erased keeps the first of equal elements.

* `nodup_eraseDups`, `eraseDups_of_nodup`: nothing is repeated in the result, and only repetitions are erased.
* `mem_iff_lt_of_covers`: if the numbers below the count of different numbers all occur, no other number does.
* `length_eraseDups_of_mem_iff`: the numbers below a bound are counted by it.
* `FirstAppearances`, `firstAppearances_eraseDups`: the elements stand in the order in which they first appear.
* `eraseDups_flatMap_eraseDups`: repetitions may be erased in pieces first.
-/

namespace RecordSearch
namespace Repetition

variable {α : Type} [BEq α] [LawfulBEq α]

theorem nodup_eraseDups (xs : List α) : xs.eraseDups.Nodup := by
  cases xs with
  | nil =>
      exact List.nodup_nil
  | cons x xs =>
      rw [List.eraseDups_cons, List.nodup_cons]
      refine ⟨?_, nodup_eraseDups _⟩
      simp [List.mem_eraseDups]
termination_by xs.length
-- The repetitions of the first element lie anywhere behind it.
decreasing_by
  have hle := List.length_filter_le (fun y => !y == x) xs
  simp only [List.length_cons]
  omega

theorem eraseDups_of_nodup {xs : List α} (h : xs.Nodup) : xs.eraseDups = xs := by
  induction xs with
  | nil =>
      rfl
  | cons x xs ih =>
      obtain ⟨hx, hxs⟩ := List.nodup_cons.mp h
      have hkept : (xs.filter fun y => !y == x) = xs := by
        refine List.filter_eq_self.mpr fun y hy => ?_
        have hne : y ≠ x := by
          rintro rfl
          exact hx hy
        simpa using hne
      rw [List.eraseDups_cons, hkept, ih hxs]

/-- Numbers among which all below the count of different ones occur are exactly those below it. -/
theorem mem_iff_lt_of_covers {numbers : List Nat} (h : ∀ i < numbers.eraseDups.length, i ∈ numbers) (i : Nat) :
    i ∈ numbers ↔ i < numbers.eraseDups.length := by
  have hsub : List.range numbers.eraseDups.length ⊆ numbers.eraseDups := by
    intro j hj
    exact List.mem_eraseDups.mpr (h j (List.mem_range.mp hj))
  have hperm : (List.range numbers.eraseDups.length).Perm numbers.eraseDups :=
    (List.subperm_of_subset List.nodup_range hsub).perm_of_length_le (by simp)
  rw [← List.mem_eraseDups, ← hperm.mem_iff, List.mem_range]

/-- There are as many different numbers as the bound says if they are exactly those below it. -/
theorem length_eraseDups_of_mem_iff {numbers : List Nat} {n : Nat} (h : ∀ i, i ∈ numbers ↔ i < n) :
    numbers.eraseDups.length = n := by
  have hperm : numbers.eraseDups.Perm (List.range n) := by
    refine (List.perm_ext_iff_of_nodup (nodup_eraseDups numbers) List.nodup_range).mpr fun i => ?_
    rw [List.mem_eraseDups, h, List.mem_range]
  rw [hperm.length_eq, List.length_range]

/-- The second list has every element of the first one, each once, in the order in which they first appear there. -/
structure FirstAppearances (xs ys : List α) : Prop where
  nodup : ys.Nodup
  mem_iff : ∀ x, x ∈ ys ↔ x ∈ xs
  order : ys.Pairwise fun x y => xs.idxOf x < xs.idxOf y

theorem eraseDups_append_singleton (xs : List α) (x : α) :
    (xs ++ [x]).eraseDups = if x ∈ xs then xs.eraseDups else xs.eraseDups ++ [x] := by
  rw [List.eraseDups_append]
  by_cases hx : x ∈ xs
  · simp [List.removeAll, hx]
  · simp [List.removeAll, List.eraseDups_cons, hx]

theorem eraseDups_filter (p : α → Bool) (xs : List α) : (xs.filter p).eraseDups = xs.eraseDups.filter p := by
  induction xs using List.reverseRecOn with
  | nil =>
      rfl
  | append_singleton xs x ih =>
      rw [List.filter_append, eraseDups_append_singleton]
      cases hp : p x with
      | false =>
          rw [List.filter_singleton, hp, cond_false, List.append_nil, ih]
          split
          · rfl
          · simp [hp]
      | true =>
          rw [List.filter_singleton, hp, cond_true, eraseDups_append_singleton, ih]
          simp only [List.mem_filter, hp, and_true]
          split
          · rfl
          · simp [hp]

/-- Repetitions that are erased piece by piece may as well be erased at the end. -/
theorem eraseDups_flatMap_eraseDups {β : Type} (f : β → List α) (ys : List β) :
    (ys.flatMap fun y => (f y).eraseDups).eraseDups = (ys.flatMap f).eraseDups := by
  induction ys with
  | nil =>
      rfl
  | cons y ys ih =>
      have hremove (xs : List α) : xs.removeAll (f y).eraseDups = xs.removeAll (f y) := by
        refine List.filter_congr fun x _ => ?_
        simp [List.mem_eraseDups]
      rw [List.flatMap_cons, List.flatMap_cons, List.eraseDups_append, List.eraseDups_append,
        eraseDups_of_nodup (nodup_eraseDups _), hremove]
      simp only [List.removeAll, eraseDups_filter, ih]

theorem firstAppearances_eraseDups (xs : List α) : FirstAppearances xs xs.eraseDups := by
  refine ⟨nodup_eraseDups xs, fun x => List.mem_eraseDups, ?_⟩
  -- From the end: an element behind the others changes no first place but its own.
  induction xs using List.reverseRecOn with
  | nil =>
      exact List.Pairwise.nil
  | append_singleton xs x ih =>
      have hkept : xs.eraseDups.Pairwise fun y z => (xs ++ [x]).idxOf y < (xs ++ [x]).idxOf z := by
        refine ih.imp_of_mem fun {y z} hy hz hyz => ?_
        rwa [List.idxOf_append_of_mem (List.mem_eraseDups.mp hy), List.idxOf_append_of_mem (List.mem_eraseDups.mp hz)]
      rw [eraseDups_append_singleton]
      split
      · exact hkept
      · rename_i hx
        refine List.pairwise_append.mpr ⟨hkept, List.pairwise_singleton _ _, ?_⟩
        intro y hy z hz
        obtain rfl := List.mem_singleton.mp hz
        have hy' := List.mem_eraseDups.mp hy
        rw [List.idxOf_append_of_mem hy', List.idxOf_append_of_notMem hx]
        have hlt := List.idxOf_lt_length_of_mem hy'
        omega

end Repetition
end RecordSearch

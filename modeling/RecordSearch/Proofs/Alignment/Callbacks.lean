import RecordSearch.Proofs.Alignment.Walk

/-!
# Alignment with callbacks

A caller may have the locations of an alignment reported in its own way, and may drop some of them.  The walk and its
failures do not depend on what is reported: the caller could as well take the alignment and report its entries.

* `Report.on`: what a report makes of an entry; `Report.filterMap`: a report whose results are passed on.
* `walk_filterMap`: passing on the results of a report is passing on the results of its walk.
* `compareWith_eq_filterMap`: the main result.
-/

namespace RecordSearch
namespace Alignment

open Json Traversal

variable {α β : Type}

/-- What a report makes of an entry. -/
def Report.on (report : Report α) : Alignment → Option α
  | .common path left right => report.common path left right
  | .differ path left right => report.differ path left right

/-- The report that passes its results on to `f`, which may drop them. -/
def Report.filterMap (f : α → Option β) (report : Report α) : Report β where
  common path left right := (report.common path left right).bind f
  differ path left right := (report.differ path left right).bind f

section Walk

variable (options : Options) (report : Report α) (f : α → Option β)

theorem meet_filterMap (path : Path) (left right : Json) :
    meet options (report.filterMap f) path left right =
      (meet options report path left right).map (List.filterMap f) := by
  have hpass (result : Option α) : (result.bind f).toList = result.toList.filterMap f := by
    cases result with
    | none => rfl
    | some a => cases h : f a <;> simp [h]
  rw [meet, meet]
  cases typeOf left with
  | error e => rfl
  | ok leftType =>
      cases typeOf right with
      | error e => rfl
      | ok rightType =>
          simp only [bind, Except.bind, Report.filterMap, hpass]
          split
          · rfl
          · split <;> rfl

theorem walkPairs_filterMap (path : Path) {children : List (Segment × Json × Json)}
    (h : ∀ c ∈ children, walk options (report.filterMap f) (path ++ [c.1]) c.2.1 c.2.2 =
      (walk options report (path ++ [c.1]) c.2.1 c.2.2).map (List.filterMap f)) :
    walkPairs options (report.filterMap f) path children =
      (walkPairs options report path children).map (List.filterMap f) := by
  induction children with
  | nil => rfl
  | cons c rest ih =>
      obtain ⟨s, v, w⟩ := c
      obtain ⟨hfirst, hrest⟩ := List.forall_mem_cons.mp h
      rw [walkPairs_cons, walkPairs_cons, hfirst, ih hrest]
      cases walk options report (path ++ [s]) v w with
      | error e => rfl
      | ok first =>
          cases walkPairs options report path rest with
          | error e => rfl
          | ok others => exact congrArg Except.ok List.filterMap_append.symm

/-- Passing on the results of a report is passing on the results of its walk. -/
theorem walk_filterMap (path : Path) (left right : Json) :
    walk options (report.filterMap f) path left right =
      (walk options report path left right).map (List.filterMap f) := by
  induction right using wellFounded_child.induction generalizing left path with | _ right ih
  cases h : nested left right with
  | false =>
      rw [walk_of_not_nested _ _ h, walk_of_not_nested _ _ h, meet_filterMap]
  | true =>
      have hchildren : walkPairs options (report.filterMap f) path (pairs left right) =
          (walkPairs options report path (pairs left right)).map (List.filterMap f) :=
        walkPairs_filterMap options report f path fun c hc => ih c.2.2 (child_of_mem_pairs hc) (path ++ [c.1]) c.2.1
      rw [walk_nested _ _ h, walk_nested _ _ h, hchildren]
      -- The demand of strict keys comes first and is the same for both reports.
      cases checkKeys options path left right <;> rfl

end Walk

/-- **An alignment with callbacks is the alignment, filtered.**  With any options and any report, aligning two values
fails as it does without callbacks, and otherwise gives what the report makes of the entries, in order and without those
that it drops. -/
theorem compareWith_eq_filterMap (options : Options) (report : Report α) (left right : Json) :
    compareWith options report left right =
      (compare options left right).map fun found => found.filterMap report.on :=
  -- An alignment reports its entries, and these passed on to a report give the report itself.
  walk_filterMap options Report.entries report.on [] left right

end Alignment
end RecordSearch

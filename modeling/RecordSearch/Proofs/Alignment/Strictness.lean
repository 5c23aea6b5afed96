import RecordSearch.Proofs.Alignment.Report

/-!
# Strict options

A strict option makes an alignment fail where it is violated, and changes nothing else.

**Keys.**  `Covers` is what strict keys ask of two values, whatever their types.

**Types.**  Strict types ask for equal types at all shared locations (`forall_of_eq_iff`).  Without strict keys a walk is
a traversal of the locations where it stops (`walk_of_lenient`), so that it fails at the first of them with different
types.

**Result.**  `compare_strict_refines`.
-/

namespace RecordSearch
namespace Alignment

open Json Traversal

/-- At shared locations, names of the right object are names of the left one, and arrays are of one length. -/
structure Covers (left right : Json) : Prop where
  names : ∀ path ms ns, Shared left right path (.object ms) (.object ns) → Members.names ns ⊆ Members.names ms
  lengths : ∀ path xs ys, Shared left right path (.array xs) (.array ys) → xs.length = ys.length

section Options

variable {left right : Json}

/-- Strict options are passed where there are types for lenient ones, and what they ask for besides. -/
theorem admits_iff_lenient (options : Options) :
    Admits options left right ↔
      Admits {} left right ∧
        (options.strictTypes = true → ∀ path x y, Shared left right path x y → JsonType.of x = JsonType.of y) ∧
        (options.strictKeys = true → Covers left right) := by
  constructor
  · intro h
    refine ⟨fun path x y hxy => ?_, fun hstrict path x y hxy => (h path x y hxy).types hstrict, fun hstrict => ?_⟩
    · exact ⟨(h path x y hxy).left, (h path x y hxy).right, nofun, nofun, nofun⟩
    · exact ⟨fun path ms ns hxy => (h path _ _ hxy).names hstrict ms ns rfl rfl,
        fun path xs ys hxy => (h path _ _ hxy).lengths hstrict xs ys rfl rfl⟩
  · rintro ⟨htyped, htypes, hcovers⟩ path x y hxy
    refine ⟨(htyped path x y hxy).left, (htyped path x y hxy).right, fun hstrict => htypes hstrict path x y hxy, ?_, ?_⟩
    · rintro hstrict xs ys rfl rfl
      exact (hcovers hstrict).lengths path xs ys hxy
    · rintro hstrict ms ns rfl rfl
      exact (hcovers hstrict).names path ms ns hxy

/-- All shared locations have equal types if no entry tells of different ones. -/
theorem forall_of_eq_iff (hr : right.Distinct) (hadmits : Admits {} left right) :
    (∀ path x y, Shared left right path x y → JsonType.of x = JsonType.of y) ↔
      ∀ path x y, Alignment.differ path x y ∉ (meetings left right).map entry := by
  simp only [mem_entries_iff hr hadmits]
  constructor
  · rintro h path x y (_ | ⟨hxy, ht, hu, hne⟩)
    rw [h path x y hxy, hu] at ht
    exact hne (Except.ok.inj ht).symm
  · intro h path x y hxy
    obtain ⟨t, ht⟩ := (hadmits path x y hxy).left
    obtain ⟨u, hu⟩ := (hadmits path x y hxy).right
    refine by_contra fun hne => h path x y (.differ hxy ht hu ?_)
    rintro rfl
    exact hne (ht.trans hu.symm)

end Options

section Lenient

variable {α : Type} {options : Options} (report : Report α)

theorem meet_of_scalars {x y : Json} (hx : JsonType.of x = .ok .scalar) (hy : JsonType.of y = .ok .scalar) (path : Path) :
    meet options report path x y = .ok (report.common path x y).toList := by
  rw [meet, (typeOf_eq_ok_iff x _).mpr hx, (typeOf_eq_ok_iff y _).mpr hy]
  rfl

theorem meet_of_differ (hstrict : options.strictTypes = true) {x y : Json} {t u : JsonType} (ht : JsonType.of x = .ok t)
    (hu : JsonType.of y = .ok u) (hne : ¬ (t = .scalar ∧ u = .scalar)) (path : Path) :
    meet options report path x y = .error (.typeMismatch path t u) := by
  rw [meet, (typeOf_eq_ok_iff x _).mpr ht, (typeOf_eq_ok_iff y _).mpr hu]
  simp only [bind, Except.bind, if_neg hne, if_pos hstrict]

theorem walkPairs_of_lenient (path : Path) {children : List (Segment × Json × Json)}
    (h : ∀ c ∈ children, walk options report (path ++ [c.1]) c.2.1 c.2.2 =
      ((meetings c.2.1 c.2.2).mapM fun m => meet options report (path ++ [c.1] ++ m.1) m.2.1 m.2.2).map List.flatten) :
    walkPairs options report path children =
      ((children.flatMap fun c => (meetings c.2.1 c.2.2).map fun m => (c.1 :: m.1, m.2)).mapM fun m =>
        meet options report (path ++ m.1) m.2.1 m.2.2).map List.flatten := by
  induction children with
  | nil => rfl
  | cons c rest ih =>
      obtain ⟨s, v, w⟩ := c
      obtain ⟨hfirst, hrest⟩ := List.forall_mem_cons.mp h
      simp only [List.append_assoc, List.singleton_append] at hfirst
      rw [walkPairs_cons, hfirst, ih hrest, List.flatMap_cons, List.mapM_append, List.mapM_map]
      simp only [Function.comp_def]
      cases (meetings v w).mapM fun m => meet options report (path ++ s :: m.1) m.2.1 m.2.2 with
      | error e => rfl
      | ok first =>
          cases (rest.flatMap fun c => (meetings c.2.1 c.2.2).map fun m => (c.1 :: m.1, m.2)).mapM fun m =>
              meet options report (path ++ m.1) m.2.1 m.2.2 with
          | error e => rfl
          | ok others => exact congrArg Except.ok List.flatten_append.symm

/-- Without strict keys, a walk is a traversal of the locations where it stops. -/
theorem walk_of_lenient (hkeys : options.strictKeys = false) (path : Path) (left right : Json) :
    walk options report path left right =
      ((meetings left right).mapM fun m => meet options report (path ++ m.1) m.2.1 m.2.2).map List.flatten := by
  induction right using wellFounded_child.induction generalizing left path with | _ right ih
  cases h : nested left right with
  | false =>
      rw [walk_of_not_nested _ _ h, meetings_of_not_nested h, List.mapM_cons, List.append_nil]
      cases meet options report path left right with
      | error e => rfl
      | ok found => exact congrArg Except.ok (List.append_nil found).symm
  | true =>
      rw [walk_nested _ _ h, checkKeys_of_lenient hkeys, meetings_nested h]
      exact walkPairs_of_lenient report path fun c hc => ih c.2.2 (child_of_mem_pairs hc) (path ++ [c.1]) c.2.1

/-- Where only types are strict, a walk fails at the first location where it stops without two scalars. -/
theorem walk_of_differ (hkeys : options.strictKeys = false) (hstrict : options.strictTypes = true) {left right x y : Json}
    {first last : List (Path × Json × Json)} {path : Path} (hmeetings : meetings left right = first ++ (path, x, y) :: last)
    (hscalars : ∀ m ∈ first, JsonType.of m.2.1 = .ok .scalar ∧ JsonType.of m.2.2 = .ok .scalar) {t u : JsonType}
    (ht : JsonType.of x = .ok t) (hu : JsonType.of y = .ok u) (hne : ¬ (t = .scalar ∧ u = .scalar)) (place : Path) :
    walk options report place left right = .error (.typeMismatch (place ++ path) t u) := by
  have hfails : FirstFailure (fun m => meet options report (place ++ m.1) m.2.1 m.2.2) (meetings left right)
      (.typeMismatch (place ++ path) t u) := by
    refine ⟨first, (path, x, y), last, hmeetings, fun m hm => ?_, meet_of_differ report hstrict ht hu hne _⟩
    exact ⟨_, meet_of_scalars report (hscalars m hm).1 (hscalars m hm).2 _⟩
  rw [walk_of_lenient report hkeys, (mapM_eq_error_iff _ _ _).mpr hfails]
  rfl

end Lenient

theorem entry_eq_differ_iff (m : Path × Json × Json) (path : Path) (x y : Json) :
    entry m = .differ path x y ↔ m = (path, x, y) ∧ ¬ (JsonType.of x = .ok .scalar ∧ JsonType.of y = .ok .scalar) := by
  obtain ⟨p, v, w⟩ := m
  rw [entry]
  split
  next hscalar =>
    constructor
    · intro h
      cases h
    · rintro ⟨h, hne⟩
      cases h
      exact absurd hscalar hne
  next hscalar =>
    constructor
    · intro h
      cases h
      exact ⟨rfl, hscalar⟩
    · rintro ⟨h, _⟩
      cases h
      rfl

/-- The first entry that tells of different types comes from the first location where a walk stops without two
scalars. -/
theorem exists_meetings_of_differ {left right x y : Json} {path : Path} {before after : List Alignment}
    (h : (meetings left right).map entry = before ++ .differ path x y :: after)
    (hbefore : ∀ p v w, Alignment.differ p v w ∉ before) :
    ∃ first last, meetings left right = first ++ (path, x, y) :: last ∧
      (∀ m ∈ first, JsonType.of m.2.1 = .ok .scalar ∧ JsonType.of m.2.2 = .ok .scalar) ∧
      ¬ (JsonType.of x = .ok .scalar ∧ JsonType.of y = .ok .scalar) := by
  obtain ⟨first, rest, hmeetings, rfl, hrest⟩ := List.map_eq_append_iff.mp h
  obtain ⟨m, last, rfl, hm, _⟩ := List.map_eq_cons_iff.mp hrest
  obtain ⟨rfl, hne⟩ := (entry_eq_differ_iff m path x y).mp hm
  refine ⟨first, last, hmeetings, ?_, hne⟩
  rintro ⟨p, v, w⟩ hm
  refine by_contra fun hne => hbefore p v w ?_
  exact List.mem_map.mpr ⟨_, hm, (entry_eq_differ_iff _ p v w).mpr ⟨rfl, hne⟩⟩

/-- **Strict options only fail.**  An alignment with some options is that without options, if it tells of no different
types where these are strict, and if the left value covers the right one where keys are strict.  Strict types alone fail
at the first entry that tells of different types. -/
theorem compare_strict_refines (left right : Json) (hr : right.Distinct) :
    (∀ options found, compare options left right = .ok found ↔
      compare {} left right = .ok found ∧
        (options.strictTypes = true → ∀ path x y, Alignment.differ path x y ∉ found) ∧
        (options.strictKeys = true → Covers left right)) ∧
    ∀ before path x y after, compare {} left right = .ok (before ++ .differ path x y :: after) →
      (∀ p v w, Alignment.differ p v w ∉ before) →
      ∃ t u, JsonType.of x = .ok t ∧ JsonType.of y = .ok u ∧
        compare { strictTypes := true } left right = .error (.typeMismatch path t u) := by
  constructor
  · intro options found
    rw [compare_eq_ok_iff options hr, compare_eq_ok_iff {} hr, admits_iff_lenient options]
    constructor
    · rintro ⟨⟨hadmits, htypes, hcovers⟩, rfl⟩
      exact ⟨⟨hadmits, rfl⟩, fun hstrict => (forall_of_eq_iff hr hadmits).mp (htypes hstrict), hcovers⟩
    · rintro ⟨⟨hadmits, rfl⟩, htypes, hcovers⟩
      exact ⟨⟨hadmits, fun hstrict => (forall_of_eq_iff hr hadmits).mpr (htypes hstrict), hcovers⟩, rfl⟩
  · intro before path x y after hfound hbefore
    obtain ⟨hadmits, hentries⟩ := (compare_eq_ok_iff {} hr _).mp hfound
    obtain ⟨first, last, hmeetings, hscalars, hne⟩ := exists_meetings_of_differ hentries.symm hbefore
    have hmem : (path, x, y) ∈ meetings left right := by
      rw [hmeetings]
      simp
    have hxy := ((mem_meetings hr path x y).mp hmem).1
    obtain ⟨t, ht⟩ := (hadmits path x y hxy).left
    obtain ⟨u, hu⟩ := (hadmits path x y hxy).right
    have htypes : ¬ (t = .scalar ∧ u = .scalar) := by
      rintro ⟨rfl, rfl⟩
      exact hne ⟨ht, hu⟩
    exact ⟨t, u, ht, hu, walk_of_differ Report.entries rfl rfl hmeetings hscalars ht hu htypes []⟩

/-- A number of pages against a list, and a name that the left object lacks. -/
theorem compare_strict_refines_pages :
    let left : Json := .object [("pages", .int 412), ("tags", .array [.string "sf"])]
    let right : Json := .object [("tags", .array [.string "war"]), ("pages", .array []), ("isbn", .string "0441")]
    let common : Alignment := .common [.key "tags", .index 0] (.string "sf") (.string "war")
    let differ : Alignment := .differ [.key "pages"] (.int 412) (.array [])
    right.Distinct ∧ compare {} left right = .ok [common, differ] ∧
      compare { strictTypes := true } left right = .error (.typeMismatch [.key "pages"] .scalar .array) ∧
      ¬ Covers left right ∧ ∀ found, compare { strictKeys := true } left right ≠ .ok found := by
  intro left right common differ
  have hr : right.Distinct := by
    simp only [right, distinct_object, distinct_array, List.forall_mem_cons]
    exact ⟨by decide, ⟨distinct_leaf rfl, by simp⟩, by simp, distinct_leaf rfl, by simp⟩
  have hfound : compare {} left right = .ok [common, differ] := by
    rfl
  have hcovers : ¬ Covers left right := by
    intro h
    have hnames := h.names [] _ _ (shared_nil.mpr ⟨rfl, rfl⟩)
    have hisbn : "isbn" ∈ ["pages", "tags"] := hnames (by decide)
    exact absurd hisbn (by decide)
  obtain ⟨hrefines, hfails⟩ := compare_strict_refines left right hr
  obtain ⟨t, u, ht, hu, hmismatch⟩ := hfails [common] [.key "pages"] (.int 412) (.array []) [] hfound (by simp [common])
  cases ht
  cases hu
  refine ⟨hr, hfound, hmismatch, hcovers, fun found hok => hcovers ?_⟩
  exact ((hrefines _ found).mp hok).2.2 rfl

end Alignment
end RecordSearch

import RecordSearch.Alignment
import RecordSearch.Proofs.Json.Branches
import RecordSearch.Proofs.Traversal

/-!
# The locations that a walk of two values reports

A walk goes down the children that two values share, and stops where they are not both arrays and not both objects.

**Locations.**  `Shared` says that a path leads to a part on both sides.  `meetings` lists the shared locations where the
walk stops.

**Conditions.**  `Passes` says what the options ask of the two parts at one location; `Admits` asks it of all shared
locations.

**Steps.**  Below nested values a walk checks their keys and goes on to the children that they share (`walk_nested`);
elsewhere it is a single report (`walk_of_not_nested`).  Whatever is shown of all walks is shown along these two.

**Result.**  `walk_eq_ok_iff`: the walk succeeds exactly if all shared locations pass, and then reports the meetings in
order.
-/

namespace RecordSearch
namespace Alignment

open Json Traversal

/-- The path leads to `x` in the left value and to `y` in the right one. -/
def Shared (left right : Json) (path : Path) (x y : Json) : Prop :=
  left.at? path = some x ∧ right.at? path = some y

/-- The segments that lead on in both values, in the order of the right one, with the children on both sides. -/
def pairs (left right : Json) : List (Segment × Json × Json) :=
  right.branches.filterMap fun (s, w) => (left.child? s).map fun v => (s, v, w)

section Pairs

variable {left right x y : Json}

theorem mem_pairs (s : Segment) (v w : Json) :
    (s, v, w) ∈ pairs left right ↔ (s, w) ∈ right.branches ∧ left.child? s = some v := by
  simp only [pairs, List.mem_filterMap, Option.map_eq_some_iff, Prod.exists, Prod.mk.injEq]
  constructor
  · rintro ⟨s', w', hw, v', hv, rfl, rfl, rfl⟩
    exact ⟨hw, hv⟩
  · rintro ⟨hw, hv⟩
    exact ⟨s, w, hw, v, hv, rfl, rfl, rfl⟩

theorem mem_pairs_iff (hr : right.Distinct) (s : Segment) (v w : Json) :
    (s, v, w) ∈ pairs left right ↔ left.child? s = some v ∧ right.child? s = some w := by
  rw [mem_pairs, mem_branches_iff (nodup_branches hr), and_comm]

theorem pairs_eq_nil (hr : right.Distinct) (h : nested left right = false) : pairs left right = [] := by
  refine List.eq_nil_iff_forall_not_mem.mpr ?_
  rintro ⟨s, v, w⟩ hc
  obtain ⟨hv, hw⟩ := (mem_pairs_iff hr s v w).mp hc
  rw [nested_of_child? hv hw] at h
  cases h

theorem child_of_mem_pairs {c : Segment × Json × Json} (h : c ∈ pairs left right) : Child c.2.2 right :=
  child_of_mem_branches ((mem_pairs c.1 c.2.1 c.2.2).mp h).1

theorem pairs_fst_sublist (left right : Json) :
    ((pairs left right).map (·.1)).Sublist (right.branches.map (·.1)) := by
  unfold pairs
  induction right.branches with
  | nil =>
      exact List.Sublist.slnil
  | cons b rest ih =>
      obtain ⟨s, w⟩ := b
      cases hv : left.child? s with
      | none =>
          rw [List.filterMap_cons_none (by simp [hv])]
          exact ih.cons s
      | some v =>
          rw [List.filterMap_cons_some (b := (s, v, w)) (by simp [hv])]
          exact ih.cons_cons s

theorem shared_nil : Shared left right [] x y ↔ x = left ∧ y = right := by
  simp [Shared, at?, eq_comm]

theorem shared_cons (hr : right.Distinct) (s : Segment) (path : Path) :
    Shared left right (s :: path) x y ↔ ∃ v w, (s, v, w) ∈ pairs left right ∧ Shared v w path x y := by
  simp only [Shared, at?, Option.bind_eq_some_iff, mem_pairs_iff hr]
  constructor
  · rintro ⟨⟨v, hv, hx⟩, w, hw, hy⟩
    exact ⟨v, w, ⟨hv, hw⟩, hx, hy⟩
  · rintro ⟨v, w, ⟨hv, hw⟩, hx, hy⟩
    exact ⟨⟨v, hv, hx⟩, w, hw, hy⟩

theorem shared_comm (path : Path) : Shared left right path x y ↔ Shared right left path y x :=
  and_comm

/-- What holds at all shared locations holds at the two values and at all shared locations of their shared children. -/
theorem forall_shared_iff (hr : right.Distinct) (q : Json → Json → Prop) :
    (∀ path x y, Shared left right path x y → q x y) ↔
      q left right ∧ ∀ c ∈ pairs left right, ∀ path x y, Shared c.2.1 c.2.2 path x y → q x y := by
  constructor
  · intro h
    refine ⟨h [] left right (shared_nil.mpr ⟨rfl, rfl⟩), ?_⟩
    rintro ⟨s, v, w⟩ hc path x y hxy
    exact h (s :: path) x y ((shared_cons hr s path).mpr ⟨v, w, hc, hxy⟩)
  · rintro ⟨hhere, hchildren⟩ path x y hxy
    cases path with
    | nil =>
        obtain ⟨rfl, rfl⟩ := shared_nil.mp hxy
        exact hhere
    | cons s path =>
        obtain ⟨v, w, hc, hxy⟩ := (shared_cons hr s path).mp hxy
        exact hchildren (s, v, w) hc path x y hxy

end Pairs

section Meetings

/-- The locations where the walk of two values stops, depth first, with what stands there. -/
def meetings (left right : Json) : List (Path × Json × Json) :=
  if nested left right then
    (pairs left right).attach.flatMap fun ⟨c, _⟩ => (meetings c.2.1 c.2.2).map fun m => (c.1 :: m.1, m.2)
  else
    [([], left, right)]
termination_by wellFounded_child.wrap right
decreasing_by exact child_of_mem_pairs ‹_›

theorem meetings_nested {left right : Json} (h : nested left right = true) :
    meetings left right =
      (pairs left right).flatMap fun c => (meetings c.2.1 c.2.2).map fun m => (c.1 :: m.1, m.2) := by
  rw [meetings, if_pos h]
  simp only [List.flatMap_subtype, List.unattach_attach]

theorem meetings_of_not_nested {left right : Json} (h : nested left right = false) :
    meetings left right = [([], left, right)] := by
  rw [meetings, if_neg (by simp [h])]

theorem mem_meetings_nil (left right x y : Json) :
    ([], x, y) ∈ meetings left right ↔ (x = left ∧ y = right) ∧ nested left right = false := by
  cases h : nested left right with
  | true =>
      simp [meetings_nested h]
  | false =>
      simp [meetings_of_not_nested h]

theorem mem_meetings_cons {left right : Json} (hr : right.Distinct) (s : Segment) (path : Path) (x y : Json) :
    (s :: path, x, y) ∈ meetings left right ↔
      ∃ v w, (s, v, w) ∈ pairs left right ∧ (path, x, y) ∈ meetings v w := by
  cases h : nested left right with
  | true =>
      simp only [meetings_nested h, List.mem_flatMap, List.mem_map, Prod.exists, Prod.mk.injEq, List.cons.injEq]
      constructor
      · rintro ⟨t, v, w, hc, rest, x', y', hm, ⟨rfl, rfl⟩, rfl, rfl⟩
        exact ⟨v, w, hc, hm⟩
      · rintro ⟨v, w, hc, hm⟩
        exact ⟨s, v, w, hc, path, x, y, hm, ⟨rfl, rfl⟩, rfl, rfl⟩
  | false =>
      simp [meetings_of_not_nested h, pairs_eq_nil hr h]

/-- The walk stops at the shared locations without two arrays or two objects. -/
theorem mem_meetings {left right : Json} (hr : right.Distinct) (path : Path) (x y : Json) :
    (path, x, y) ∈ meetings left right ↔ Shared left right path x y ∧ nested x y = false := by
  induction path generalizing left right with
  | nil =>
      rw [mem_meetings_nil, shared_nil]
      refine and_congr_right ?_
      rintro ⟨rfl, rfl⟩
      rfl
  | cons s path ih =>
      have hchild (v w : Json) (hc : (s, v, w) ∈ pairs left right) :
          (path, x, y) ∈ meetings v w ↔ Shared v w path x y ∧ nested x y = false :=
        ih (distinct_of_branches hr ((mem_pairs s v w).mp hc).1)
      rw [mem_meetings_cons hr, shared_cons hr]
      constructor
      · rintro ⟨v, w, hc, hm⟩
        obtain ⟨hxy, hstop⟩ := (hchild v w hc).mp hm
        exact ⟨⟨v, w, hc, hxy⟩, hstop⟩
      · rintro ⟨⟨v, w, hc, hxy⟩, hstop⟩
        exact ⟨v, w, hc, (hchild v w hc).mpr ⟨hxy, hstop⟩⟩

/-- The walk comes to its locations in the order of the right value. -/
theorem pairwise_meetings {left right : Json} (hr : right.Distinct) :
    (meetings left right).Pairwise fun m n => right.Precedes m.1 n.1 := by
  induction right using wellFounded_child.induction generalizing left with | _ right ih
  cases h : nested left right with
  | false =>
      rw [meetings_of_not_nested h]
      exact List.pairwise_singleton _ _
  | true =>
      rw [meetings_nested h, List.pairwise_flatMap]
      constructor
      · rintro ⟨s, v, w⟩ hc
        have hw := ((mem_pairs s v w).mp hc).1
        rw [List.pairwise_map]
        refine (ih w (child_of_mem_branches hw) (distinct_of_branches hr hw)).imp fun hprecedes => ?_
        exact Precedes.within hw hprecedes
      · -- Locations below two children are in the order of these children, however deep they are.
        rw [List.pairwise_iff_forall_sublist]
        intro c d hcd m hm n hn
        obtain ⟨m, _, rfl⟩ := List.mem_map.mp hm
        obtain ⟨n, _, rfl⟩ := List.mem_map.mp hn
        exact Precedes.parted ((hcd.map Prod.fst).trans (pairs_fst_sublist left right))

end Meetings

section Conditions

/-- What the options ask of the two values at a location. -/
structure Passes (options : Options) (x y : Json) : Prop where
  left : ∃ t, JsonType.of x = .ok t
  right : ∃ t, JsonType.of y = .ok t
  types : options.strictTypes = true → JsonType.of x = JsonType.of y
  lengths : options.strictKeys = true → ∀ xs ys, x = .array xs → y = .array ys → xs.length = ys.length
  names : options.strictKeys = true → ∀ ms ns, x = .object ms → y = .object ns →
    ∀ name ∈ Members.names ns, name ∈ Members.names ms

/-- All shared locations pass. -/
def Admits (options : Options) (left right : Json) : Prop :=
  ∀ path x y, Shared left right path x y → Passes options x y

theorem extraNames_eq_nil_iff (lefts rights : Members) :
    extraNames lefts rights = [] ↔ ∀ name ∈ Members.names rights, name ∈ Members.names lefts := by
  simp only [extraNames, List.filter_eq_nil_iff, Bool.not_eq_true', Bool.not_eq_false, ← Members.has_iff]

theorem passes_comm (x y : Json) : Passes {} x y ↔ Passes {} y x := by
  constructor
  · rintro ⟨hleft, hright, _, _, _⟩
    exact ⟨hright, hleft, nofun, nofun, nofun⟩
  · rintro ⟨hleft, hright, _, _, _⟩
    exact ⟨hright, hleft, nofun, nofun, nofun⟩

theorem passes_array (options : Options) (xs ys : List Json) :
    Passes options (.array xs) (.array ys) ↔ ¬(options.strictKeys = true ∧ xs.length ≠ ys.length) := by
  rw [not_and, not_not]
  constructor
  · intro h hstrict
    exact h.lengths hstrict xs ys rfl rfl
  · intro h
    refine ⟨⟨.array, rfl⟩, ⟨.array, rfl⟩, fun _ => rfl, fun hstrict xs' ys' hxs hys => ?_, nofun⟩
    cases hxs
    cases hys
    exact h hstrict

theorem passes_object (options : Options) (ms ns : Members) :
    Passes options (.object ms) (.object ns) ↔ ¬(options.strictKeys = true ∧ extraNames ms ns ≠ []) := by
  rw [not_and, not_not, extraNames_eq_nil_iff]
  constructor
  · intro h hstrict
    exact h.names hstrict ms ns rfl rfl
  · intro h
    refine ⟨⟨.object, rfl⟩, ⟨.object, rfl⟩, fun _ => rfl, nofun, fun hstrict ms' ns' hms hns => ?_⟩
    cases hms
    cases hns
    exact h hstrict

/-- What strict keys ask of two arrays or two objects before the walk goes on below them. -/
def checkKeys (options : Options) (path : Path) : Json → Json → Except Error Unit
  | .array lefts, .array rights =>
      if options.strictKeys ∧ lefts.length ≠ rights.length then
        .error (.lengthMismatch path lefts.length rights.length)
      else
        .ok ()
  | .object lefts, .object rights =>
      if options.strictKeys ∧ extraNames lefts rights ≠ [] then
        .error (.unexpectedKeys path (extraNames lefts rights))
      else
        .ok ()
  | _, _ => .ok ()

theorem checkKeys_eq_ok_iff (options : Options) {left right : Json} (h : nested left right = true) (path : Path) :
    checkKeys options path left right = .ok () ↔ Passes options left right := by
  cases left with
  | array lefts =>
      cases right with
      | array rights =>
          rw [checkKeys, passes_array]
          split <;> simp_all
      | _ => cases h
  | object lefts =>
      cases right with
      | object rights =>
          rw [checkKeys, passes_object]
          split <;> simp_all
      | _ => cases h
  | _ => cases h

/-- Without strict keys nothing is asked. -/
theorem checkKeys_of_lenient {options : Options} (hkeys : options.strictKeys = false) (path : Path)
    (left right : Json) : checkKeys options path left right = .ok () := by
  unfold checkKeys
  split <;> simp [hkeys]

theorem passes_of_not_nested {options : Options} {x y : Json} (h : nested x y = false) :
    Passes options x y ↔
      (∃ t, JsonType.of x = .ok t) ∧ (∃ t, JsonType.of y = .ok t) ∧
        (options.strictTypes = true → JsonType.of x = JsonType.of y) := by
  constructor
  · intro hpasses
    exact ⟨hpasses.left, hpasses.right, hpasses.types⟩
  · rintro ⟨hleft, hright, htypes⟩
    refine ⟨hleft, hright, htypes, ?_, ?_⟩
    · rintro _ xs ys rfl rfl
      cases h
    · rintro _ ms ns rfl rfl
      cases h

theorem of_eq_of_nested {x y : Json} (h : nested x y = true) {t u : JsonType} (ht : JsonType.of x = .ok t)
    (hu : JsonType.of y = .ok u) : t = u ∧ t ≠ .scalar := by
  cases x with
  | array xs =>
      cases y with
      | array ys =>
          cases ht
          cases hu
          exact ⟨rfl, nofun⟩
      | _ => cases h
  | object ms =>
      cases y with
      | object ns =>
          cases ht
          cases hu
          exact ⟨rfl, nofun⟩
      | _ => cases h
  | _ => cases h

/-- Only scalars have the same type without being nested. -/
theorem of_eq_iff_of_not_nested {x y : Json} (h : nested x y = false) {t u : JsonType} (ht : JsonType.of x = .ok t)
    (hu : JsonType.of y = .ok u) : t = u ↔ t = .scalar ∧ u = .scalar := by
  constructor
  · rintro rfl
    cases t with
    | scalar => exact ⟨rfl, rfl⟩
    | array =>
        unfold JsonType.of at ht hu
        split at ht <;> cases ht
        split at hu <;> cases hu
        cases h
    | object =>
        unfold JsonType.of at ht hu
        split at ht <;> cases ht
        split at hu <;> cases hu
        cases h
  · rintro ⟨rfl, rfl⟩
    rfl

end Conditions

/-- The report that an alignment is made of. -/
def Report.entries : Report Alignment where
  common path left right := some (.common path left right)
  differ path left right := some (.differ path left right)

section Walk

variable {α : Type} (options : Options) (report : Report α)

/-- What is reported of a location where the walk stops. -/
def Report.at? (path : Path) (x y : Json) : Option α :=
  if JsonType.of x = .ok .scalar ∧ JsonType.of y = .ok .scalar then
    report.common path x y
  else
    report.differ path x y

theorem typeOf_eq_ok_iff (v : Json) (t : JsonType) : typeOf v = .ok t ↔ JsonType.of v = .ok t :=
  mapError_eq_ok_iff _ _ _

theorem meet_eq_ok_iff {left right : Json} (h : nested left right = false) (path : Path) (found : List α) :
    meet options report path left right = .ok found ↔
      Passes options left right ∧ found = (report.at? path left right).toList := by
  rw [meet, bind_eq_ok_iff, passes_of_not_nested h]
  simp only [bind_eq_ok_iff, typeOf_eq_ok_iff]
  constructor
  · rintro ⟨t, ht, u, hu, hfound⟩
    refine ⟨⟨⟨t, ht⟩, ⟨u, hu⟩, ?_⟩, ?_⟩
    · intro hstrict
      split at hfound
      next hscalar =>
        rw [ht, hu, hscalar.1, hscalar.2]
      next => cases hfound
    · simp only [Report.at?, ht, hu, Except.ok.injEq]
      split at hfound
      next hscalar =>
        cases hfound
        rw [if_pos hscalar]
      next hscalar =>
        rw [if_neg hscalar]
        split at hfound <;> cases hfound
        rfl
  · rintro ⟨⟨⟨t, ht⟩, ⟨u, hu⟩, htypes⟩, rfl⟩
    refine ⟨t, ht, u, hu, ?_⟩
    simp only [Report.at?, ht, hu, Except.ok.injEq]
    split
    next => rfl
    next hscalar =>
      -- Under strict types both sides would have one type, and where the walk stops that is the type of scalars.
      have hstrict : ¬ options.strictTypes = true := by
        intro hstrict
        have htu : t = u := by
          simpa [ht, hu] using htypes hstrict
        exact hscalar ((of_eq_iff_of_not_nested h ht hu).mp htu)
      rw [if_neg hstrict]
      rfl

theorem walk_of_not_nested {left right : Json} (h : nested left right = false) (path : Path) :
    walk options report path left right = meet options report path left right := by
  cases right with
  | array rights =>
      cases left with
      | array lefts => cases h
      | _ => rw [walk]; simp
  | object rights =>
      cases left with
      | object lefts => cases h
      | _ => rw [walk]; simp
  | _ => rw [walk] <;> simp

/-- The walks of some children, put together. -/
def walkPairs (path : Path) (children : List (Segment × Json × Json)) : Except Error (List α) :=
  (children.mapM fun c => walk options report (path ++ [c.1]) c.2.1 c.2.2).map List.flatten

theorem walkPairs_cons (path : Path) (s : Segment) (v w : Json) (rest : List (Segment × Json × Json)) :
    walkPairs options report path ((s, v, w) :: rest) = (do
      let first ← walk options report (path ++ [s]) v w
      let others ← walkPairs options report path rest
      return first ++ others) := by
  rw [walkPairs, walkPairs, List.mapM_cons]
  cases walk options report (path ++ [s]) v w with
  | error e =>
      rfl
  | ok first =>
      cases rest.mapM fun c => walk options report (path ++ [c.1]) c.2.1 c.2.2 <;> rfl

theorem walkMembers_eq (path : Path) (lefts rights : Members) :
    walkMembers options report path lefts rights =
      walkPairs options report path (pairs (.object lefts) (.object rights)) := by
  induction rights with
  | nil =>
      rw [walkMembers]
      rfl
  | cons m rest ih =>
      obtain ⟨name, w⟩ := m
      rw [walkMembers]
      cases hv : Members.get? name lefts with
      | none =>
          have hpairs : pairs (.object lefts) (.object ((name, w) :: rest)) =
              pairs (.object lefts) (.object rest) := by
            simp [pairs, branches, child?, hv]
          rw [hpairs, ← ih]
      | some v =>
          have hpairs : pairs (.object lefts) (.object ((name, w) :: rest)) =
              (.key name, v, w) :: pairs (.object lefts) (.object rest) := by
            simp [pairs, branches, child?, hv]
          rw [hpairs, walkPairs_cons, ← ih]

/-- The items from `index` on are the remaining ones. -/
theorem walkItems_eq (path : Path) (index : Nat) (items lefts rights : List Json)
    (hlefts : ∀ i, items[index + i]? = lefts[i]?) :
    walkItems options report path index lefts rights =
      walkPairs options report path
        ((rights.zipIdx index).filterMap fun (w, i) => items[i]?.map fun v => (.index i, v, w)) := by
  induction rights generalizing index lefts with
  | nil =>
      rw [walkItems]
      rfl
  | cons w rest ih =>
      have hfirst := hlefts 0
      cases lefts with
      | nil =>
          -- The left array is at its end, so no further index leads on in it.
          have hrest := ih (index + 1) [] fun i => by
            simpa [Nat.add_assoc, Nat.add_comm 1] using hlefts (i + 1)
          rw [walkItems, List.zipIdx_cons, List.filterMap_cons_none (by simpa using hfirst), ← hrest]
          cases rest <;> rfl
      | cons v lefts =>
          have hrest := ih (index + 1) lefts fun i => by
            simpa [Nat.add_assoc, Nat.add_comm 1] using hlefts (i + 1)
          rw [walkItems, List.zipIdx_cons,
            List.filterMap_cons_some (b := (.index index, v, w)) (by simpa using hfirst), walkPairs_cons, ← hrest]

/-- Below nested values the walk goes on to the children that they share. -/
theorem walk_nested {left right : Json} (h : nested left right = true) (path : Path) :
    walk options report path left right = (do
      checkKeys options path left right
      walkPairs options report path (pairs left right)) := by
  cases right with
  | array rights =>
      cases left with
      | array lefts =>
          have hpairs : walkItems options report path 0 lefts rights =
              walkPairs options report path (pairs (.array lefts) (.array rights)) := by
            rw [walkItems_eq options report path 0 lefts lefts rights fun i => by rw [Nat.zero_add]]
            simp [pairs, branches, child?, List.filterMap_map]
          rw [walk, hpairs, checkKeys]
          split <;> rfl
      | _ => cases h
  | object rights =>
      cases left with
      | object lefts =>
          rw [walk, walkMembers_eq, checkKeys]
          split <;> rfl
      | _ => cases h
  | _ => cases left <;> cases h

theorem walk_nested_eq_ok_iff {left right : Json} (h : nested left right = true) (path : Path) (found : List α) :
    walk options report path left right = .ok found ↔
      Passes options left right ∧ walkPairs options report path (pairs left right) = .ok found := by
  rw [walk_nested options report h, bind_eq_ok_iff, ← checkKeys_eq_ok_iff options h path]
  constructor
  · rintro ⟨_, hkeys, hfound⟩
    exact ⟨hkeys, hfound⟩
  · rintro ⟨hkeys, hfound⟩
    exact ⟨(), hkeys, hfound⟩

theorem admits_iff {left right : Json} (hr : right.Distinct) :
    Admits options left right ↔
      Passes options left right ∧ ∀ c ∈ pairs left right, Admits options c.2.1 c.2.2 :=
  forall_shared_iff hr (Passes options)

/-- A walk succeeds exactly if all shared locations pass, and reports those where it stops. -/
theorem walk_eq_ok_iff {left right : Json} (hr : right.Distinct) (path : Path) (found : List α) :
    walk options report path left right = .ok found ↔
      Admits options left right ∧
        found = (meetings left right).filterMap fun m => report.at? (path ++ m.1) m.2.1 m.2.2 := by
  -- The walk goes down the right value; the left one and the path change with every step.
  induction right using wellFounded_child.induction generalizing left path found with | _ right ih
  rw [admits_iff options hr]
  cases h : nested left right with
  | false =>
      rw [walk_of_not_nested options report h, meet_eq_ok_iff options report h, meetings_of_not_nested h,
        pairs_eq_nil hr h]
      simp only [List.not_mem_nil, false_imp_iff, implies_true, and_true, List.filterMap_cons, List.append_nil,
        List.filterMap_nil]
      cases report.at? path left right <;> rfl
  | true =>
      have hchild (c : Segment × Json × Json) (hc : c ∈ pairs left right) (part : List α) :
          walk options report (path ++ [c.1]) c.2.1 c.2.2 = .ok part ↔
            Admits options c.2.1 c.2.2 ∧
              part = (meetings c.2.1 c.2.2).filterMap fun m => report.at? (path ++ c.1 :: m.1) m.2.1 m.2.2 := by
        have hw := ((mem_pairs c.1 c.2.1 c.2.2).mp hc).1
        have hpart : walk options report (path ++ [c.1]) c.2.1 c.2.2 = .ok part ↔ _ :=
          ih c.2.2 (child_of_mem_pairs hc) (distinct_of_branches hr hw) (path ++ [c.1]) part
        simpa only [List.append_assoc, List.singleton_append] using hpart
      rw [walk_nested_eq_ok_iff options report h, and_assoc, walkPairs, map_eq_ok_iff]
      refine and_congr_right fun _ => ?_
      simp only [mapM_eq_ok_iff_of_forall hchild]
      have hfound : (((pairs left right).map fun c =>
            (meetings c.2.1 c.2.2).filterMap fun m => report.at? (path ++ c.1 :: m.1) m.2.1 m.2.2).flatten) =
          (meetings left right).filterMap fun m => report.at? (path ++ m.1) m.2.1 m.2.2 := by
        rw [meetings_nested h, List.filterMap_flatMap, ← List.flatMap_def]
        simp only [List.filterMap_map, Function.comp_def]
      constructor
      · rintro ⟨parts, ⟨hadmits, rfl⟩, rfl⟩
        exact ⟨hadmits, hfound⟩
      · rintro ⟨hadmits, rfl⟩
        exact ⟨_, ⟨hadmits, rfl⟩, hfound⟩

end Walk

end Alignment
end RecordSearch

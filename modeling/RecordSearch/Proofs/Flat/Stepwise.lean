import RecordSearch.Proofs.Flat.Leaves

/-!
# Expansion in single steps

An expansion takes lists apart: the only leaf of a level, the first leaf of a list, the first segment of every path.
Here each of these is a step of its own that fails if there is nothing to take, which is no error of the leaves but a
fault of the expansion itself.

* `takeFirst?`: the step; `none` stands for the fault.
* `levelInSteps`, `expandInSteps`: a level, and the whole expansion, with its tests in their order.
* `expandInSteps_eq`: the tests keep the fault away, whatever the leaves are.
-/

namespace RecordSearch

/-- The name that a segment is. -/
def Segment.name? : Segment → Option String
  | .key name => some name
  | .index _ => none

/-- The index that a segment is. -/
def Segment.index? : Segment → Option Nat
  | .key _ => none
  | .index i => some i

namespace Flat

/-- The first element of a list and the elements behind it, if there are any. -/
def takeFirst? {α : Type} : List α → Option (α × List α)
  | [] => none
  | a :: rest => some (a, rest)

/-- The first segment of the path of a leaf, and the leaf below that segment. -/
def splitLeaf? (leaf : Path × Scalar) : Option (Segment × Path × Scalar) := do
  let (segment, rest) ← takeFirst? leaf.1
  return (segment, rest, leaf.2)

/-- The leaves below a segment, among leaves that have been split. -/
def group (segment : Segment) (parts : List (Segment × Path × Scalar)) : Flat :=
  (parts.filter fun part => part.1 == segment).map (·.2)

/-- The object at `place` with the leaves that have been split. -/
def keyedInSteps (deeper : Path → Flat → ExceptT Error Option Json) (place : Path)
    (parts : List (Segment × Path × Scalar)) : ExceptT Error Option Json :=
  match parts.mapM fun part => part.1.name? with
  | none => throw (.mixedFlat place)
  | some names => do
      let members ← names.eraseDups.mapM fun name => do
        let value ← deeper (place ++ [.key name]) (group (.key name) parts)
        return (name, value)
      return .object members

/-- The array at `place` with the leaves that have been split. -/
def indexedInSteps (deeper : Path → Flat → ExceptT Error Option Json) (place : Path)
    (parts : List (Segment × Path × Scalar)) : ExceptT Error Option Json :=
  match parts.mapM fun part => part.1.index? with
  | none => throw (.mixedFlat place)
  | some indices =>
      match firstGap? indices.eraseDups.length indices with
      | some gap => throw (.emptyFlat (place ++ [.index gap]))
      | none => do
          let items ← (List.range indices.eraseDups.length).mapM fun i =>
            deeper (place ++ [.index i]) (group (.index i) parts)
          return .array items

/-- The value at `place` whose leaves these are. -/
def levelInSteps (deeper : Path → Flat → ExceptT Error Option Json) (place : Path) (flat : Flat) :
    ExceptT Error Option Json :=
  if flat.isEmpty then
    throw (.emptyFlat place)
  else if flat.any fun (path, _) => path.isEmpty then
    if 1 < flat.length then
      throw (.ambiguousFlat place)
    else do
      let (leaf, _) ← takeFirst? flat
      return leaf.2.toJson
  else do
    let (leaf, _) ← takeFirst? flat
    let (first, _) ← takeFirst? leaf.1
    let parts ← (flat.mapM splitLeaf? : Option (List (Segment × Path × Scalar)))
    match first with
    | .key _ => keyedInSteps deeper place parts
    | .index _ => indexedInSteps deeper place parts

/-- The value at `place` whose leaves these are, when their paths are at most `depth` long. -/
def withinInSteps : Nat → Path → Flat → ExceptT Error Option Json
  | 0 => levelInSteps fun place _ => throw (.emptyFlat place)
  | depth + 1 => levelInSteps (withinInSteps depth)

/-- The value whose leaves these are, or the error for them; `none` if a step found nothing to take. -/
def expandInSteps (flat : Flat) : Option (Except Error Json) :=
  (withinInSteps flat.depth [] flat).run

section Steps

variable {α β : Type}

theorem run_mapM_of_total (f : α → ExceptT Error Option β) (g : α → Except Error β) (xs : List α)
    (h : ∀ x ∈ xs, (f x).run = some (g x)) : (xs.mapM f).run = some (xs.mapM g) := by
  induction xs with
  | nil =>
      rfl
  | cons x xs ih =>
      obtain ⟨hx, hxs⟩ := List.forall_mem_cons.mp h
      rw [List.mapM_cons, List.mapM_cons, ExceptT.run_bind, hx]
      cases g x with
      | error e =>
          rfl
      | ok y =>
          have hrest := ih hxs
          simp only [Option.bind_eq_bind, Option.bind_some, ExceptT.run_bind, hrest]
          cases xs.mapM g <;> rfl

/-- The parts of a list of leaves none of which has an empty path. -/
theorem exists_mapM_splitLeaf? {flat : Flat} (h : ∀ leaf ∈ flat, leaf.1 ≠ []) :
    ∃ parts, flat.mapM splitLeaf? = some parts ∧
      (parts.mapM fun part => part.1.name?) = heads? flat ∧
      (parts.mapM fun part => part.1.index?) = headIndices? flat ∧
      ∀ segment, group segment parts = below segment flat := by
  induction flat with
  | nil =>
      exact ⟨[], rfl, rfl, rfl, fun _ => rfl⟩
  | cons leaf flat ih =>
      obtain ⟨path, scalar⟩ := leaf
      obtain ⟨hpath, hflat⟩ := List.forall_mem_cons.mp h
      obtain ⟨s, rest, rfl⟩ := List.exists_cons_of_ne_nil hpath
      obtain ⟨parts, hparts, hnames, hindices, hgroup⟩ := ih hflat
      refine ⟨(s, rest, scalar) :: parts, ?_, ?_, ?_, fun segment => ?_⟩
      · rw [List.mapM_cons, hparts]
        rfl
      · rw [List.mapM_cons, hnames, heads?, heads?, List.mapM_cons]
        cases s <;> rfl
      · rw [List.mapM_cons, hindices, headIndices?, headIndices?, List.mapM_cons]
        cases s <;> rfl
      · have hrest := hgroup segment
        by_cases hs : s = segment <;> simp_all [group, below]

variable {inSteps : Path → Flat → ExceptT Error Option Json} {deeper : Path → Flat → Except Error Json}
  (hdeeper : ∀ place flat, (inSteps place flat).run = some (deeper place flat))
include hdeeper

theorem run_keyedInSteps {parts : List (Segment × Path × Scalar)} {flat : Flat} (place : Path)
    (hnames : (parts.mapM fun part => part.1.name?) = heads? flat)
    (hgroup : ∀ segment, group segment parts = below segment flat) :
    (keyedInSteps inSteps place parts).run = some (expandKeyed deeper place flat) := by
  rw [keyedInSteps, expandKeyed, hnames]
  cases heads? flat with
  | none =>
      rfl
  | some names =>
      have hmembers := run_mapM_of_total (fun name => do
          let value ← inSteps (place ++ [.key name]) (group (.key name) parts)
          return (name, value))
        (fun name => do
          let value ← deeper (place ++ [.key name]) (below (.key name) flat)
          return (name, value)) names.eraseDups fun name _ => by
        rw [ExceptT.run_bind, hdeeper, hgroup]
        cases deeper (place ++ [.key name]) (below (.key name) flat) <;> rfl
      simp only [ExceptT.run_bind, hmembers, Option.bind_eq_bind, Option.bind_some]
      cases names.eraseDups.mapM (m := Except Error) (fun name => do
          let value ← deeper (place ++ [.key name]) (below (.key name) flat)
          return (name, value)) <;> rfl

theorem run_indexedInSteps {parts : List (Segment × Path × Scalar)} {flat : Flat} (place : Path)
    (hindices : (parts.mapM fun part => part.1.index?) = headIndices? flat)
    (hgroup : ∀ segment, group segment parts = below segment flat) :
    (indexedInSteps inSteps place parts).run = some (expandIndexed deeper place flat) := by
  rw [indexedInSteps, expandIndexed, hindices]
  cases headIndices? flat with
  | none =>
      rfl
  | some indices =>
      dsimp only
      cases firstGap? indices.eraseDups.length indices with
      | some gap =>
          rfl
      | none =>
          have hitems := run_mapM_of_total (fun i => inSteps (place ++ [.index i]) (group (.index i) parts))
            (fun i => deeper (place ++ [.index i]) (below (.index i) flat)) (List.range indices.eraseDups.length)
            fun i _ => by rw [hdeeper, hgroup]
          simp only [ExceptT.run_bind, hitems, Option.bind_eq_bind, Option.bind_some]
          cases (List.range indices.eraseDups.length).mapM fun i =>
            deeper (place ++ [.index i]) (below (.index i) flat) <;> rfl

/-- A level in steps is the level: its tests leave something to take for every step. -/
theorem run_levelInSteps (place : Path) (flat : Flat) :
    (levelInSteps inSteps place flat).run = some (expandLevel deeper place flat) := by
  cases flat with
  | nil =>
      rfl
  | cons leaf flat =>
      have hne : (leaf :: flat).isEmpty = false := rfl
      by_cases hany : ((leaf :: flat).any fun (path, _) => path.isEmpty) = true
      · cases flat with
        | nil =>
            simp only [levelInSteps, expandLevel, hne, hany]
            rfl
        | cons next flat =>
            have hlength : 1 < (leaf :: next :: flat).length := by
              simp
            simp only [levelInSteps, expandLevel, hne, hany, if_pos hlength]
            rfl
      · -- No path is empty, so every leaf can be split.
        have hstarted : ∀ other ∈ leaf :: flat, other.1 ≠ [] := by
          rintro ⟨_, x⟩ hmem rfl
          exact hany (List.any_eq_true.mpr ⟨([], x), hmem, rfl⟩)
        obtain ⟨parts, hparts, hnames, hindices, hgroup⟩ := exists_mapM_splitLeaf? hstarted
        obtain ⟨path, scalar⟩ := leaf
        obtain ⟨s, rest, rfl⟩ := List.exists_cons_of_ne_nil (hstarted _ List.mem_cons_self)
        have hkeyed := run_keyedInSteps hdeeper place hnames hgroup
        have hindexed := run_indexedInSteps hdeeper place hindices hgroup
        simp only [levelInSteps, expandLevel, hne, hany, hparts]
        cases s with
        | key name => exact hkeyed
        | index i => exact hindexed

end Steps

theorem run_withinInSteps (depth : Nat) (place : Path) (flat : Flat) :
    (withinInSteps depth place flat).run = some (expandWithin depth place flat) := by
  induction depth generalizing place flat with
  | zero => exact run_levelInSteps (fun _ _ => rfl) place flat
  | succ depth ih => exact run_levelInSteps ih place flat

theorem expandInSteps_eq (flat : Flat) : flat.expandInSteps = some flat.expand :=
  run_withinInSteps flat.depth [] flat

end Flat
end RecordSearch

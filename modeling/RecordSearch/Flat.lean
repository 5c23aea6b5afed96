import RecordSearch.Error

/-!
# Flat view

A value made of objects, arrays and scalars is listed as its leaves with their paths, and built again from such a
list.  Empty containers have no leaves, so they are lost in the list.
-/

namespace RecordSearch

/-- Leaves with their paths. -/
abbrev Flat := List (Path × Scalar)

namespace Flat

/-- The same leaves one segment further down. -/
def under (segment : Segment) (flat : Flat) : Flat :=
  flat.map fun (path, scalar) => (segment :: path, scalar)

/-- The leaves below a segment, with the rest of their paths. -/
def below (segment : Segment) (flat : Flat) : Flat :=
  flat.filterMap fun (path, scalar) =>
    match path with
    | s :: rest => if s = segment then some (rest, scalar) else none
    | [] => none

/-- The names that all paths start with, if they do. -/
def heads? (flat : Flat) : Option (List String) :=
  flat.mapM fun (path, _) =>
    match path with
    | .key name :: _ => some name
    | _ => none

/-- The indices that all paths start with, if they do. -/
def headIndices? (flat : Flat) : Option (List Nat) :=
  flat.mapM fun (path, _) =>
    match path with
    | .index i :: _ => some i
    | _ => none

/-- The first of the numbers below `n` that is missing from a list. -/
def firstGap? (n : Nat) (indices : List Nat) : Option Nat :=
  (List.range n).find? fun i => !indices.contains i

/-- The length of the longest path. -/
def depth (flat : Flat) : Nat :=
  flat.foldl (fun n (path, _) => max n path.length) 0

/-- The object at `place` whose leaves these are; `deeper` gives the values one segment further down. -/
def expandKeyed (deeper : Path → Flat → Except Error Json) (place : Path) (flat : Flat) : Except Error Json :=
  match heads? flat with
  | none => .error (.mixedFlat place)
  | some names => do
      let members ← names.eraseDups.mapM fun name => do
        let value ← deeper (place ++ [.key name]) (below (.key name) flat)
        return (name, value)
      return .object members

/-- The array at `place` whose leaves these are; its indices are the numbers below their count. -/
def expandIndexed (deeper : Path → Flat → Except Error Json) (place : Path) (flat : Flat) : Except Error Json :=
  match headIndices? flat with
  | none => .error (.mixedFlat place)
  | some indices =>
      let count := indices.eraseDups.length
      match firstGap? count indices with
      | some gap => .error (.emptyFlat (place ++ [.index gap]))
      | none => do
          let items ← (List.range count).mapM fun i => deeper (place ++ [.index i]) (below (.index i) flat)
          return .array items

/-- The value at `place` whose leaves these are: a scalar for the empty path alone, or else the container that the
first path starts in. -/
def expandLevel (deeper : Path → Flat → Except Error Json) (place : Path) (flat : Flat) : Except Error Json :=
  if flat.any fun (path, _) => path.isEmpty then
    match flat with
    | [(_, scalar)] => .ok scalar.toJson
    | _ => .error (.ambiguousFlat place)
  else
    match flat with
    | [] => .error (.emptyFlat place)
    | (.key _ :: _, _) :: _ => expandKeyed deeper place flat
    | _ => expandIndexed deeper place flat

/-- The value at `place` whose leaves these are, when their paths are at most `depth` long. -/
def expandWithin : Nat → Path → Flat → Except Error Json
  | 0 => expandLevel fun place _ => .error (.emptyFlat place)
  | depth + 1 => expandLevel (expandWithin depth)

/-- The value whose leaves these are. -/
def expand (flat : Flat) : Except Error Json :=
  expandWithin flat.depth [] flat

end Flat

namespace Json

mutual

/-- The leaves of a value, depth first. -/
def flatten : Json → Except TypeError Flat
  | .array items => flattenItems 0 items
  | .object members => flattenMembers members
  | leaf => (Scalar.ofJson leaf).map fun scalar => [([], scalar)]

/-- The leaves of items, the first of which has the given index. -/
def flattenItems (index : Nat) : List Json → Except TypeError Flat
  | [] => .ok []
  | v :: rest => do
      let first ← flatten v
      let others ← flattenItems (index + 1) rest
      return Flat.under (.index index) first ++ others

/-- The leaves of members. -/
def flattenMembers : List (String × Json) → Except TypeError Flat
  | [] => .ok []
  | (name, v) :: rest => do
      let first ← flatten v
      let others ← flattenMembers rest
      return Flat.under (.key name) first ++ others

end

end Json
end RecordSearch

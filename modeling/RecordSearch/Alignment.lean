import RecordSearch.Error

/-!
# Alignment of two values

Two values are walked together, in the order of the right one.  Every location that both share and that holds scalars,
or values of different types, is reported; strict options turn differences into errors.
-/

namespace RecordSearch

/-- A location that two values share. -/
inductive Alignment where
  /-- Scalars on both sides. -/
  | common (path : Path) (left right : Json)
  /-- Different types on the two sides. -/
  | differ (path : Path) (left right : Json)
deriving Repr, BEq

namespace Alignment

/-- Which differences are errors. -/
structure Options where
  /-- Names of members that the left object lacks, and arrays of different lengths. -/
  strictKeys : Bool := false
  /-- Different types at a shared location. -/
  strictTypes : Bool := false
deriving DecidableEq, Repr

/-- What is reported of a location with scalars and of one with different types. -/
structure Report (α : Type) where
  common : Path → Json → Json → Option α
  differ : Path → Json → Json → Option α

variable {α : Type}

/-- The type of a value, which must have one. -/
def typeOf (value : Json) : Except Error JsonType :=
  (JsonType.of value).mapError fun found => .type (.untyped found)

/-- The report on a location where the walk goes no further. -/
def meet (options : Options) (report : Report α) (path : Path) (left right : Json) : Except Error (List α) := do
  let leftType ← typeOf left
  let rightType ← typeOf right
  if leftType = .scalar ∧ rightType = .scalar then
    return (report.common path left right).toList
  else if options.strictTypes then
    .error (.typeMismatch path leftType rightType)
  else
    return (report.differ path left right).toList

/-- Names of members that only the right object has. -/
def extraNames (left right : Members) : List String :=
  (Members.names right).filter fun name => !Members.has name left

mutual

/-- The reports on the locations shared by two values that stand at `path`. -/
def walk (options : Options) (report : Report α) (path : Path) (left : Json) : Json → Except Error (List α)
  | .array rights =>
      match left with
      | .array lefts =>
          if options.strictKeys ∧ lefts.length ≠ rights.length then
            .error (.lengthMismatch path lefts.length rights.length)
          else
            walkItems options report path 0 lefts rights
      | _ => meet options report path left (.array rights)
  | .object rights =>
      match left with
      | .object lefts =>
          if options.strictKeys ∧ extraNames lefts rights ≠ [] then
            .error (.unexpectedKeys path (extraNames lefts rights))
          else
            walkMembers options report path lefts rights
      | _ => meet options report path left (.object rights)
  | right => meet options report path left right

/-- The reports on items that stand at the same indices, from `index` on. -/
def walkItems (options : Options) (report : Report α) (path : Path) (index : Nat) (lefts : List Json) :
    List Json → Except Error (List α)
  | [] => .ok []
  | right :: rights =>
      match lefts with
      | [] => .ok []
      | left :: lefts => do
          let first ← walk options report (path ++ [.index index]) left right
          let others ← walkItems options report path (index + 1) lefts rights
          return first ++ others

/-- The reports on members that have the same names. -/
def walkMembers (options : Options) (report : Report α) (path : Path) (lefts : Members) :
    List (String × Json) → Except Error (List α)
  | [] => .ok []
  | (name, right) :: rights =>
      match Members.get? name lefts with
      | none => walkMembers options report path lefts rights
      | some left => do
          let first ← walk options report (path ++ [.key name]) left right
          let others ← walkMembers options report path lefts rights
          return first ++ others

end

/-- The reports of the caller on the locations shared by two values. -/
def compareWith (options : Options) (report : Report α) (left right : Json) : Except Error (List α) :=
  walk options report [] left right

/-- The locations shared by two values. -/
def compare (options : Options) (left right : Json) : Except Error (List Alignment) :=
  compareWith options ⟨fun p l r => some (.common p l r), fun p l r => some (.differ p l r)⟩ left right

end Alignment
end RecordSearch

import RecordSearch.Text.Blank
import RecordSearch.Text.Decimal

/-!
# Versions

A document names the version of the format it is written in.  An engine reads the documents of its own major version
whose minor version is not above its own, whatever their patch.
-/

namespace RecordSearch

/-- A version `major.minor` or `major.minor.patch`. -/
structure Version where
  major : Nat
  minor : Nat
  patch : Option Nat
deriving DecidableEq, Repr

namespace Version

/-- The version of this engine. -/
def engine : Version := ⟨1, 1, some 0⟩

/-- The version that a text without blanks at its ends writes; each part fits in 64 bits. -/
def ofPieces? : List (List Char) → Option Version
  | [major, minor] => do
      some ⟨← Decimal.word? major, ← Decimal.word? minor, none⟩
  | [major, minor, patch] => do
      some ⟨← Decimal.word? major, ← Decimal.word? minor, some (← Decimal.word? patch)⟩
  | _ => none

/-- The version that a text writes, blanks at its ends apart. -/
def parse? (source : String) : Option Version :=
  ofPieces? ((Text.trim source.toList).splitOn '.')

/-- The text of a version. -/
def text (v : Version) : String :=
  let parts := [v.major, v.minor] ++ v.patch.toList
  ".".intercalate (parts.map fun n => String.ofList (Decimal.digits n))

/-- Documents of version `v` can be read by an engine of version `engine`. -/
def readableBy (v engine : Version) : Bool :=
  decide (v.major = engine.major ∧ v.minor ≤ engine.minor)

/-- Order of two patches; no patch comes before every patch. -/
def comparePatch : Option Nat → Option Nat → Ordering
  | none, none => .eq
  | none, some _ => .lt
  | some _, none => .gt
  | some a, some b => compare a b

/-- Order of two versions. -/
def order (a b : Version) : Ordering :=
  ((compare a.major b.major).then (compare a.minor b.minor)).then (comparePatch a.patch b.patch)

end Version
end RecordSearch

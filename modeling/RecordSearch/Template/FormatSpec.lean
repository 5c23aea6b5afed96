import RecordSearch.Scalar

/-!
# Format specifications

A placeholder may say how wide its text is to be, on which side the padding goes, and with which character.  The form
is `[[fill]align][width]`.
-/

namespace RecordSearch

/-- On which side the text stands. -/
inductive Align where
  | left
  | right
  | center
deriving DecidableEq, Repr

/-- The alignment that a character asks for. -/
def Align.ofChar? (c : Char) : Option Align :=
  if c = '<' then some .left
  else if c = '>' then some .right
  else if c = '^' then some .center
  else none

/-- Padding up to a width. -/
structure FormatSpec where
  fill : Char
  align : Option Align
  width : Nat
deriving DecidableEq, Repr

namespace FormatSpec

/-- The width that digits write, which fits in 64 bits; no digits write zero. -/
def width? (digits : List Char) : Option Nat :=
  if digits.isEmpty then some 0
  else (Decimal.ofDigits? digits).filter (· < Decimal.wordLimit)

/-- The specification with the given padding and written width. -/
def withWidth? (fill : Char) (align : Option Align) (digits : List Char) : Option FormatSpec :=
  (width? digits).map fun width => ⟨fill, align, width⟩

/-- The specification after its first character, unless that is a fill. -/
def unfilled? (spec : List Char) : Option FormatSpec :=
  match spec with
  | a :: rest =>
      match Align.ofChar? a with
      | some align => withWidth? ' ' (some align) rest
      | none => withWidth? ' ' none spec
  | [] => withWidth? ' ' none []

/-- The specification that a text writes.  A second character that asks for an alignment makes the first one the
fill. -/
def parse? (spec : List Char) : Option FormatSpec :=
  match spec with
  | fill :: a :: rest =>
      match Align.ofChar? a with
      | some align => withWidth? fill (some align) rest
      | none => unfilled? spec
  | _ => unfilled? spec

/-- Without a stated alignment integers stand on the right, other scalars on the left. -/
def alignOf (spec : FormatSpec) (value : Scalar) : Align :=
  spec.align.getD
    (match value with
     | .int _ => .right
     | _ => .left)

/-- The padding before and after a text that lacks `pad` characters; of an odd number the larger part follows. -/
def split (align : Align) (pad : Nat) : Nat × Nat :=
  match align with
  | .left => (0, pad)
  | .right => (pad, 0)
  | .center => (pad / 2, pad - pad / 2)

/-- The characters of a scalar padded to the width. -/
def apply (spec : FormatSpec) (value : Scalar) : List Char :=
  let text := value.text.toList
  let (before, after) := split (spec.alignOf value) (spec.width - text.length)
  List.replicate before spec.fill ++ text ++ List.replicate after spec.fill

end FormatSpec
end RecordSearch

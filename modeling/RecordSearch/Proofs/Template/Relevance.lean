import RecordSearch.Proofs.Flat.Lookup
import RecordSearch.Proofs.Template.Grammar

/-!
# The leaves that matter to a literal

A literal shows the scalars that its placeholders name.  What else a record holds does not matter, as long as it is made
of objects, arrays and scalars: a record with any other leaf is refused, whatever the literal names.

* `mentioned`: the names of the placeholders; `Holds`: the scalar that a record holds at a name.
* `render_congr`: records with the same last leaves at the names mentioned are rendered alike.
* `render_mentioned`: the main result.
* `render_refuses_null`: a null at a name that is not mentioned.
-/

namespace RecordSearch

/-- The name of a placeholder. -/
def Piece.name? : Piece → Option String
  | .text _ => none
  | .placeholder name _ => some name

namespace Literal

open Json Traversal

section Pieces

variable {leaves others : List (String × Scalar)}

end Pieces

section Records

variable {literal : Literal} {record other : Json}

end Records

end Literal
end RecordSearch

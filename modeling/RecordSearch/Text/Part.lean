/-!
# Parts of a text

Whether a text contains another one as consecutive characters.
-/

namespace RecordSearch.Text

/-- The characters of `part` follow each other somewhere in the text. -/
def hasPart (part : List Char) : List Char → Bool
  | [] => part.isEmpty
  | c :: rest => part.isPrefixOf (c :: rest) || hasPart part rest

theorem hasPart_iff (part text : List Char) : hasPart part text = true ↔ part <:+: text := by
  induction text with
  | nil => simp [hasPart]
  | cons c rest ih => simp [hasPart, List.infix_cons_iff, ih]

end RecordSearch.Text

import RecordSearch.Text.Decimal

/-!
# Paths

A path leads from a value to one of its parts, by the names of members and the indices of items.  In text its segments
are joined by a separator, usually a dot; read from text, every segment is a name.
-/

namespace RecordSearch

/-- One step of a path. -/
inductive Segment where
  | key (name : String)
  | index (i : Nat)
deriving DecidableEq, Repr

/-- The text of a segment. -/
def Segment.text : Segment → String
  | key name => name
  | index i => String.ofList (Decimal.digits i)

/-- A location inside a value. -/
abbrev Path := List Segment

namespace Path

/-- The separator that paths are usually written with. -/
def defaultSeparator : Char := '.'

/-- The path whose names are the pieces of a text between separators; the empty text is the empty path. -/
def parseWith (separator : Char) (source : String) : Path :=
  if source = "" then
    []
  else
    (source.toList.splitOn separator).map fun piece => .key (String.ofList piece)

/-- The path of a text with dots. -/
def parse (source : String) : Path :=
  parseWith defaultSeparator source

/-- The text of a path with a separator between its segments. -/
def joined (separator : Char) (path : Path) : String :=
  (String.singleton separator).intercalate (path.map Segment.text)

/-- The text of a path with dots. -/
def text (path : Path) : String :=
  joined defaultSeparator path

/-- A text is the text of the path that is read from it. -/
theorem joined_parseWith (separator : Char) (source : String) :
    joined separator (parseWith separator source) = source := by
  rw [← String.toList_inj]
  by_cases h : source = ""
  · subst h
    rfl
  · rw [parseWith, if_neg h, joined, String.toList_intercalate]
    simp [Function.comp_def, Segment.text, List.intercalate_splitOn]

@[simp] theorem text_parse (source : String) : (parse source).text = source :=
  joined_parseWith defaultSeparator source

/-- A path is read from its text as the names that its segments have in text, if none of these has a separator. -/
theorem parseWith_joined {separator : Char} {path : Path} (hne : joined separator path ≠ "")
    (h : ∀ s ∈ path, separator ∉ s.text.toList) :
    parseWith separator (joined separator path) = path.map fun s => .key s.text := by
  have hpath : path.map (String.toList ∘ Segment.text) ≠ [] := by
    intro hnil
    obtain rfl := List.map_eq_nil_iff.mp hnil
    exact hne rfl
  have hpieces : ∀ piece ∈ path.map (String.toList ∘ Segment.text), separator ∉ piece := by
    simpa using h
  rw [parseWith, if_neg hne, joined, String.toList_intercalate, String.toList_singleton, List.map_map,
    List.splitOn_intercalate separator hpieces hpath]
  simp

end Path
end RecordSearch

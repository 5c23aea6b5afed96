import RecordSearch.Template.Literal

/-!
# Templates

A template turns a record into the text shown for it.
-/

namespace RecordSearch

/-- A template. -/
inductive Template where
  /-- The record as indented JSON. -/
  | default
  /-- Text with placeholders. -/
  | literal (literal : Literal)
  /-- Templates one after the other. -/
  | concat (parts : List Template)
  /-- The template under the text of the scalar at `key`, or else the one under the empty name. -/
  | table (key : Path) (entries : List (String × Template))
  /-- A template for every item of the array at `key`, or of the record itself. -/
  | forEach (key : Option Path) (template : Template) (separator : String)
  /-- A template if there is a value at `key`. -/
  | ifKey (key : Path) (template : Template)
  /-- The template for the type of the value at `key`, rendered for that value. -/
  | byType (key : Path) (value array object : Template)
deriving Repr, BEq, Inhabited

end RecordSearch

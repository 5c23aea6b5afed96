import RecordSearch.Document.Selection
import RecordSearch.Text.Style

/-!
# Descriptions

What a document offers, as lines of text or as one JSON value: its records, its modes and the fields that a selection
of modes shows.  Groups are described with or without fields in them.
-/

namespace RecordSearch

/-- A line of a description. -/
inductive DescriptionLine where
  | heading (name : String) (records : Nat) (version : Version)
  | modes (names : List String)
  | group (depth : Nat)
  | field (depth : Nat) (name : String) (field : Field)
deriving Repr

namespace DescriptionLine

/-- What a line starts with at a depth. -/
def indent (depth : Nat) : String :=
  String.ofList (List.replicate (2 * depth) ' ')

/-- The words of a field: name, kind, key, and whether a query needs it. -/
def fieldText (color : Bool) (name : String) (field : Field) : String :=
  Style.green.apply color name ++ " " ++ Style.cyan.apply color field.kind.name ++ " at " ++ field.key.text ++
    if field.optional then "" else " (required)"

/-- The text of a line. -/
def text (color : Bool) : DescriptionLine → String
  | heading name records version =>
      Style.bold.apply color name ++ " " ++ String.ofList (Decimal.digits records) ++ " records, format " ++ version.text
  | modes names => "  modes: " ++ ", ".intercalate names
  | group depth => indent depth ++ Style.dimmed.apply color "group"
  | field depth name f => indent depth ++ fieldText color name f

end DescriptionLine

namespace Document

/-- The line of a field, unless the field is not shown. -/
def fieldLines (doc : Document) (shown : Option (List String)) (depth : Nat) (name : String) : List DescriptionLine :=
  if shows shown name then ((doc.database.field? name).map (DescriptionLine.field depth name)).toList else []

mutual

/-- The lines of a layout at a depth. -/
def layoutLines (doc : Document) (shown : Option (List String)) (depth : Nat) : Layout → List DescriptionLine
  | .field name => doc.fieldLines shown depth name
  | .group items => .group depth :: layoutLinesOf doc shown (depth + 1) items

/-- The lines of layouts at a depth. -/
def layoutLinesOf (doc : Document) (shown : Option (List String)) (depth : Nat) : List Layout → List DescriptionLine
  | [] => []
  | item :: rest => layoutLines doc shown depth item ++ layoutLinesOf doc shown depth rest

end

/-- The lines that describe a document. -/
def describe (doc : Document) (selected : List String) : List DescriptionLine :=
  .heading doc.name doc.database.records.length doc.version ::
    (if doc.modes.isEmpty then [] else [.modes doc.modes]) ++
    doc.layoutLinesOf (doc.shown? selected) 1 doc.layout

/-- The text that describes a document. -/
def descriptionText (doc : Document) (selected : List String) (color : Bool) : String :=
  String.join ((doc.describe selected).map fun line => line.text color ++ "\n")

/-- The fields that are shown, in order. -/
def shownFields (doc : Document) (shown : Option (List String)) : List (String × Field) :=
  doc.database.fields.filter fun (name, _) => shows shown name

/-- The value that describes a document. -/
def descriptionJson (doc : Document) (selected : List String) : Json :=
  let fields := doc.shownFields (doc.shown? selected)
  .object [
    ("name", .string doc.name),
    ("version", .string doc.version.text),
    ("records", .int (Int64.ofNat doc.database.records.length)),
    ("fields", .object (fields.map fun (name, field) => (name, field.toJson))),
    ("layout", .array (Layout.toItems doc.layout)),
    ("modes", .array (doc.modes.map .string)),
    ("display_string", doc.template.toJson)]

end Document
end RecordSearch

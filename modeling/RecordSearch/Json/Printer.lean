import RecordSearch.Json.Basic
import RecordSearch.Json.Binary64.Shortest

/-!
# Written JSON

Two written forms of a value: the compact one has no blanks, the indented one puts every item and every member on a
line of its own, two spaces further in than its container.
-/

namespace RecordSearch

namespace Json

/-- How a character is written inside a string. -/
def escapedChar (c : Char) : List Char :=
  if c = '"' then ['\\', '"']
  else if c = '\\' then ['\\', '\\']
  else if c = '\x08' then ['\\', 'b']
  else if c = '\x0c' then ['\\', 'f']
  else if c = '\n' then ['\\', 'n']
  else if c = '\r' then ['\\', 'r']
  else if c = '\t' then ['\\', 't']
  else if c.toNat < 0x20 then ['\\', 'u', '0', '0', Nat.digitChar (c.toNat / 16), Nat.digitChar (c.toNat % 16)]
  else [c]

/-- A string between quotes. -/
def stringChars (s : String) : List Char :=
  '"' :: s.toList.flatMap escapedChar ++ ['"']

/-- The text of a boolean. -/
def boolText : Bool → String
  | true => "true"
  | false => "false"

end Json

/-- The text of a number. -/
def Number.text : Number → String
  | .int value => String.ofList (Decimal.integer value.toInt)
  | .wide value => String.ofList (Decimal.digits value.toNat)
  | .float value => value.text

namespace Json

mutual

/-- The compact form. -/
def compactChars : Json → List Char
  | .null => "null".toList
  | .bool value => (boolText value).toList
  | .number value => value.text.toList
  | .string value => stringChars value
  | .array items => '[' :: (compactItems items).tail ++ [']']
  | .object members => '\x7b' :: (compactMembers members).tail ++ ['\x7d']

/-- Every item after a comma. -/
def compactItems : List Json → List Char
  | [] => []
  | v :: rest => ',' :: compactChars v ++ compactItems rest

/-- Every member after a comma. -/
def compactMembers : List (String × Json) → List Char
  | [] => []
  | (n, v) :: rest => ',' :: stringChars n ++ ':' :: compactChars v ++ compactMembers rest

end

/-- The compact text of a value. -/
def compact (value : Json) : String :=
  String.ofList value.compactChars

/-- A line break and the indentation of a level. -/
def lineBreak (level : Nat) : List Char :=
  '\n' :: List.replicate (2 * level) ' '

mutual

/-- The indented form of a value that stands `level` containers deep. -/
def indentedChars (level : Nat) : Json → List Char
  | .null => "null".toList
  | .bool value => (boolText value).toList
  | .number value => value.text.toList
  | .string value => stringChars value
  | .array [] => ['[', ']']
  | .array (v :: rest) => '[' :: (indentedItems (level + 1) (v :: rest)).tail ++ lineBreak level ++ [']']
  | .object [] => ['\x7b', '\x7d']
  | .object (m :: rest) =>
      '\x7b' :: (indentedMembers (level + 1) (m :: rest)).tail ++ lineBreak level ++ ['\x7d']

/-- Every item after a comma, on its own line. -/
def indentedItems (level : Nat) : List Json → List Char
  | [] => []
  | v :: rest => ',' :: lineBreak level ++ indentedChars level v ++ indentedItems level rest

/-- Every member after a comma, on its own line. -/
def indentedMembers (level : Nat) : List (String × Json) → List Char
  | [] => []
  | (n, v) :: rest =>
      ',' :: lineBreak level ++ stringChars n ++ ':' :: ' ' :: indentedChars level v ++ indentedMembers level rest

end

/-- The indented text of a value. -/
def indented (value : Json) : String :=
  String.ofList (value.indentedChars 0)

end Json
end RecordSearch

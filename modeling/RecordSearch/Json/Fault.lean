import RecordSearch.Json.Printer
import RecordSearch.Json.Source
import RecordSearch.Text.Quoted

/-!
# Decoding faults

Why a text is no JSON, or why a value is not what was expected in its place; where in the value this was found, and
where in the text if there is one.
-/

namespace RecordSearch

/-- A step from a value to one of its parts. -/
inductive Step where
  | member (name : String)
  | element (index : Nat)
  /-- A member whose name could not be read. -/
  | unknown
deriving DecidableEq, Repr

namespace Step

/-- How a step is shown. -/
def text : Step → String
  | member name => name
  | element index => "[" ++ String.ofList (Decimal.digits index) ++ "]"
  | unknown => "?"

/-- How a step after another one is shown. -/
def nextText : Step → String
  | element index => (element index).text
  | step => "." ++ step.text

/-- How a sequence of steps is shown; a single dot stands for no step. -/
def pathText : List Step → String
  | [] => "."
  | step :: rest => step.text ++ String.join (rest.map nextText)

end Step

/-- How a text fails to be JSON. -/
inductive Lapse where
  | endInValue
  | endInList
  | endInObject
  | endInString
  | expectedColon
  | expectedListCommaOrEnd
  | expectedObjectCommaOrEnd
  | expectedIdentifier
  | expectedValue
  | invalidEscape
  | invalidNumber
  | numberOutOfRange
  | invalidCodePoint
  | controlCharacter
  | nameNotString
  | loneSurrogate
  | endOfHexEscape
  | trailingComma
  | trailingCharacters
  | recursionLimit
deriving DecidableEq, Repr

/-- The text of a lapse. -/
def Lapse.message : Lapse → String
  | endInValue => "EOF while parsing a value"
  | endInList => "EOF while parsing a list"
  | endInObject => "EOF while parsing an object"
  | endInString => "EOF while parsing a string"
  | expectedColon => "expected `:`"
  | expectedListCommaOrEnd => "expected `,` or `]`"
  | expectedObjectCommaOrEnd => "expected `,` or `\x7d`"
  | expectedIdentifier => "expected ident"
  | expectedValue => "expected value"
  | invalidEscape => "invalid escape"
  | invalidNumber => "invalid number"
  | numberOutOfRange => "number out of range"
  | invalidCodePoint => "invalid unicode code point"
  | controlCharacter => "control character (\\u0000-\\u001F) found while parsing a string"
  | nameNotString => "key must be a string"
  | loneSurrogate => "lone leading surrogate in hex escape"
  | endOfHexEscape => "unexpected end of hex escape"
  | trailingComma => "trailing comma"
  | trailingCharacters => "trailing characters"
  | recursionLimit => "recursion limit exceeded"

/-- How a value is named where another one was expected. -/
def Json.described : Json → String
  | .null => "null"
  | .bool value => "boolean `" ++ Json.boolText value ++ "`"
  | .number (.float value) => "floating point `" ++ value.text ++ "`"
  | .number value => "integer `" ++ value.text ++ "`"
  | .string value => "string " ++ Text.quoted value
  | .array _ => "sequence"
  | .object _ => "map"

/-- How a value fails to be what is expected in its place. -/
inductive Misfit where
  | wrongType (found : Json) (expected : String)
  | wrongValue (found : Json) (expected : String)
  | unknownMember (name : String) (expected : List String)
  | duplicateMember (name : String)
  | missingMember (name : String)
  | excessItems (count : Nat)
  | noVariant (kind : String)
  /-- A string of the right kind has no meaning here, as the message says. -/
  | refused (message : String)
deriving Repr, BEq

namespace Misfit

/-- Names between backquotes as alternatives. -/
def alternatives : List String → String
  | [a] => "`" ++ a ++ "`"
  | [a, b] => "`" ++ a ++ "` or `" ++ b ++ "`"
  | names => "one of " ++ ", ".intercalate (names.map fun n => "`" ++ n ++ "`")

/-- The text of a misfit. -/
def message : Misfit → String
  | wrongType found expected => "invalid type: " ++ found.described ++ ", expected " ++ expected
  | wrongValue found expected => "invalid value: " ++ found.described ++ ", expected " ++ expected
  | unknownMember name expected => "unknown field `" ++ name ++ "`, expected " ++ alternatives expected
  | duplicateMember name => "duplicate field `" ++ name ++ "`"
  | missingMember name => "missing field `" ++ name ++ "`"
  | excessItems count =>
      "invalid length " ++ String.ofList (Decimal.digits count) ++ ", expected fewer elements in array"
  | noVariant kind => "data did not match any variant of untagged enum " ++ kind
  | refused message => message

/-- The misfit concerns the meaning of a string, not the kind of the value. -/
def isRefusal : Misfit → Bool
  | refused _ => true
  | _ => false

end Misfit

/-- Why decoding failed. -/
inductive Reason where
  | lapse (lapse : Lapse)
  | misfit (misfit : Misfit)
deriving Repr, BEq

/-- The text of a reason. -/
def Reason.message : Reason → String
  | lapse l => l.message
  | misfit m => m.message

/-- A failure to decode: the steps to the value concerned, the reason, and the place in the text. -/
structure Fault where
  path : List Step
  reason : Reason
  position : Option Position
deriving Repr, BEq

namespace Fault

/-- A misfit of a value that was not read from text. -/
def ofMisfit (m : Misfit) : Fault :=
  ⟨[], .misfit m, none⟩

/-- The fault of a part as a fault of the whole. -/
def under (step : Step) (fault : Fault) : Fault :=
  { fault with path := step :: fault.path }

/-- Where in a text a fault was found. -/
def placeText : Option Position → String
  | none => ""
  | some p =>
      " at line " ++ String.ofList (Decimal.digits p.line) ++ " column " ++ String.ofList (Decimal.digits p.column)

/-- The text of a fault. -/
def message (fault : Fault) : String :=
  "at JSON path " ++ Step.pathText fault.path ++ " → " ++ fault.reason.message ++ placeText fault.position

end Fault
end RecordSearch

import RecordSearch.Criteria
import RecordSearch.Field.Basic
import RecordSearch.Json.Fault
import RecordSearch.Version

/-!
# Errors

Everything that can go wrong, by its cause.  The wording is in one function for each type of cause.
-/

namespace RecordSearch

/-- Why the criteria for a field are refused. -/
inductive CriteriaError where
  | unknownOperator (text : String)
  | unknownComparison (text : String)
  | needsSet
  | needsSingle
  | outsideChoices (value : Scalar) (choices : List Scalar)
  | outsideChoicesAll (values choices : List Scalar)
  | belowMinimum (value min : Int64)
  | aboveMaximum (value max : Int64)
  | wrongShape (criteria : Criteria) (kind : FieldKind)
  | expectedArray
  | expectedInteger (found : Json)
  | expectedString (found : Json)
  | expectedText (found : Json)
  | missingOperand (name : String)
  | badSetting (name : String) (fault : Fault)
deriving Repr, BEq

/-- Why the definition of a field is refused. -/
inductive FieldError where
  | notObject
  | typeNotString (found : Json)
  | noType
  | undecodable (fault : Fault)
  | badValue (cause : TypeError)
  | crossedBounds (min max : Int64)
deriving Repr, BEq

/-- Why a template is refused, or cannot be rendered. -/
inductive TemplateError where
  | nameNotString (member : String) (found : Option Json)
  | tableNotObject
  | tableWithoutDefault
  | separatorNotString (found : Json)
  | noDefault
  | needsKey
deriving Repr, BEq

/-- Why the text of a literal is refused. -/
inductive PlaceholderError where
  | unsupportedSpec (spec source : String)
  | unnamed (source : String)
  | empty (source : String)
  | strayBrace (brace : Char) (source : String)
deriving DecidableEq, Repr

/-- Why a document is refused. -/
inductive DocumentError where
  | databaseNotObject
  | databaseWithoutData
  | databaseWithoutFields
  | fieldsNotObject
  | dataNotRecords
  | documentNotObject
  | withoutVersion
  | nameNotString (found : Json)
  | fieldsNotArray
  | withoutData
deriving Repr, BEq

/-- What went wrong. -/
inductive Error where
  | type (cause : TypeError)
  | unexpectedTypeAt (path : Path) (expected found : JsonType)
  | unexpectedKeys (path : Path) (names : List String)
  | lengthMismatch (path : Path) (left right : Nat)
  | typeMismatch (path : Path) (left right : JsonType)
  | emptyPath
  | notFound (path : Path)
  | emptyFlat (path : Path)
  | ambiguousFlat (path : Path)
  | mixedFlat (path : Path)
  | unknownFieldType (name : String)
  | invalidField (name : String) (cause : FieldError)
  | duplicateField (name : String)
  | missingField (name : String)
  | unknownField (name : String)
  | invalidCriteria (cause : CriteriaError)
  | inField (name : String) (cause : Error)
  | incompatibleVersion (found engine : Version)
  | invalidVersion (text : String)
  | ambiguousTemplate (value : Json)
  | invalidTemplate (cause : TemplateError)
  | invalidPlaceholder (cause : PlaceholderError)
  | missingLeaf (name : String)
  | malformedDocument (cause : DocumentError)
  | undecodable (fault : Fault)
deriving Repr, BEq

/-- The text of an integer. -/
def integerText (n : Int64) : String :=
  String.ofList (Decimal.integer n.toInt)

/-- A list of scalars in braces. -/
def scalarSetText (values : List Scalar) : String :=
  "\x7b" ++ ", ".intercalate (values.map fun v => v.toJson.compact) ++ "\x7d"

/-- The text of a type error. -/
def TypeError.message : TypeError → String
  | untyped found =>
      found.text ++ " is not a valid json type (expected object, array, string, integer or boolean)"
  | unexpected expected found => "expected json " ++ expected.text ++ ", got " ++ found.text

/-- The text of an error in criteria. -/
def CriteriaError.message : CriteriaError → String
  | unknownOperator text => "unknown operator `" ++ text ++ "`"
  | unknownComparison text => "unknown comparison `" ++ text ++ "`"
  | needsSet => "this field takes a set of values"
  | needsSingle => "this field takes a single value"
  | outsideChoices value choices =>
      "invalid value " ++ value.text ++ ", must be one of " ++ scalarSetText choices
  | outsideChoicesAll values choices =>
      "invalid values " ++ scalarSetText values ++ ", must be included in " ++ scalarSetText choices
  | belowMinimum value min => "invalid value " ++ integerText value ++ ", must be >= " ++ integerText min
  | aboveMaximum value max => "invalid value " ++ integerText value ++ ", must be <= " ++ integerText max
  | wrongShape criteria kind => criteria.shape ++ " criteria cannot be used on a " ++ kind.name ++ " field"
  | expectedArray => "expected an array of values"
  | expectedInteger found => "expected an integer, got " ++ found.compact
  | expectedString found => "expected a string, got " ++ found.compact
  | expectedText found => "expected text, got " ++ found.compact
  | missingOperand name => "missing `" ++ name ++ "`"
  | badSetting name fault => "`" ++ name ++ "`: " ++ fault.message

/-- The text of an error in the definition of a field. -/
def FieldError.message : FieldError → String
  | notObject => "must be a json object"
  | typeNotString found => "`type` must be a string, got " ++ found.compact
  | noType => "must have key `type`"
  | undecodable fault => fault.message
  | badValue cause => cause.message
  | crossedBounds min max => "min (" ++ integerText min ++ ") is greater than max (" ++ integerText max ++ ")"

/-- The text of an error in a template. -/
def TemplateError.message : TemplateError → String
  | nameNotString member found =>
      "`" ++ member ++ "` must be a string key, got " ++ (found.map Json.compact).getD "nothing"
  | tableNotObject => "`table` must be a json object"
  | tableWithoutDefault => "`table` requires a default display string under the empty key"
  | separatorNotString found => "`separator` must be a string, got " ++ found.compact
  | noDefault => "table has no default display string"
  | needsKey => "`forall` needs a key to iterate over an object"

/-- The text of an error in a literal. -/
def PlaceholderError.message : PlaceholderError → String
  | unsupportedSpec spec source => "unsupported format spec `" ++ spec ++ "` in " ++ Text.quoted source
  | unnamed source => "unnamed placeholder in " ++ Text.quoted source
  | empty source => "empty placeholder in " ++ Text.quoted source
  | strayBrace brace source => "single `" ++ String.singleton brace ++ "` in " ++ Text.quoted source

/-- The text of an error in a document. -/
def DocumentError.message : DocumentError → String
  | databaseNotObject => "json database must be a json object"
  | databaseWithoutData => "json database has no `data` member"
  | databaseWithoutFields => "json database has no `fields` member"
  | fieldsNotObject => "`fields` must map field names to specifications"
  | dataNotRecords => "`data` must be a json array or object"
  | documentNotObject => "document must be a json object"
  | withoutVersion => "missing `version`"
  | nameNotString found => "`name` must be a string, got " ++ found.compact
  | fieldsNotArray => "`fields` must be a json array"
  | withoutData => "missing `data`"

namespace Error

/-- A path between backquotes. -/
def backquoted (path : Path) : String :=
  "`" ++ path.text ++ "`"

/-- The text of an error. -/
def message : Error → String
  | type cause => cause.message
  | unexpectedTypeAt path expected found =>
      "expected json " ++ expected.text ++ " at " ++ backquoted path ++ ", got " ++ found.text
  | unexpectedKeys path names =>
      "right json has keys missing from left json under " ++ backquoted path ++ ": [" ++
        ", ".intercalate (names.map Text.quoted) ++ "]"
  | lengthMismatch path left right =>
      "json arrays under " ++ backquoted path ++ " differ in length: " ++
        String.ofList (Decimal.digits left) ++ " and " ++ String.ofList (Decimal.digits right)
  | typeMismatch path left right =>
      "value at " ++ backquoted path ++ " is a json " ++ left.text ++ " on the left and a json " ++ right.text ++
        " on the right"
  | emptyPath => "empty json path"
  | notFound path => "no value at " ++ backquoted path
  | emptyFlat path => "cannot expand empty flat json under " ++ backquoted path
  | ambiguousFlat path => "multiple json values for flat key " ++ backquoted path
  | mixedFlat path => "mixed object keys and array indices under " ++ backquoted path
  | unknownFieldType name => "unknown field type `" ++ name ++ "`"
  | invalidField name cause => "invalid specification for field `" ++ name ++ "`: " ++ cause.message
  | duplicateField name => "duplicated field name `" ++ name ++ "`"
  | missingField name => "field `" ++ name ++ "` must be specified"
  | unknownField name => "unknown search field `" ++ name ++ "`"
  | invalidCriteria cause => "invalid criteria: " ++ cause.message
  | inField name cause => "search field `" ++ name ++ "`: " ++ cause.message
  | incompatibleVersion found engine =>
      "document version " ++ found.text ++ " is incompatible with engine version " ++ engine.text
  | invalidVersion text => "invalid version `" ++ text ++ "`, expected `major.minor[.patch]`"
  | ambiguousTemplate value => "display string " ++ value.compact ++ " matches no known template signature"
  | invalidTemplate cause => "invalid display string: " ++ cause.message
  | invalidPlaceholder cause => "invalid placeholder in display string: " ++ cause.message
  | missingLeaf name => "display string key `" ++ name ++ "` is missing from the item"
  | malformedDocument cause => "malformed document: " ++ cause.message
  | undecodable fault => fault.message

/-- The texts of an error and of the errors that caused it. -/
def chain : Error → List String
  | inField name cause => message (inField name cause) :: chain cause
  | error => [error.message]

end Error

/-- The operator that a text spells. -/
def Operator.decode (text : String) : Except Error Operator :=
  match parse? text with
  | some operator => .ok operator
  | none => .error (.invalidCriteria (.unknownOperator text))

/-- The comparison that a text spells. -/
def Comparison.decode (text : String) : Except Error Comparison :=
  match parse? text with
  | some comparison => .ok comparison
  | none => .error (.invalidCriteria (.unknownComparison text))

/-- The version of a document that this engine reads. -/
def Version.check (text : String) : Except Error Version :=
  match parse? text with
  | none => .error (.invalidVersion text)
  | some version =>
      if version.readableBy engine then .ok version else .error (.incompatibleVersion version engine)

end RecordSearch

import RecordSearch.Template.Basic
import RecordSearch.Warning

/-!
# Written templates

Null, a scalar and an array write a default template, a literal and a concatenation.  An object writes the first kind
of template whose members it has; members that this kind does not have are passed over.
-/

namespace RecordSearch

namespace Template

/-- The kinds of templates that objects write. -/
inductive Signature where
  | table
  | forEach
  | ifKey
  | byType
deriving DecidableEq, Repr

namespace Signature

/-- The kinds in the order in which they are tried. -/
def all : List Signature :=
  [table, forEach, ifKey, byType]

/-- The members that a kind must have. -/
def required : Signature → List String
  | table => ["key", "table"]
  | forEach => ["forall", "display_string"]
  | ifKey => ["if_key", "display_string"]
  | byType => ["if_json_type", "json_value", "json_array", "json_object"]

/-- The members that a kind may have besides. -/
def permitted : Signature → List String
  | forEach => ["separator"]
  | _ => []

/-- The first kind all of whose required members are present. -/
def ofMembers? (members : Members) : Option Signature :=
  all.find? fun signature => signature.required.all fun name => Members.has name members

/-- The names that a kind has no use for. -/
def unusedNames (signature : Signature) (members : Members) : List String :=
  (Members.names members).filter fun name =>
    !signature.required.contains name && !signature.permitted.contains name

end Signature

/-- The path that the member of a name writes. -/
def keyPath (name : String) (members : Members) : Except Error Path :=
  match Members.get? name members with
  | some (.string key) => .ok (Path.parse key)
  | found => .error (.invalidTemplate (.nameNotString name found))

/-- The key of a repetition; a null means the record itself. -/
def forEachKey (members : Members) : Except Error (Option Path) :=
  match Members.get? "forall" members with
  | none | some .null => .ok none
  | some _ => (keyPath "forall" members).map some

/-- The separator of a repetition. -/
def separatorOf (members : Members) : Except Error String :=
  match Members.get? "separator" members with
  | none => .ok ""
  | some (.string separator) => .ok separator
  | some found => .error (.invalidTemplate (.separatorNotString found))

/-- The literal that a scalar value writes. -/
def literalOfJson (value : Json) : Except Error Template := do
  let scalar ← (Scalar.ofJson value).mapError .type
  return .literal (← Literal.ofScalar scalar)

mutual

/-- The template that a value writes. -/
def ofJson : Json → Decoding Template
  | .null => pure .default
  | .array items => do
      let parts ← ofItems items
      return .concat parts
  | .object members =>
      match Signature.ofMembers? members with
      | none => Decoding.fail (.ambiguousTemplate (.object members))
      | some signature => do
          Decoding.warn ((signature.unusedNames members).map .unusedInTemplate)
          match signature with
          | .table =>
              let key ← keyPath "key" members
              let entries ← tableOf members
              return .table key entries
          | .forEach =>
              let key ← forEachKey members
              let separator ← separatorOf members
              let template ← ofMember "display_string" members
              return .forEach key template separator
          | .ifKey =>
              let key ← keyPath "if_key" members
              let template ← ofMember "display_string" members
              return .ifKey key template
          | .byType =>
              let key ← keyPath "if_json_type" members
              let value ← ofMember "json_value" members
              let array ← ofMember "json_array" members
              let object ← ofMember "json_object" members
              return .byType key value array object
  | scalar => Decoding.ofExcept (literalOfJson scalar)

/-- The templates that items write. -/
def ofItems : List Json → Decoding (List Template)
  | [] => pure []
  | value :: rest => do
      let first ← ofJson value
      let others ← ofItems rest
      return first :: others

/-- The template that the member of a name writes, the default one if there is no such member. -/
def ofMember (name : String) : List (String × Json) → Decoding Template
  | [] => pure .default
  | (n, value) :: rest => if n = name then ofJson value else ofMember name rest

/-- The entries that the member `table` writes. -/
def tableOf : List (String × Json) → Decoding (List (String × Template))
  | [] => Decoding.fail (.invalidTemplate .tableNotObject)
  | (n, value) :: rest =>
      if n = "table" then
        match value with
        | .object entries =>
            if Members.has "" entries then ofEntries entries
            else Decoding.fail (.invalidTemplate .tableWithoutDefault)
        | _ => Decoding.fail (.invalidTemplate .tableNotObject)
      else
        tableOf rest

/-- The templates that members write, by name. -/
def ofEntries : List (String × Json) → Decoding (List (String × Template))
  | [] => pure []
  | (name, value) :: rest => do
      let first ← ofJson value
      let others ← ofEntries rest
      return (name, first) :: others

end

theorem ofJson_array (items : List Json) :
    ofJson (.array items) = (do let parts ← ofItems items; return .concat parts) := by
  rw [ofJson]

theorem ofItems_cons (value : Json) (rest : List Json) :
    ofItems (value :: rest) = (do let first ← ofJson value; let others ← ofItems rest; return first :: others) := by
  rw [ofItems]

/-- The template that a member writes is that of its value. -/
theorem ofMember_eq {name : String} {value : Json} {members : Members} (h : Members.get? name members = some value) :
    ofMember name members = ofJson value := by
  induction members with
  | nil => cases h
  | cons m rest ih =>
      obtain ⟨n, v⟩ := m
      rw [ofMember]
      by_cases hn : n = name
      · obtain rfl : v = value := by
          simpa [Members.get?_cons, hn] using h
        rw [if_pos hn]
      · rw [if_neg hn]
        exact ih (by simpa [Members.get?_cons, hn] using h)

theorem tableOf_cons_of_ne {name : String} (hname : name ≠ "table") (value : Json) (rest : Members) :
    tableOf ((name, value) :: rest) = tableOf rest := by
  cases value <;> simp [tableOf, hname]

theorem ofEntries_cons (name : String) (value : Json) (rest : Members) :
    ofEntries ((name, value) :: rest) =
      (do let first ← ofJson value; let others ← ofEntries rest; return (name, first) :: others) := by
  rw [ofEntries]

/-- The path of a key as a value. -/
def keyJson (key : Path) : Json :=
  .string key.text

/-- The member for a separator, which is left out if it is empty. -/
def separatorMembers (separator : String) : Members :=
  if separator = "" then [] else [("separator", .string separator)]

mutual

/-- The value that writes a template. -/
def toJson : Template → Json
  | .default => .null
  | .literal written => written.source.toJson
  | .concat parts => .array (toItems parts)
  | .table key entries => .object [("key", keyJson key), ("table", .object (toEntries entries))]
  | .forEach key template separator =>
      .object (("forall", (key.map keyJson).getD .null) :: ("display_string", toJson template) ::
        separatorMembers separator)
  | .ifKey key template => .object [("if_key", keyJson key), ("display_string", toJson template)]
  | .byType key value array object =>
      .object [("if_json_type", keyJson key), ("json_value", toJson value), ("json_array", toJson array),
        ("json_object", toJson object)]

/-- The values that write templates. -/
def toItems : List Template → List Json
  | [] => []
  | t :: rest => toJson t :: toItems rest

/-- The values that write templates, by name. -/
def toEntries : List (String × Template) → Members
  | [] => []
  | (name, t) :: rest => (name, toJson t) :: toEntries rest

end

end Template
end RecordSearch

import RecordSearch.Field.Json
import RecordSearch.Preferences

/-!
# Presentation of fields

An entry of a document defines a field and says how it is presented: its name, the modes that show it, and what its
criteria mean where a query does not say it.
-/

namespace RecordSearch

/-- How a field is presented, and what its criteria mean by default. -/
structure Presentation where
  name : String := ""
  /-- Integers suggested for the field. -/
  listed : List Int64 := []
  comparison : Option Comparison := none
  operator : Option Operator := none
  caseSensitive : Option Bool := none
  /-- The modes that show the field; without a list it is always shown. -/
  modes : Option (List String) := none
deriving DecidableEq, Repr, Inhabited

/-- One mode, or a list of modes. -/
def Expect.modes : Json → Except Fault (List String)
  | .string mode => .ok [mode]
  | value =>
      match Expect.list Expect.text value with
      | .ok modes => .ok modes.eraseDups
      | .error _ => .error (.ofMisfit (.noVariant "Modes"))

namespace Presentation

/-- What an entry says about the presentation of its field, before its name is known to be there. -/
structure Draft where
  name : Option String := none
  presentation : Presentation := {}

/-- The members of an entry that concern the presentation. -/
def shape : Shape Draft where
  label := "struct GuiSettings"
  slots := [
    .of "name" Expect.text fun value d => { d with name := some value },
    .of "listed" (Expect.list Expect.integer) fun value d =>
      { d with presentation := { d.presentation with listed := value } },
    .of "comparison" (Expect.optional Expect.comparison) fun value d =>
      { d with presentation := { d.presentation with comparison := value } },
    .of "operator" (Expect.optional Expect.operator) fun value d =>
      { d with presentation := { d.presentation with operator := value } },
    .of "case" (Expect.optional Expect.flag) fun value d =>
      { d with presentation := { d.presentation with caseSensitive := value } },
    .of "modes" (Expect.optional Expect.modes) fun value d =>
      { d with presentation := { d.presentation with modes := value } }]

/-- The members of an entry that concern the presentation, in the order of the shape. -/
def settingsOf (entry : Members) : Members :=
  shape.names.filterMap fun name => (Members.get? name entry).map fun value => (name, value)

/-- The members of an entry that define its field. -/
def definitionOf (entry : Members) : Members :=
  entry.filter fun (name, _) => !shape.names.contains name

/-- The name of an entry in messages. -/
def label (entry : Members) : String :=
  match Members.get? "name" entry with
  | some (.string name) => name
  | _ => "<unnamed>"

/-- The presentation that an entry gives. -/
def ofSettings (settings : Members) : Except Fault Presentation := do
  let draft ← shape.take {} (.object settings)
  match draft.name with
  | some name => return { draft.presentation with name := name }
  | none => .error (.ofMisfit (.missingMember "name"))

/-- The presentation that an entry gives, and the definition of its field. -/
def ofEntry (entry : Members) : Except Error (Presentation × Members) :=
  match ofSettings (settingsOf entry) with
  | .ok presentation => .ok (presentation, definitionOf entry)
  | .error fault => .error (.invalidField (label entry) (.undecodable fault))

end Presentation
end RecordSearch

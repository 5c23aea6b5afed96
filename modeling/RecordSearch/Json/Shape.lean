import RecordSearch.Json.Reader.Value

/-!
# Shapes

A shape lists the members that an object may have, and how the value of each changes a result that starts from
defaults.  An array of the values in the order of the list is accepted as well.  The same shape decodes a value and a
text.  A text is decoded while it is read, so of several faults the first in the text is reported.
-/

namespace RecordSearch

/-- A member that an object may have. -/
structure Slot (σ : Type) where
  name : String
  assign : Json → σ → Except Fault σ

/-- The members that an object may have, under the name of the whole. -/
structure Shape (σ : Type) where
  label : String
  slots : List (Slot σ)

/-- A slot that stores what `expect` reads. -/
def Slot.of {σ α : Type} (name : String) (expect : Json → Except Fault α) (store : α → σ → σ) : Slot σ :=
  ⟨name, fun value result => (expect value).map fun a => store a result⟩

namespace Shape

variable {σ : Type}

/-- The slot of a name. -/
def slot? (shape : Shape σ) (name : String) : Option (Slot σ) :=
  shape.slots.find? (·.name == name)

/-- The names of the members. -/
def names (shape : Shape σ) : List String :=
  shape.slots.map (·.name)

/-- A name that no member has. -/
def unknownMember (shape : Shape σ) (name : String) : Misfit :=
  .unknownMember name shape.names

/-! ## Values -/

/-- The result changed by members. -/
def takeMembers (shape : Shape σ) : Members → σ → Except Fault σ
  | [], result => .ok result
  | (name, value) :: rest, result =>
      match shape.slot? name with
      | none => .error ((Fault.ofMisfit (shape.unknownMember name)).under (.member name))
      | some slot => do
          let result ← (slot.assign value result).mapError (Fault.under (.member name))
          takeMembers shape rest result

/-- The result changed by the values of slots; the first of them stands at `index` among `count`. -/
def takeItems (slots : List (Slot σ)) (index count : Nat) (items : List Json) (result : σ) : Except Fault σ :=
  match items, slots with
  | [], _ => .ok result
  | _ :: _, [] => .error (.ofMisfit (.excessItems count))
  | value :: items, slot :: slots => do
      let result ← (slot.assign value result).mapError (Fault.under (.element index))
      takeItems slots (index + 1) count items result

/-- The result changed by a value. -/
def take (shape : Shape σ) (start : σ) : Json → Except Fault σ
  | .object members => shape.takeMembers members start
  | .array items => takeItems shape.slots 0 items.length items start
  | found => .error (.ofMisfit (.wrongType found shape.label))

end Shape

namespace Reader

/-- A fault of a value, in a text of which `unread` bytes are left. -/
def stopOf (fault : Fault) (unread : Nat) : Stop :=
  ⟨fault.path, fault.reason, unread⟩

/-- Reads a value for which `expect` waits.  A container of the wrong kind is refused before it is read. -/
def readFor {α : Type} (expect : Json → Except Fault α) (levels : Nat) (source : Source) : Reading Json :=
  let source := source.skipBlanks
  let probe : Option Json :=
    match source with
    | .char c :: _ => if c = '[' then some (.array []) else if c = '\x7b' then some (.object []) else none
    | _ => none
  match probe.map expect with
  | some (.error fault) => .error (stopOf fault source.width)
  | _ => Json.read levels source

/-- The rest of a source behind the end of an object, if the object ends here. -/
def afterObject (source : Source) : Source :=
  match source.skipBlanks with
  | .char '\x7d' :: rest => rest
  | rest => rest

/-- The rest of a source behind the end of an array or the next comma, whichever comes here. -/
def afterItem (source : Source) : Source :=
  match source.skipBlanks with
  | .char ']' :: rest => rest
  | .char ',' :: rest => Source.skipBlanks rest
  | rest => rest

/-- The bytes unread when a value before `rest` turns out not to fit: a refused meaning is found when the container
has ended, all else at once. -/
def unreadAt (fault : Fault) (rest ended : Source) : Nat :=
  match fault.reason with
  | .misfit m => if m.isRefusal then ended.width else rest.width
  | .lapse _ => rest.width

/-- Containers inside a shape may be nested so deep. -/
def innerLimit : Nat := Json.nestingLimit - 1

variable {σ : Type}

/-- Reads the value of a slot, and changes the result by it. -/
def readSlot (slot : Slot σ) (ended : Source → Source) (source : Source) (result : σ) : Reading σ :=
  match readFor (slot.assign · result) innerLimit source with
  | .error stop => .error stop
  | .ok (value, rest) =>
      match slot.assign value result with
      | .ok result => .ok (result, rest)
      | .error fault => .error (stopOf fault (unreadAt fault rest (ended rest)))

/-- Reads members from the one on whose name has just been opened; `seen` are the names before it. -/
def readMembers (shape : Shape σ) (fuel : Nat) (seen : List String) (source : Source) (result : σ) : Except Stop σ :=
  match fuel with
  | 0 => .error (.here .endInObject source)
  | fuel + 1 =>
      match Quoted.read source with
      | .error stop => .error (stop.under .unknown)
      | .ok (name, rest) =>
          match shape.slot? name with
          | none => .error ⟨[.member name], .misfit (shape.unknownMember name), (afterObject rest).width⟩
          | some slot =>
              if seen.contains name then
                .error ⟨[], .misfit (.duplicateMember name), (afterObject rest).width⟩
              else
                match Json.skipColon rest with
                | .error stop => .error stop
                | .ok rest =>
                    match readSlot slot afterObject rest result with
                    | .error stop => .error (stop.under (.member name))
                    | .ok (result, rest) =>
                        match Json.nextName rest with
                        | .error stop => .error stop
                        | .ok (none, _) => .ok result
                        | .ok (some rest, _) => readMembers shape fuel (name :: seen) rest result

/-- Fails unless an array ends here. -/
def endOfItems (source : Source) : Except Stop Unit :=
  match source.skipBlanks with
  | [] => .error (.peek .endInList [])
  | s :: rest =>
      if s = .char ']' then .ok ()
      else if s = .char ',' then
        match Source.skipBlanks rest with
        | .char ']' :: after => .error (.peek .trailingComma (.char ']' :: after))
        | after => .error (.peek .trailingCharacters after)
      else .error (.peek .trailingCharacters (s :: rest))

/-- Reads the values of slots, the first of which stands at `index`. -/
def readItems (slots : List (Slot σ)) (index : Nat) (source : Source) (result : σ) : Except Stop σ :=
  match slots with
  | [] => (endOfItems source).map fun _ => result
  | slot :: slots =>
      let next : Except Stop (Option Source) :=
        if index = 0 then
          match source.skipBlanks with
          | [] => .error (.peek .endInList [])
          | s :: rest => .ok (if s = .char ']' then none else some (s :: rest))
        else
          (Json.nextItem source).map (·.1)
      match next with
      | .error stop => .error stop
      | .ok none => .ok result
      | .ok (some source) =>
          match readSlot slot afterItem source result with
          | .error stop => .error (stop.under (.element index))
          | .ok (result, rest) => readItems slots (index + 1) rest result

/-- Reads an object or an array of the given shape. -/
def readShape (shape : Shape σ) (start : σ) (source : Source) : Except Stop σ :=
  match source.skipBlanks with
  | .char '\x7b' :: rest =>
      match Json.firstName rest with
      | .error stop => .error stop
      | .ok (none, _) => .ok start
      | .ok (some rest, _) => readMembers shape (Source.width rest + 1) [] rest start
  | .char '[' :: rest => readItems shape.slots 0 rest start
  | source =>
      match Json.read Json.nestingLimit source with
      | .error stop => .error stop
      | .ok (found, rest) => .error ⟨[], .misfit (.wrongType found shape.label), Source.width rest⟩

end Reader

/-- The result of a shape changed by a text. -/
def Shape.takeText {σ : Type} (shape : Shape σ) (start : σ) (source : Source) : Except Fault σ :=
  (Reader.readShape shape start source).mapError (Stop.fault source)

/-- The value that a text starts with, which `expect` waits for. -/
def Expect.fromText {α : Type} (expect : Json → Except Fault α) (text : String) : Except Fault α :=
  let source := Source.ofText text
  match Reader.readFor expect Json.nestingLimit source with
  | .error stop => .error (stop.fault source)
  | .ok (value, rest) =>
      (expect value).mapError fun fault => (Reader.stopOf fault (Source.width rest)).fault source

end RecordSearch

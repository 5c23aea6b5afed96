import RecordSearch.Json.Reader.Number
import RecordSearch.Json.Reader.Quoted

/-!
# Reading values

A value is read by recursive descent.  `fuel` bounds the number of steps; the length of the source is enough, for
every step takes a symbol.  `levels` is the number of containers that may still be opened.
-/

namespace RecordSearch.Json

/-- Containers may be nested so deep. -/
def nestingLimit : Nat := 127

/-- The value of a keyword whose first letter is read. -/
def readKeyword (letters : List Char) (value : Json) (source : Source) : Reading Json :=
  (Source.expect letters source).map fun rest => (value, rest)

/-- The symbol may start a number. -/
def startsNumber (c : Char) : Bool :=
  c == '-' || c.isDigit

/-- The rest of a source after the colon between name and value. -/
def skipColon (source : Source) : Except Stop Source :=
  match source.skipBlanks with
  | [] => .error (.peek .endInObject [])
  | s :: rest => if s = .char ':' then .ok rest else .error (.peek .expectedColon (s :: rest))

/-- The source after the comma that follows an item, or `none` at the end of the list with the source after it. -/
def nextItem (source : Source) : Except Stop (Option Source × Source) :=
  match source.skipBlanks with
  | [] => .error (.peek .endInList [])
  | s :: rest =>
      if s = .char ']' then .ok (none, rest)
      else if s = .char ',' then
        match Source.skipBlanks rest with
        | [] => .error (.peek .endInValue [])
        | t :: after =>
            if t = .char ']' then .error (.peek .trailingComma (t :: after)) else .ok (some (t :: after), rest)
      else .error (.peek .expectedListCommaOrEnd (s :: rest))

/-- The source after the quote that opens a first name, or `none` if the object is empty. -/
def firstName (source : Source) : Except Stop (Option Source × Source) :=
  match source.skipBlanks with
  | [] => .error ((Stop.peek .endInObject []).under .unknown)
  | s :: rest =>
      if s = .char '\x7d' then .ok (none, rest)
      else if s = .char '"' then .ok (some rest, rest)
      else .error ((Stop.peek .nameNotString (s :: rest)).under .unknown)

/-- The source after the quote that opens the next name, or `none` at the end of the object. -/
def nextName (source : Source) : Except Stop (Option Source × Source) :=
  match source.skipBlanks with
  | [] => .error ((Stop.peek .endInObject []).under .unknown)
  | s :: rest =>
      if s = .char '\x7d' then .ok (none, rest)
      else if s = .char ',' then
        match Source.skipBlanks rest with
        | [] => .error ((Stop.peek .endInValue []).under .unknown)
        | t :: after =>
            if t = .char '"' then .ok (some after, after)
            else if t = .char '\x7d' then .error ((Stop.peek .trailingComma (t :: after)).under .unknown)
            else .error ((Stop.peek .nameNotString (t :: after)).under .unknown)
      else .error ((Stop.peek .expectedObjectCommaOrEnd (s :: rest)).under .unknown)

mutual

/-- Reads a value. -/
def readValue (fuel levels : Nat) (source : Source) : Reading Json :=
  match fuel with
  | 0 => .error (.here .endInValue source)
  | fuel + 1 =>
      match source.skipBlanks with
      | [] => .error (.peek .endInValue [])
      | .stray b :: rest => .error (.peek .expectedValue (.stray b :: rest))
      | .char c :: rest =>
          if c = 'n' then readKeyword ['u', 'l', 'l'] .null rest
          else if c = 't' then readKeyword ['r', 'u', 'e'] (.bool true) rest
          else if c = 'f' then readKeyword ['a', 'l', 's', 'e'] (.bool false) rest
          else if c = '"' then (Quoted.read rest).map fun (s, rest) => (.string s, rest)
          else if startsNumber c then (Number.read (.char c :: rest)).map fun (n, rest) => (.number n, rest)
          else if c = '[' then
            match levels with
            | 0 => .error (.peek .recursionLimit (.char c :: rest))
            | levels + 1 => (readList fuel levels rest).map fun (items, rest) => (.array items, rest)
          else if c = '\x7b' then
            match levels with
            | 0 => .error (.peek .recursionLimit (.char c :: rest))
            | levels + 1 => (readObject fuel levels rest).map fun (members, rest) => (.object members, rest)
          else .error (.peek .expectedValue (.char c :: rest))

/-- Reads a list after its opening bracket. -/
def readList (fuel levels : Nat) (source : Source) : Reading (List Json) :=
  match fuel with
  | 0 => .error (.here .endInList source)
  | fuel + 1 =>
      match source.skipBlanks with
      | [] => .error (.peek .endInList [])
      | s :: rest => if s = .char ']' then .ok ([], rest) else readItems fuel levels 0 [] (s :: rest)

/-- Reads the items of a list from the one at `index` on; those `before` it come last first. -/
def readItems (fuel levels index : Nat) (before : List Json) (source : Source) : Reading (List Json) :=
  match fuel with
  | 0 => .error (.here .endInList source)
  | fuel + 1 =>
      match readValue fuel levels source with
      | .error stop => .error (stop.under (.element index))
      | .ok (v, rest) =>
          match nextItem rest with
          | .error stop => .error stop
          | .ok (none, rest) => .ok ((v :: before).reverse, rest)
          | .ok (some rest, _) => readItems fuel levels (index + 1) (v :: before) rest

/-- Reads an object after its opening brace. -/
def readObject (fuel levels : Nat) (source : Source) : Reading Members :=
  match fuel with
  | 0 => .error (.here .endInObject source)
  | fuel + 1 =>
      match firstName source with
      | .error stop => .error stop
      | .ok (none, rest) => .ok ([], rest)
      | .ok (some rest, _) => readMembers fuel levels [] rest

/-- Reads the members of an object from the one on whose name has just been opened. -/
def readMembers (fuel levels : Nat) (before : Members) (source : Source) : Reading Members :=
  match fuel with
  | 0 => .error (.here .endInObject source)
  | fuel + 1 =>
      match Quoted.read source with
      | .error stop => .error (stop.under .unknown)
      | .ok (name, rest) =>
          match skipColon rest with
          | .error stop => .error stop
          | .ok rest =>
              match readValue fuel levels rest with
              | .error stop => .error (stop.under (.member name))
              | .ok (v, rest) =>
                  let before := Members.insert name v before
                  match nextName rest with
                  | .error stop => .error stop
                  | .ok (none, rest) => .ok (before, rest)
                  | .ok (some rest, _) => readMembers fuel levels before rest

end

/-- The value that a source starts with, its containers nested at most `levels` deep.  What follows the value is
left. -/
def read (levels : Nat) (source : Source) : Reading Json :=
  readValue (3 * source.length + 3) levels source

/-- The value that a source starts with. -/
def ofSource (source : Source) : Except Fault Json :=
  match read nestingLimit source with
  | .ok (value, _) => .ok value
  | .error stop => .error (stop.fault source)

/-- The value that a text starts with. -/
def ofText (text : String) : Except Fault Json :=
  ofSource (Source.ofText text)

/-- The value that a sequence of bytes starts with. -/
def ofBytes (bytes : List UInt8) : Except Fault Json :=
  ofSource (Source.ofBytes bytes)

end RecordSearch.Json

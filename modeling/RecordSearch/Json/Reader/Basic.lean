import RecordSearch.Json.Fault

/-!
# Reading from a source

A reader takes what it reads off the front of a source.  When it stops, it tells how many bytes it has left unread;
the place of a fault in the text follows from that number.
-/

namespace RecordSearch

/-- A reader has stopped: the steps to the value it was reading, the reason, and the bytes left unread. -/
structure Stop where
  path : List Step
  reason : Reason
  unread : Nat
deriving Repr, BEq

namespace Stop

/-- A lapse at the front of what is left. -/
def here (l : Lapse) (rest : Source) : Stop :=
  ⟨[], .lapse l, rest.width⟩

/-- A lapse after the next byte of what is left, if there is one. -/
def peek (l : Lapse) (rest : Source) : Stop :=
  ⟨[], .lapse l, rest.width - 1⟩

/-- The stop in a part as a stop in the whole. -/
def under (step : Step) (stop : Stop) : Stop :=
  { stop with path := step :: stop.path }

/-- The fault in the source that a reader has stopped in. -/
def fault (source : Source) (stop : Stop) : Fault :=
  ⟨stop.path, stop.reason, some (source.positionAfter (source.width - stop.unread))⟩

end Stop

/-- What a reader gives: a value and the rest of the source, or where it stopped. -/
abbrev Reading (α : Type) := Except Stop (α × Source)

namespace Source

/-- The symbol is a blank of JSON. -/
def isBlank (s : Symbol) : Bool :=
  s == .char ' ' || s == .char '\n' || s == .char '\t' || s == .char '\r'

/-- The source from its first symbol on that is not blank. -/
def skipBlanks (source : Source) : Source :=
  source.dropWhile isBlank

/-- The value of a decimal digit. -/
def digit? : Symbol → Option Nat
  | .char c => if c.isDigit then some (c.toNat - '0'.toNat) else none
  | .stray _ => none

/-- The values of the digits at the front of a source, and the rest. -/
def spanDigits : Source → List Nat × Source
  | [] => ([], [])
  | s :: rest =>
      match digit? s with
      | some d => let (ds, after) := spanDigits rest; (d :: ds, after)
      | none => ([], s :: rest)

/-- The rest of a source after the given characters.  The first byte of another character is read. -/
def expect : List Char → Source → Except Stop Source
  | [], source => .ok source
  | _ :: _, [] => .error (.here .endInValue [])
  | c :: cs, s :: rest => if s = .char c then expect cs rest else .error (.peek .expectedIdentifier (s :: rest))

end Source
end RecordSearch

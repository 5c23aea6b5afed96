/-!
# Sources

A source is a text that is meant to be UTF-8: a sequence of characters and of bytes that belong to none.  Places in a
source are counted in bytes, so that they can be given for bytes that are no text as well.
-/

namespace RecordSearch

/-- A character, or a byte that starts no character. -/
inductive Symbol where
  | char (c : Char)
  | stray (byte : UInt8)
deriving DecidableEq, Repr

/-- The number of bytes of a symbol. -/
def Symbol.width : Symbol → Nat
  | .char c => c.utf8Size
  | .stray _ => 1

/-- A sequence of symbols. -/
abbrev Source := List Symbol

/-- A place in a source: its line, counted from one, and the bytes before it in this line. -/
structure Position where
  line : Nat
  column : Nat
deriving DecidableEq, Repr

namespace Source

/-- The number of bytes of a source. -/
def width (source : Source) : Nat :=
  source.foldl (fun n s => n + s.width) 0

/-- The source of a text. -/
def ofText (text : String) : Source :=
  text.toList.map .char

/-- The character that the bytes start with. -/
def charAt? (bytes : List UInt8) : Option Char :=
  [1, 2, 3, 4].findSome? fun n => (String.fromUTF8? ⟨(bytes.take n).toArray⟩).bind (·.toList.head?)

/-- The source of a sequence of bytes whose first `skip` ones belong to an earlier character. -/
def ofBytesAfter : Nat → List UInt8 → Source
  | _, [] => []
  | skip + 1, _ :: rest => ofBytesAfter skip rest
  | 0, b :: rest =>
      match charAt? (b :: rest) with
      | some c => .char c :: ofBytesAfter (c.utf8Size - 1) rest
      | none => .stray b :: ofBytesAfter 0 rest

/-- The source of a sequence of bytes. -/
def ofBytes (bytes : List UInt8) : Source :=
  ofBytesAfter 0 bytes

/-- The place `bytes` further in a source that goes on at `place`. -/
def positionFrom (place : Position) (bytes : Nat) : Source → Position
  | [] => place
  | s :: rest =>
      if bytes < s.width then
        ⟨place.line, place.column + bytes⟩
      else if s = .char '\n' then
        positionFrom ⟨place.line + 1, 0⟩ (bytes - 1) rest
      else
        positionFrom ⟨place.line, place.column + s.width⟩ (bytes - s.width) rest

/-- The place after the first `bytes` bytes of a source. -/
def positionAfter (source : Source) (bytes : Nat) : Position :=
  source.positionFrom ⟨1, 0⟩ bytes

end Source
end RecordSearch

import RecordSearch.Flat
import RecordSearch.Template.FormatSpec

/-!
# Literals

A literal is text with placeholders in braces, `\{name\}` or `\{name:spec\}`; a brace that is text is written twice.
A placeholder stands for the leaf of a record whose path in text is its name; a record that is itself a scalar has the
one leaf `value`.
-/

namespace RecordSearch

/-- A part of a literal. -/
inductive Piece where
  | text (text : String)
  | placeholder (name : String) (spec : Option FormatSpec)
deriving DecidableEq, Repr

/-- A literal: the scalar that it was written as, and its parts. -/
structure Literal where
  source : Scalar
  pieces : List Piece
deriving DecidableEq, Repr

namespace Literal

/-- The text read so far, the last character first, as a part unless it is empty. -/
def textPiece (read : List Char) : List Piece :=
  if read.isEmpty then [] else [.text (String.ofList read.reverse)]

/-- The placeholder of what stands between braces; `source` is the whole text. -/
def placeholder (source : String) (inner : List Char) : Except PlaceholderError Piece :=
  if inner.isEmpty then
    .error (.empty source)
  else
    let name := inner.takeWhile (· != ':')
    match inner.dropWhile (· != ':') with
    | [] => .ok (.placeholder (String.ofList name) none)
    | _ :: spec =>
        match FormatSpec.parse? spec with
        | none => .error (.unsupportedSpec (String.ofList spec) source)
        | some parsed =>
            if name.isEmpty then .error (.unnamed source)
            else .ok (.placeholder (String.ofList name) (some parsed))

mutual

/-- The parts of what follows the text `read`, the last character of which comes first. -/
def scanText (source : String) (read : List Char) : List Char → Except PlaceholderError (List Piece)
  | [] => .ok (textPiece read)
  | '\x7b' :: '\x7b' :: rest => scanText source ('\x7b' :: read) rest
  | '\x7d' :: '\x7d' :: rest => scanText source ('\x7d' :: read) rest
  | '\x7b' :: rest => do
      let others ← scanPlaceholder source [] rest
      return textPiece read ++ others
  | '\x7d' :: _ => .error (.strayBrace '\x7d' source)
  | c :: rest => scanText source (c :: read) rest

/-- The parts of what follows an opening brace and `inner`, the last character of which comes first. -/
def scanPlaceholder (source : String) (inner : List Char) : List Char → Except PlaceholderError (List Piece)
  | [] => .error (.strayBrace '\x7b' source)
  | '\x7b' :: _ => .error (.strayBrace '\x7b' source)
  | '\x7d' :: rest => do
      let piece ← placeholder source inner.reverse
      let others ← scanText source [] rest
      return piece :: others
  | c :: rest => scanPlaceholder source (c :: inner) rest

end

/-- The literal made of the text of a scalar. -/
def ofScalar (scalar : Scalar) : Except Error Literal :=
  match scanText scalar.text [] scalar.text.toList with
  | .ok pieces => .ok ⟨scalar, pieces⟩
  | .error cause => .error (.invalidPlaceholder cause)

/-- The literal that a text writes. -/
def parse (source : String) : Except Error Literal :=
  ofScalar (.str source)

/-- The leaves of a record under the names that placeholders use, in order. -/
def names (record : Json) : Except Error (List (String × Scalar)) := do
  match ← (JsonType.of record).mapError fun found => Error.type (.untyped found) with
  | .scalar => return [("value", ← (Scalar.ofJson record).mapError .type)]
  | _ =>
      let leaves ← record.flatten.mapError .type
      return leaves.map fun (path, scalar) => (Path.text path, scalar)

/-- The characters of a part, with the leaves in reverse order: of several leaves with one name the last counts. -/
def renderPiece (lastFirst : List (String × Scalar)) : Piece → Except Error (List Char)
  | .text text => .ok text.toList
  | .placeholder name spec =>
      match Members.get? name lastFirst with
      | none => .error (.missingLeaf name)
      | some scalar =>
          match spec with
          | none => .ok scalar.text.toList
          | some spec => .ok (spec.apply scalar)

/-- The characters of parts, one after the other. -/
def renderPieces (lastFirst : List (String × Scalar)) : List Piece → Except Error (List Char)
  | [] => .ok []
  | piece :: rest => do
      let first ← renderPiece lastFirst piece
      let others ← renderPieces lastFirst rest
      return first ++ others

/-- The text of a literal for a record. -/
def render (literal : Literal) (record : Json) : Except Error String := do
  let leaves ← names record
  return String.ofList (← renderPieces leaves.reverse literal.pieces)

end Literal
end RecordSearch

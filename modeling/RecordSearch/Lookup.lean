import RecordSearch.Error

/-!
# Lookup

The part of a value that a path leads to.  A name leads to the member of an object; in an array a name is read as an
index.  Nothing lies at the empty path.
-/

namespace RecordSearch.Json

/-- The part of a value that one segment leads to. -/
def step? (value : Json) (segment : Segment) : Option Json :=
  match value, segment with
  | .object members, .key name => Members.get? name members
  | .array items, .index i => items[i]?
  | .array items, .key name => (Decimal.unsigned? name.toList).bind fun i => items[i]?
  | _, _ => none

/-- The part of a value that the segments of a path lead to, one after the other. -/
def follow? (value : Json) : Path → Option Json
  | [] => some value
  | segment :: rest => (value.step? segment).bind (follow? · rest)

/-- The value at a path. -/
def get (root : Json) (path : Path) : Except Error Json :=
  if path = [] then
    .error .emptyPath
  else
    match root.follow? path with
    | some value => .ok value
    | none => .error (.notFound path)

/-- There is a value at a path. -/
def has (root : Json) (path : Path) : Bool :=
  (root.get path).isOk

/-- The value at a path, which must have the expected type. -/
def getTyped (root : Json) (path : Path) (expected : JsonType) : Except Error Json := do
  let value ← root.get path
  match expected.check value with
  | .ok () => .ok value
  | .error (.unexpected expected found) => .error (.unexpectedTypeAt path expected found)
  | .error (.untyped found) => .error (.type (.untyped found))

/-- Following a path is following its parts one after the other. -/
theorem follow?_append (value : Json) (p q : Path) :
    value.follow? (p ++ q) = (value.follow? p).bind (·.follow? q) := by
  induction p generalizing value with
  | nil => rfl
  | cons s p ih =>
      cases h : value.step? s with
      | none => simp [follow?, h]
      | some v => simp [follow?, h, ih]

end RecordSearch.Json

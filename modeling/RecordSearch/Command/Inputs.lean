import RecordSearch.Command.Invocation
import RecordSearch.Command.QueryFile
import RecordSearch.Command.Session
import RecordSearch.Document
import RecordSearch.Json.Pointer

/-!
# Inputs

What a command reads: preferences, documents and queries.
-/

namespace RecordSearch

/-- The preferences in the file at a path, if they can be read. -/
def Workspace.preferences (w : Workspace) (path : String) : Except PreferencesError Preferences := do
  let text ← (w.read path).mapError .unreadable
  (Preferences.ofText text).mapError .undecodable

/-- The name of a file without what stands behind its last dot; a dot at the start is part of the name. -/
def fileStem (path : String) : String :=
  let name := (pathNames path).getLast?.getD ""
  match name.toList.reverse.dropWhile (· ≠ '.') with
  | [] | ['.'] => name
  | _ :: stem => String.ofList stem.reverse

/-- The value in which the document of a file is found. -/
def Workspace.documentValue (w : Workspace) (pointer : Option String) (path : String) : Except LoadError Json := do
  let text ← (w.read path).mapError .unreadable
  let value ← (Json.ofText text).mapError .undecodable
  match pointer with
  | none => return value
  | some pointer =>
      match value.atPointer? pointer with
      | some inner => return inner
      | none => .error (.unmatchedPointer pointer)

namespace Run

/-- The preferences that hold.  If there is no file it is made, and if it cannot be used the standard preferences
hold; neither makes a command fail. -/
def preferences : Option String → Run Preferences
  | none => return .standard
  | some path => do
      let w ← workspace
      if w.has path then
        match w.preferences path with
        | .ok prefs => return prefs
        | .error cause => do
            notify [.preferencesUnused path cause]
            return .standard
      else
        match w.create path Preferences.standard.text with
        | .ok w => modify fun s => { s with workspace := w }
        | .error cause => notify [.preferencesNotCreated path cause]
        return .standard

/-- The paths that an input stands for. -/
def paths (input : String) : Run (List String) := do
  if Glob.isPattern input then
    let found ← ofExcept .badPattern ((← workspace).expand input)
    if found.isEmpty then throw (.unmatchedPattern input)
    return found
  else
    return [input]

/-- The document in the file at a path. -/
def document (pointer : Option String) (path : String) : Run Document := do
  let value ← ofExcept (.unloadable path) ((← workspace).documentValue pointer path)
  ofDecoding (fun error => .unloadable path (.refused error)) (Document.ofJson (fileStem path) value)

/-- The documents of all inputs, in order.  The inputs are resolved before the first document is read. -/
def documents (settings : InputSettings) : Run (List Document) := do
  let found ← settings.inputs.mapM paths
  found.flatten.mapM (document settings.pointer)

/-- The criteria of a search, and the operator of a query file. -/
def query : QuerySource → Run QueryFile
  | .none => return {}
  | .file path => do
      let text ← ofExcept (.unreadableQuery path) ((← workspace).read path)
      ofExcept (.invalidQueryFile path) (QueryFile.ofText text)
  | .written criteria => do
      return { criteria := ← ofExcept .criteriaNotObject (Expect.fromText Expect.members criteria) }

end Run
end RecordSearch

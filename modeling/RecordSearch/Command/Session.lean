import RecordSearch.Warning
import RecordSearch.Workspace.Expansion

/-!
# Sessions

While a command runs, it prints, gives notices and may make a file.  All of this is kept when it fails.
-/

namespace RecordSearch

/-- Why a document could not be loaded. -/
inductive LoadError where
  | unreadable (cause : AccessError)
  | undecodable (fault : Fault)
  | unmatchedPointer (pointer : String)
  | refused (cause : Error)

/-- Why a command failed. -/
inductive Failure where
  | badPattern (flaw : Glob.Flaw)
  | unmatchedPattern (pattern : String)
  | unloadable (path : String) (cause : LoadError)
  | unreadableQuery (path : String) (cause : AccessError)
  | invalidQueryFile (path : String) (fault : Fault)
  | criteriaNotObject (fault : Fault)
  | invalidQuery (document : String) (cause : Error)
  | searchFailed (document : String) (cause : Error)

/-- The texts of a load error and of what caused it. -/
def LoadError.chain : LoadError → List String
  | unreadable cause => [cause.message]
  | undecodable fault => [fault.message]
  | unmatchedPointer pointer => ["JSON pointer " ++ pointer ++ " matches nothing"]
  | refused cause => cause.chain

namespace Failure

/-- The texts of a failure and of what caused it, the outermost first. -/
def chain : Failure → List String
  | badPattern flaw => [flaw.message]
  | unmatchedPattern pattern => ["glob pattern matched no files: " ++ pattern]
  | unloadable path cause => ("failed to load " ++ path) :: cause.chain
  | unreadableQuery path cause => ["failed to read query file " ++ path, cause.message]
  | invalidQueryFile path fault => ["invalid query file " ++ path, fault.message]
  | criteriaNotObject fault => ["--criteria must be a json object", fault.message]
  | invalidQuery document cause => ("invalid query for `" ++ document ++ "`") :: cause.chain
  | searchFailed document cause => ("search failed in `" ++ document ++ "`") :: cause.chain

/-- The text of a failure with all that caused it. -/
def message (failure : Failure) : String :=
  ": ".intercalate failure.chain

end Failure

/-- Why the preferences of a file are not used. -/
inductive PreferencesError where
  | unreadable (cause : AccessError)
  | undecodable (fault : Fault)

/-- The text of an error of preferences. -/
def PreferencesError.message : PreferencesError → String
  | unreadable cause => cause.message
  | undecodable fault => fault.message

/-- What a command tells beside its output. -/
inductive Notice where
  | warning (warning : Warning)
  | preferencesNotCreated (path : String) (cause : AccessError)
  | preferencesUnused (path : String) (cause : PreferencesError)

namespace Notice

/-- The notice is about an error. -/
def isError : Notice → Bool
  | warning _ => false
  | _ => true

/-- The text of a notice. -/
def message : Notice → String
  | warning w => w.message
  | preferencesNotCreated path cause => "couldn't create preference file " ++ path ++ ": " ++ cause.message
  | preferencesUnused path cause =>
      "couldn't read preference file " ++ path ++ ": " ++ cause.message ++ "; using defaults"

/-- A notice as a line of a log. -/
def logText (notice : Notice) : String :=
  (if notice.isError then "ERROR " else "WARN ") ++ notice.message

end Notice

/-- What a command has done so far. -/
structure Session where
  workspace : Workspace
  stdout : String := ""
  stderr : String := ""
  notices : List Notice := []

/-- A part of a command, which may fail. -/
abbrev Run := ExceptT Failure (StateM Session)

namespace Run

/-- Prints a text. -/
def print (text : String) : Run Unit :=
  modify fun s => { s with stdout := s.stdout ++ text }

/-- Prints a text beside the output. -/
def report (text : String) : Run Unit :=
  modify fun s => { s with stderr := s.stderr ++ text }

/-- Gives notices. -/
def notify (notices : List Notice) : Run Unit :=
  modify fun s => { s with notices := s.notices ++ notices }

/-- A result, or a failure. -/
def ofExcept {ε α : Type} (wrap : ε → Failure) (result : Except ε α) : Run α :=
  match result with
  | .ok a => pure a
  | .error e => throw (wrap e)

/-- A decoding, whose warnings become notices. -/
def ofDecoding {α : Type} (wrap : Error → Failure) (decoding : Decoding α) : Run α := do
  notify (decoding.warnings.map .warning)
  ofExcept wrap decoding.result

/-- The workspace as it is now. -/
def workspace : Run Workspace := do
  return (← get).workspace

end Run
end RecordSearch

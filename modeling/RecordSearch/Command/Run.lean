import RecordSearch.Command.Arguments
import RecordSearch.Command.Inputs
import RecordSearch.Document.Description
import RecordSearch.Document.View

/-!
# Running commands

A command takes a workspace to its outcome: what it printed and made, and the failure that ended it, if one did.
-/

namespace RecordSearch

namespace Document

/-- The positions of the records that criteria find under a selection of modes. -/
def answer (doc : Document) (prefs : Preferences) (operator : Operator) (selected : List String) (criteria : Members) :
    Except Failure (List Nat) := do
  let query ← (doc.decodeQuery prefs (doc.keptCriteria selected criteria)).mapError (.invalidQuery doc.name)
  (doc.search query operator).mapError (.searchFailed doc.name)

/-- The line about the number of records found. -/
def countText (doc : Document) (hits : List Nat) (color : Bool) : String :=
  let count := "(" ++ String.ofList (Decimal.digits hits.length) ++ " matches)"
  Style.bold.apply color doc.name ++ " " ++ Style.dimmed.apply color count ++ "\n"

/-- The texts of the records found. -/
def hitTexts (doc : Document) (hits : List Nat) : List String :=
  ((View.new doc).renderAll hits).1

/-- The records found, as one value. -/
def hitsJson (doc : Document) (hits : List Nat) : Json :=
  .object [
    ("name", .string doc.name),
    ("matches", .array (hits.filterMap (doc.database.records[·]?)))]

end Document

namespace Run

/-- Prints a value over several lines. -/
def printJson (value : Json) : Run Unit :=
  print (value.indented ++ "\n")

/-- Describes documents. -/
def inspect (invocation : Invocation) (color : Bool) : Run Unit := do
  let found ← documents invocation.input
  if invocation.json then
    printJson (.array (found.map (·.descriptionJson invocation.modes)))
  else
    print (String.join (found.map (·.descriptionText invocation.modes color)))

/-- The records of a document that criteria find; what has to be said about the criteria is said. -/
def hits (prefs : Preferences) (operator : Operator) (selected : List String) (criteria : Members) (doc : Document) :
    Run (List Nat) := do
  notify ((doc.droppingWarnings selected criteria).map .warning)
  ofExcept id (doc.answer prefs operator selected criteria)

/-- Prints the records of a document that were found. -/
def printHits (prefs : Preferences) (color : Bool) (doc : Document) (found : List Nat) : Run Unit := do
  report (doc.countText found color)
  let texts := doc.hitTexts found
  unless texts.isEmpty do print (prefs.separator.intercalate texts ++ "\n")

/-- Searches documents one after the other. -/
def search (invocation : Invocation) (source : QuerySource) (operator : Option Operator) (prefs : Preferences)
    (color : Bool) : Run Unit := do
  let written ← query source
  let operator := (operator.or written.operator).getD prefs.operator
  let found ← documents invocation.input
  let answer := hits prefs operator invocation.modes written.criteria
  if invocation.json then
    let values ← found.mapM fun doc => do return doc.hitsJson (← answer doc)
    printJson (.array values)
  else
    found.forM fun doc => do printHits prefs color doc (← answer doc)

/-- Does what a command line asks for. -/
def invoke (invocation : Invocation) (color : Bool) : Run Unit := do
  let prefs ← preferences invocation.preferences
  match invocation.action with
  | .inspect => inspect invocation color
  | .search source operator => search invocation source operator prefs color

end Run

/-- What a command did, and why it failed if it did. -/
structure Outcome where
  session : Session
  failure : Option Failure

/-- The outcome of a command in a workspace. -/
def Invocation.run (invocation : Invocation) (w : Workspace) (color : Bool) : Outcome :=
  match (Run.invoke invocation color).run.run { workspace := w } with
  | (.ok (), session) => ⟨session, none⟩
  | (.error failure, session) => ⟨session, some failure⟩

/-- The files that a command made, with their locations. -/
def Outcome.created (outcome : Outcome) (w : Workspace) : List (List String × String) :=
  w.added outcome.session.workspace

end RecordSearch

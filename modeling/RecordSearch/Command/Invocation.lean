import RecordSearch.Operator

/-!
# Invocations

What a command line asks for: to describe documents, or to search them.
-/

namespace RecordSearch

/-- Where documents are taken from. -/
structure InputSettings where
  /-- Paths and glob patterns. -/
  inputs : List String
  /-- A pointer to the document inside each file. -/
  pointer : Option String
deriving DecidableEq, Repr

/-- Where the criteria of a search are written. -/
inductive QuerySource where
  | none
  /-- In a file, which may name an operator as well. -/
  | file (path : String)
  /-- On the command line. -/
  | written (criteria : String)
deriving DecidableEq, Repr

/-- What is done with the documents. -/
inductive Action where
  | inspect
  /-- The operator of the command line goes before all others. -/
  | search (query : QuerySource) (operator : Option Operator)
deriving DecidableEq, Repr

/-- What a command line asks for. -/
structure Invocation where
  action : Action
  input : InputSettings
  /-- The selected modes, which may be none. -/
  modes : List String
  /-- The answer is one JSON value. -/
  json : Bool
  /-- The path of the preferences, unless these are ignored. -/
  preferences : Option String
  verbose : Bool
deriving DecidableEq, Repr

/-- Why a command line asks for nothing. -/
inductive Usage where
  | wrong
  | help
  | version
deriving DecidableEq, Repr

end RecordSearch

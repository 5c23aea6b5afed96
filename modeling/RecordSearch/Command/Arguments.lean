import RecordSearch.Command.Invocation
import RecordSearch.Preferences

/-!
# Arguments

The grammar of the command line.  Options stand before or behind the name of the command, where options of the command
itself stand as well.  An option is written `--name`, or `-n` if it has a letter; its value is the next argument, or
stands behind `=`, or directly behind the letter.  Several letters may share one dash.  An argument that starts with a
dash is never a value.  Arguments are read from left to right, and the first mistake or request for help ends this.  The
values of an option are looked at when the next option starts, or the arguments end.
-/

namespace RecordSearch.Arguments

/-- How many values an option takes. -/
inductive Arity where
  | none
  | one
  | many
deriving DecidableEq, Repr

/-- What an option is about. -/
inductive Topic where
  | verbose
  | preferences
  | noPreferences
  | pointer
  | input
  | modes
  | json
  | query
  | criteria
  | operator
  | help
  | version
deriving DecidableEq, Repr

/-- An option. -/
structure Switch where
  topic : Topic
  long : String
  letter : Option Char := none
  arity : Arity := .none
  repeatable : Bool := false
deriving DecidableEq, Repr

/-- Options that stand before or behind the name of a command. -/
def anywhere : List Switch :=
  [⟨.verbose, "verbose", some 'v', .none, false⟩, ⟨.preferences, "prefs", none, .one, false⟩,
   ⟨.noPreferences, "no-prefs", none, .none, false⟩, ⟨.help, "help", some 'h', .none, false⟩]

/-- Options before the name of a command. -/
def leading : List Switch :=
  anywhere ++ [⟨.version, "version", some 'V', .none, false⟩]

/-- Options of every command. -/
def shared : List Switch :=
  anywhere ++
    [⟨.pointer, "json-pointer", none, .one, false⟩, ⟨.input, "input", some 'i', .many, true⟩,
     ⟨.modes, "modes", none, .one, true⟩, ⟨.json, "json", none, .none, false⟩]

/-- Options of a search. -/
def searching : List Switch :=
  shared ++
    [⟨.query, "query", some 'q', .one, false⟩, ⟨.criteria, "criteria", some 'c', .one, false⟩,
     ⟨.operator, "operator", none, .one, false⟩]

/-- A value that an option about a topic takes. -/
def Topic.admits : Topic → String → Bool
  | preferences, value => value != ""
  | query, value => value != ""
  | operator, value => (Operator.parse? value).isSome
  | _, _ => true

/-! ## Reading options -/

/-- Options with their values. -/
abbrev Given := List (Topic × List String)

/-- Some option about a topic was given. -/
def Given.has (given : Given) (topic : Topic) : Bool :=
  given.any (·.1 == topic)

/-- The values of all options about a topic. -/
def Given.values (given : Given) (topic : Topic) : List String :=
  given.flatMap fun (t, values) => if t = topic then values else []

/-- The value of the last option about a topic. -/
def Given.value? (given : Given) (topic : Topic) : Option String :=
  (given.values topic).getLast?

/-- How far the arguments have been read. -/
structure Progress where
  given : Given := []
  /-- The option started last, with its values so far. -/
  started : Option (Switch × List String) := none
  /-- The option started last takes further values. -/
  waiting : Bool := false
deriving DecidableEq, Repr

namespace Progress

/-- An option with all of its values is added. -/
def add (progress : Progress) (switch : Switch) (values : List String) : Except Usage Progress :=
  if switch.arity ≠ .none ∧ values.isEmpty then .error .wrong
  else if !values.all switch.topic.admits then .error .wrong
  else if !switch.repeatable && progress.given.has switch.topic then .error .wrong
  else .ok ⟨progress.given ++ [(switch.topic, values)], none, false⟩

/-- The option started last is closed. -/
def close (progress : Progress) : Except Usage Progress :=
  match progress.started with
  | none => .ok progress
  | some (switch, values) => ({ progress with started := none } : Progress).add switch values

/-- An option without values starts and ends. -/
def mark (progress : Progress) (switch : Switch) : Except Usage Progress := do
  let progress ← progress.close
  match switch.topic with
  | .help => .error .help
  | .version => .error .version
  | _ => progress.add switch []

/-- An option starts; `attached` is its only value if there is one. -/
def start (progress : Progress) (switch : Switch) (attached : Option String) : Except Usage Progress := do
  let progress ← progress.close
  match attached with
  | some value => progress.add switch [value]
  | none => .ok { progress with started := some (switch, []), waiting := true }

/-- The option started last takes one more value. -/
def take (progress : Progress) (value : String) : Progress :=
  match progress.started with
  | none => progress
  | some (switch, values) =>
      { progress with started := some (switch, values ++ [value]), waiting := switch.arity == .many }

/-- Reads `name` or `name=value`. -/
def readLong (progress : Progress) (switches : List Switch) (text : List Char) : Except Usage Progress :=
  let name := String.ofList (text.takeWhile (· ≠ '='))
  let value := (text.dropWhile (· ≠ '=')).tail?.map String.ofList
  match switches.find? (·.long == name) with
  | none => .error .wrong
  | some switch =>
      match switch.arity, value with
      | .none, none => progress.mark switch
      | .none, some _ => .error .wrong
      | _, value => progress.start switch value

/-- The value that stands directly behind a letter, with or without `=`. -/
def attached : List Char → Option String
  | [] => none
  | '=' :: value => some (String.ofList value)
  | value => some (String.ofList value)

/-- Reads letters, of which the last may have a value behind it. -/
def readLetters (progress : Progress) (switches : List Switch) : List Char → Except Usage Progress
  | [] => .ok progress
  | letter :: rest =>
      match switches.find? (·.letter == some letter) with
      | none => .error .wrong
      | some switch =>
          if switch.arity = .none then do readLetters (← progress.mark switch) switches rest
          else progress.start switch (attached rest)

end Progress

/-- What an argument looks like. -/
inductive Word where
  /-- Two dashes, behind which no option is read. -/
  | separator
  | long (text : List Char)
  | letters (text : List Char)
  | value (text : String)

/-- What an argument looks like; a single dash is a value. -/
def Word.of (argument : String) : Word :=
  match argument.toList with
  | ['-', '-'] => .separator
  | '-' :: '-' :: text => .long text
  | ['-'] => .value argument
  | '-' :: text => .letters text
  | _ => .value argument

/-! ## Commands -/

/-- Reads the options of a command. -/
def readOptions (switches : List Switch) (progress : Progress) : List String → Except Usage Given
  | [] => do return (← progress.close).given
  | argument :: rest =>
      match Word.of argument with
      | .separator => if rest.isEmpty then progress.close.map (·.given) else .error .wrong
      | .long text => do readOptions switches (← progress.readLong switches text) rest
      | .letters text => do readOptions switches (← progress.readLetters switches text) rest
      | .value text => if progress.waiting then readOptions switches (progress.take text) rest else .error .wrong

/-- The value of an option, given behind the name of the command or else before it. -/
def late? (before behind : Given) (topic : Topic) : Option String :=
  (behind.value? topic).or (before.value? topic)

/-- Where the criteria are written, unless this is said twice. -/
def querySource (given : Given) : Except Usage QuerySource :=
  match given.value? .query, given.value? .criteria with
  | none, none => .ok .none
  | some path, none => .ok (.file path)
  | none, some text => .ok (.written text)
  | some _, some _ => .error .wrong

/-- The pieces between the commas of a value. -/
def listed (value : String) : List String :=
  (value.toList.splitOn ',').map String.ofList

/-- What options before and behind the name of a command ask for. -/
def invocation (action : Action) (before behind : Given) : Except Usage Invocation :=
  let inputs := behind.values .input
  if inputs.isEmpty then .error .wrong
  else
    .ok {
      action
      input := ⟨inputs, behind.value? .pointer⟩
      modes := (behind.values .modes).flatMap listed
      json := behind.has .json
      preferences :=
        if before.has .noPreferences || behind.has .noPreferences then none
        else some ((late? before behind .preferences).getD Preferences.fileName)
      verbose := before.has .verbose || behind.has .verbose }

/-- The commands. -/
inductive Verb where
  | inspect
  | search
  | help
deriving DecidableEq, Repr

/-- The names of the commands. -/
def verbs : List (String × Verb) :=
  [("inspect", .inspect), ("search", .search), ("help", .help)]

/-- Reads the options behind the name of a command, and closes those before it. -/
def readCommand (verb : Verb) (before : Progress) (arguments : List String) : Except Usage Invocation :=
  match verb with
  | .inspect => do
      let behind ← readOptions shared {} arguments
      invocation .inspect (← before.close).given behind
  | .search => do
      let behind ← readOptions searching {} arguments
      let operator := (behind.value? .operator).bind Operator.parse?
      invocation (.search (← querySource behind) operator) (← before.close).given behind
  | .help =>
      match arguments with
      | [] => .error .help
      | [name] => .error (if (verbs.lookup name).isSome then .help else .wrong)
      | _ => .error .wrong

/-- Reads the options before the name of a command, and the command. -/
def readFrom (progress : Progress) : List String → Except Usage Invocation
  | [] => .error .wrong
  | argument :: rest =>
      match Word.of argument with
      | .separator => .error .wrong
      | .long text => do readFrom (← progress.readLong leading text) rest
      | .letters text => do readFrom (← progress.readLetters leading text) rest
      | .value text =>
          if progress.waiting then readFrom (progress.take text) rest
          else
            match verbs.lookup text with
            | some verb => readCommand verb progress rest
            | none => .error .wrong

/-- What the arguments of a command line ask for. -/
def read (arguments : List String) : Except Usage Invocation :=
  readFrom {} arguments

end RecordSearch.Arguments

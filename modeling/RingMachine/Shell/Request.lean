import RingMachine.CommandLine
import RingMachine.Shell.Filter

/-!
# Requests

Words are read from left to right, and the first one that cannot be accepted, or
that asks for the version, settles the matter. An option takes its value from
behind an equals sign or from the next word; each may be given once. A double
dash ends the options. A request is answered with the log filter that it asks for.

The modules of `Shell` stand around the library: they read words and log filters as
the command finds them, and no statement is about them.
-/

namespace RingMachine.CommandLine

-- ---------------------------------------------------------------------------
-- Words
-- ---------------------------------------------------------------------------

inductive Request
  | version
  | execute (arguments : Arguments)
  deriving DecidableEq, Repr

inductive UsageError
  | missingProgram
  | missingValue (name : String)
  | invalidValue (name value : String)
  | unexpectedValue (name : String)
  | repeated (name : String)
  | unknown (word : String)
  deriving DecidableEq, Repr

def UsageError.message : UsageError → String
  | missingProgram => "the program is missing"
  | missingValue name => "a value is required for " ++ name
  | invalidValue name value => "invalid value '" ++ value ++ "' for " ++ name
  | unexpectedValue name => "unexpected value for " ++ name
  | repeated name => name ++ " cannot be used more than once"
  | unknown word => "unexpected argument '" ++ word ++ "'"

inductive Word
  | escape
  | long (name : String) (value : Option String)
  | short (letter : Char)
  | plain (text : String)
  deriving DecidableEq, Repr

def Word.ofString (text : String) : Word :=
  match text.toList with
  | ['-', '-'] => escape
  | '-' :: '-' :: rest =>
    let name := String.ofList (rest.takeWhile (· != '='))
    match rest.dropWhile (· != '=') with
    | [] => long name none
    | _ :: value => long name (some (String.ofList value))
  | '-' :: letter :: _ => short letter
  | _ => plain text

structure Draft where
  program : Option String := none
  input : Option String := none
  data : Option String := none
  maxSteps : Option Nat := none
  logLevel : Option String := none
  trace : Bool := false
  disassemble : Bool := false
  deriving DecidableEq, Repr

namespace Draft

def once {α : Type} (name : String) (old : Option α) (value : α) : Except UsageError (Option α) :=
  if old.isSome then .error (.repeated name) else .ok (some value)

def path (name value : String) : Except UsageError String :=
  if value.isEmpty then .error (.missingValue name) else .ok value

def limit (name value : String) : Except UsageError Nat :=
  match Text.decimal? value with
  | none => .error (.invalidValue name value)
  | some limit => .ok limit

def setProgram (draft : Draft) (value : String) : Except UsageError Draft := do
  if draft.program.isSome then throw (.unknown value)
  return { draft with program := some (← path "PROGRAM" value) }

/-- Sets an option that takes a value; `none` for a name that is no such option. -/
def setValue? (draft : Draft) (name : String) : Option (String → Except UsageError Draft) :=
  match name with
  | "input" => some fun value => do
    return { draft with input := ← once name draft.input (← path name value) }
  | "data" => some fun value => do
    return { draft with data := ← once name draft.data (← path name value) }
  | "max-steps" => some fun value => do
    return { draft with maxSteps := ← once name draft.maxSteps (← limit name value) }
  | "log-level" => some fun value => do
    return { draft with logLevel := ← once name draft.logLevel value }
  | _ => none

def setFlag (draft : Draft) (name : String) : Except UsageError Draft :=
  match name with
  | "trace" => if draft.trace then .error (.repeated name) else .ok { draft with trace := true }
  | "disassemble" =>
    if draft.disassemble then .error (.repeated name) else .ok { draft with disassemble := true }
  | _ => .error (.unknown name)

def finish (draft : Draft) : Except UsageError Request :=
  match draft.program with
  | none => .error .missingProgram
  | some program =>
    .ok (.execute
      { program
        input := draft.input
        data := draft.data
        maxSteps := draft.maxSteps
        trace := draft.trace
        logLevel := draft.logLevel.getD "warn"
        disassemble := draft.disassemble })

def readPlain (draft : Draft) : List String → Except UsageError Request
  | [] => draft.finish
  | word :: rest => do (← draft.setProgram word).readPlain rest

def read (draft : Draft) : List String → Except UsageError Request
  | [] => draft.finish
  | word :: rest =>
    match Word.ofString word with
    | .escape => draft.readPlain rest
    | .plain text => do (← draft.setProgram text).read rest
    | .short 'V' => .ok .version
    | .short _ => .error (.unknown word)
    | .long name (some value) =>
      match draft.setValue? name with
      | some set => do (← set value).read rest
      | none => .error (.unexpectedValue name)
    | .long "version" none => .ok .version
    | .long name none =>
      match draft.setValue? name with
      | none => do (← draft.setFlag name).read rest
      | some set =>
        match rest with
        | [] => .error (.missingValue name)
        | value :: rest =>
          match Word.ofString value with
          | .plain value => do (← set value).read rest
          | _ => .error (.missingValue name)

end Draft

def Request.ofWords (words : List String) : Except UsageError Request :=
  ({} : Draft).read words

-- ---------------------------------------------------------------------------
-- Answers
-- ---------------------------------------------------------------------------

/-- The filter that is set for all commands if it makes sense, else everything for a
trace, else the filter of the command line. The latter comes with notes on its
directives that make no sense. -/
def Arguments.filter (arguments : Arguments) (setting : Option String) :
    Log.Filter × Array String :=
  match setting.bind Log.Filter.ofString? with
  | some filter => (filter, #[])
  | none =>
    let text := if arguments.trace then "trace" else arguments.logLevel
    (.ofString text, (Log.Filter.notes text).toArray)

def versionText : String := "bracket-exec 0.1.0\n"

def Request.respond {ω : Type} [Sink ω] (fuel : Nat) (setting : Option String) (host : Host)
    (sink : ω) : Request → Option (Report ω)
  | .version => some { exitCode := 0, sink := (print sink versionText.toUTF8.toList).2 }
  | .execute arguments =>
    let (filter, notes) := arguments.filter setting
    CommandLine.execute fuel arguments host filter.passes notes sink

end RingMachine.CommandLine

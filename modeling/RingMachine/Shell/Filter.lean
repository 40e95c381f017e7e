import RingMachine.Log
import RingMachine.Shell.Pattern

/-!
# Log filters

A filter is a comma-separated list of directives. Of the directives that hold
for a line the most specific decides, by the length of the target and then by
the number of fields, and the last of several alike. A line that none holds for
is dropped. A filter without directives lets errors through.

A directive is a level, which holds for every line, or it selects lines: by what
their target begins with, by a span around them, by a field they have. A level
may follow; without one all is told. Nothing here opens a span, so a directive
that asks for one, or for the value of a field, holds for no line. Such a value
is a number or a pattern all the same.

The parts of a directive are measured with the blanks around it left out, and
then cut from the text that has them. So behind blanks each part is cut early by
as many bytes, and a directive that is no level holds for no line.
-/

namespace RingMachine.Log

-- ---------------------------------------------------------------------------
-- Directives
-- ---------------------------------------------------------------------------

abbrev Threshold := Nat

def Level.verbosity : Level → Threshold
  | error => 1
  | warn => 2
  | info => 3
  | debug => 4
  | trace => 5

/-- Whether a line has a field; the message is one. -/
def Line.hasField (line : Line) (name : String) : Bool :=
  name == "message" || line.fields.any (·.1 == name)

def everything : Threshold := Level.trace.verbosity

/-- A threshold by its number or by its name in any mixture of case. -/
def threshold? (text : String) : Option Threshold :=
  match Text.decimal? text with
  | some number => if number ≤ everything then some number else none
  | none =>
    match text.toLower with
    | "off" => some 0
    | "error" => some Level.error.verbosity
    | "warn" => some Level.warn.verbosity
    | "info" => some Level.info.verbosity
    | "debug" => some Level.debug.verbosity
    | "trace" => some Level.trace.verbosity
    | _ => none

structure Directive where
  target : String := ""
  spanned : Bool := false
  fields : List String := []
  threshold : Threshold := everything
  deriving DecidableEq, Repr

namespace Directive

inductive Error
  | malformed
  | unknownLevel
  | unusablePattern (error : Pattern.Error)
  deriving DecidableEq, Repr

def Error.message : Error → String
  | malformed => "invalid filter directive"
  | unknownLevel =>
    "error parsing level filter: expected one of \"off\", \"error\", \"warn\", \"info\", " ++
      "\"debug\", \"trace\", or a number 0-5"
  | unusablePattern error => "invalid field filter: " ++ error.message

/-- Whether a directive may begin with a character: a bracket, a letter, a
numeral, or a mark that occurs in targets. -/
def mayBegin (c : Char) : Bool :=
  c == '[' || c == '-' || c == ':' || c == '_' || Text.isLetter c || Text.isNumeral c

def ofName (name : String) : Directive :=
  match threshold? name with
  | some threshold => { threshold }
  | none => { target := name }

/-- Adds a field by its name, or by its name and value. A value ends at the next
equals sign. -/
def withField (directive : Directive) (field : List Char) : Except Error Directive :=
  match field, field.dropWhile (· != '=') with
  | [], _ => .error .malformed
  | name, [] => .ok { directive with fields := [String.ofList name] }
  | _, _ :: rest =>
    let value := rest.takeWhile (· != '=')
    let spanned := { directive with spanned := true }
    if Text.isReal value then .ok spanned
    else
      match Pattern.check value with
      | .error error => .error (.unusablePattern error)
      | .ok _ => .ok spanned

/-- Adds what stands behind the opening bracket, up to the closing one: a span, a
field in braces, or both. The part of the text that is read next begins at
`offset`; what is left of it is given back. -/
def withSpan (directive : Directive) (text : List Char) (offset : Nat) (part : List Char) :
    Except Error (Directive × List Char) :=
  let name := part.takeWhile fun c => c != ']' && c != '\x7b'
  match part.drop name.length with
  | ']' :: rest => .ok ({ directive with spanned := true }, rest)
  | '\x7b' :: rest => do
    let field := rest.takeWhile (· != '\x7d')
    if field.length == rest.length then throw .malformed
    let written := Text.cut (offset + Text.byteSize name + 1) (Text.byteSize field) text
    let directive ← { directive with spanned := !name.isEmpty }.withField written
    match rest.drop field.length with
    | _ :: ']' :: rest => return (directive, rest)
    | _ => throw .malformed
  | _ => .error .malformed

def withLevel (directive : Directive) (level : List Char) : Except Error Directive :=
  if level.isEmpty then .ok directive
  else
    match threshold? (String.ofList level) with
    | some threshold => .ok { directive with threshold }
    | none => .error .unknownLevel

def ofString (name : String) : Except Error Directive :=
  let text := name.toList
  let body := Text.trim text
  let target := body.takeWhile fun c => c != '=' && c != '['
  let size := Text.byteSize target
  let directive : Directive := { target := String.ofList (Text.takeBytes size text) }
  if !body.head?.any mayBegin then .error .malformed
  else
    match body.drop target.length with
    | [] => .ok (ofName name)
    | '[' :: part => do
      let (directive, rest) ← directive.withSpan text (size + 1) part
      match rest with
      | [] => return directive
      | '=' :: rest =>
        directive.withLevel (Text.dropBytes (Text.byteSize body - Text.byteSize rest) text)
      | _ => throw .malformed
    | _ => directive.withLevel (Text.dropBytes (size + 1) text)

def holdsFor (directive : Directive) (line : Line) : Bool :=
  !directive.spanned && line.target.startsWith directive.target &&
    directive.fields.all line.hasField

def outranks (directive earlier : Directive) : Bool :=
  if directive.target.utf8ByteSize != earlier.target.utf8ByteSize then
    earlier.target.utf8ByteSize < directive.target.utf8ByteSize
  else if directive.fields.length != earlier.fields.length then
    earlier.fields.length < directive.fields.length
  else (compare earlier.fields directive.fields).isLE

end Directive

-- ---------------------------------------------------------------------------
-- Filters
-- ---------------------------------------------------------------------------

structure Filter where
  directives : List Directive
  deriving DecidableEq, Repr

namespace Filter

def ofDirectives (directives : List Directive) : Filter :=
  if directives.isEmpty then ⟨[{ threshold := Level.error.verbosity }]⟩ else ⟨directives⟩

def pieces (text : String) : List String :=
  (text.splitOn ",").filter (· != "")

def directive? (piece : String) : Option Directive :=
  (Directive.ofString piece).toOption

def ofString? (text : String) : Option Filter :=
  ((pieces text).mapM directive?).map ofDirectives

def ofString (text : String) : Filter :=
  ofDirectives ((pieces text).filterMap directive?)

def notes (text : String) : List String :=
  (pieces text).filterMap fun piece =>
    match Directive.ofString piece with
    | .ok _ => none
    | .error error => some ("ignoring `" ++ piece ++ "`: " ++ error.message)

def prefer (best : Option Directive) (directive : Directive) : Option Directive :=
  match best with
  | none => some directive
  | some earlier => if directive.outranks earlier then some directive else best

def thresholdFor (filter : Filter) (line : Line) : Threshold :=
  match (filter.directives.filter (·.holdsFor line)).foldl prefer none with
  | none => 0
  | some directive => directive.threshold

def passes (filter : Filter) (line : Line) : Bool :=
  line.level.verbosity ≤ filter.thresholdFor line

end Filter

end RingMachine.Log

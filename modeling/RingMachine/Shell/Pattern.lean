import RingMachine.Shell.Text

/-!
# Patterns

A pattern is a regular expression: atoms, sets and groups in a row, each with
repetitions behind it, and rows to choose from. Here a pattern is not matched
with anything; it is only told whether it can be compiled. It is read in one
pass, which keeps the groups that are open.

Flags in a group change how the rest of the group is read. A pattern is nested as
deep as its tree is high: a group, a repetition, a set, a choice and a row of
several parts are one level each above what they hold.

Patterns are compiled without tables of Unicode. So no class of digits, blanks
or word characters is known beyond ASCII, nor which letters are the same but for
their case, and a pattern that needs to know is refused.
-/

namespace RingMachine.Log.Pattern

-- ---------------------------------------------------------------------------
-- Options
-- ---------------------------------------------------------------------------

structure Options where
  verbose : Bool := false
  unicode : Bool := true
  caseless : Bool := false
  deriving DecidableEq, Repr

namespace Options

def set (options : Options) (flag : Char) (on : Bool) : Options :=
  match flag with
  | 'x' => { options with verbose := on }
  | 'u' => { options with unicode := on }
  | 'i' => { options with caseless := on }
  | _ => options

def flags : List Char := ['i', 'm', 's', 'U', 'u', 'R', 'x', '-']

/-- Reads flags up to the colon or the parenthesis that ends them. None is given
twice, the last is not the mark, and some are there before a parenthesis. -/
def read? (options : Options) (on : Bool) (seen : List Char) :
    List Char → Option (Options × List Char)
  | [] => none
  | c :: rest =>
    if c == ':' || c == ')' then
      if seen.head? == some '-' || c == ')' && seen.isEmpty then none
      else some (options, c :: rest)
    else if seen.contains c || !flags.contains c then none
    else read? (options.set c on) (on && c != '-') (c :: seen) rest

end Options

def skipFrom : Bool → List Char → List Char
  | _, [] => []
  | true, c :: rest => skipFrom (c != '\n') rest
  | false, c :: rest =>
    if Text.isBlank c then skipFrom false rest
    else if c == '#' then skipFrom true rest
    else c :: rest

def skip (options : Options) (text : List Char) : List Char :=
  if options.verbose then skipFrom false text else text

-- ---------------------------------------------------------------------------
-- Nesting
-- ---------------------------------------------------------------------------

structure Row where
  count : Nat := 0
  highest : Nat := 0
  deriving DecidableEq, Repr

namespace Row

def add (row : Row) (height : Nat) : Row :=
  ⟨row.count + 1, max row.highest height⟩

def height (row : Row) : Nat :=
  if row.count < 2 then row.highest else row.highest + 1

end Row

/-- The height of a row that may have others before it, of which the highest is
known. -/
def heightAfter (others : Option Nat) (row : Row) : Nat :=
  match others with
  | none => row.height
  | some height => max height row.height + 1

def nestingLimit : Nat := 250

-- ---------------------------------------------------------------------------
-- Atoms
-- ---------------------------------------------------------------------------

inductive Atom
  | literal (c : Char) (asByte : Bool)
  | shorthand (negated : Bool)
  | any
  | border
  /-- The beginning or the end of a word, or neither. -/
  | wordBorder
  deriving DecidableEq, Repr

namespace Atom

/-- Whether an atom can be compiled where it stands by itself. What could match
half a character is refused. -/
def admitted (options : Options) : Atom → Bool
  | literal c asByte => if options.unicode then !options.caseless else !asByte || c.toNat < 0x80
  | shorthand negated => !options.unicode && !negated
  | any => options.unicode
  | border => true
  | wordBorder => true

def admittedInSet (options : Options) : Atom → Bool
  | literal c _ => if options.unicode then !options.caseless else c.toNat < 0x80
  | shorthand negated => !options.unicode && !negated
  | _ => false

end Atom

def hexDigit? (c : Char) : Option Nat :=
  if c.isDigit then some (c.toNat - '0'.toNat)
  else if 'a' ≤ c ∧ c ≤ 'f' then some (c.toNat - 'a'.toNat + 10)
  else if 'A' ≤ c ∧ c ≤ 'F' then some (c.toNat - 'A'.toNat + 10)
  else none

def character? (codePoint : Nat) : Option Char :=
  if codePoint.isValidChar then some (Char.ofNat codePoint) else none

def fixedHex? (options : Options) (value : Nat) : Nat → List Char → Option (Nat × List Char)
  | 0, text => some (value, text)
  | count + 1, text =>
    match skip options text with
    | [] => none
    | c :: rest => do
      let digit ← hexDigit? c
      fixedHex? options (16 * value + digit) count rest

def bracedHex? (text : List Char) : Option (Nat × List Char) :=
  let digits := text.takeWhile fun c => (hexDigit? c).isSome
  match digits, text.drop digits.length with
  | _ :: _, '\x7d' :: rest =>
    some ((digits.filterMap hexDigit?).foldl (fun value digit => 16 * value + digit) 0, rest)
  | _, _ => none

/-- Reads the number of a character, by two, four or eight digits or in braces. -/
def codePoint? (options : Options) (count : Nat) (text : List Char) :
    Option (Atom × List Char) :=
  match skip options text with
  | '\x7b' :: rest => do
    let (value, rest) ← bracedHex? rest
    return (.literal (← character? value) false, rest)
  | text => do
    let (value, rest) ← fixedHex? options 0 count text
    return (.literal (← character? value) (count == 2), skip options rest)

def wordBorders : List String := ["start", "end", "start-half", "end-half"]

/-- Reads the name of a word border in braces. Braces that begin with no letter
are left, as they hold a count. -/
def wordBorder? (text : List Char) : Option (Atom × List Char) :=
  match text with
  | '\x7b' :: rest =>
    let name := rest.takeWhile fun c => c.isAlpha || c == '-'
    match name, rest.drop name.length with
    | [], [] => none
    | [], _ => some (.wordBorder, text)
    | name, '\x7d' :: rest =>
      if wordBorders.contains (String.ofList name) then some (.wordBorder, rest) else none
    | _, _ => none
  | _ => some (.wordBorder, text)

/-- Reads what stands behind a backslash. Marks of ASCII stand for themselves;
letters and digits without a meaning are refused. -/
def escape? (options : Options) : List Char → Option (Atom × List Char)
  | [] => none
  | c :: rest =>
    match c with
    | 'x' => codePoint? options 2 rest
    | 'u' => codePoint? options 4 rest
    | 'U' => codePoint? options 8 rest
    | 'd' | 's' | 'w' => some (.shorthand false, rest)
    | 'D' | 'S' | 'W' => some (.shorthand true, rest)
    | 'a' => some (.literal '\x07' false, rest)
    | 't' => some (.literal '\x09' false, rest)
    | 'n' => some (.literal '\x0a' false, rest)
    | 'v' => some (.literal '\x0b' false, rest)
    | 'f' => some (.literal '\x0c' false, rest)
    | 'r' => some (.literal '\x0d' false, rest)
    | 'A' | 'z' => some (.border, rest)
    | 'b' => wordBorder? rest
    | 'B' | '<' | '>' => some (.wordBorder, rest)
    | c => if c.toNat < 0x80 && !c.isAlphanum then some (.literal c false, rest) else none

-- ---------------------------------------------------------------------------
-- Sets
-- ---------------------------------------------------------------------------

structure SetLevel where
  operand : Option Nat := none
  row : Row := {}
  fresh : Bool := true
  deriving DecidableEq, Repr

namespace SetLevel

def add (level : SetLevel) (height : Nat) : SetLevel :=
  { level with row := level.row.add height, fresh := false }

def height (level : SetLevel) : Nat :=
  heightAfter level.operand level.row

def operate (level : SetLevel) : SetLevel :=
  { operand := some level.height, fresh := false }

end SetLevel

def classNames : List String :=
  ["alnum", "alpha", "ascii", "blank", "cntrl", "digit", "graph", "lower", "print", "punct",
    "space", "upper", "word", "xdigit"]

/-- Reads a class by its name between brackets and colons, and whether it is
negated. What is no such class is left to be read as a set. -/
def namedClass? : List Char → Option (Bool × List Char)
  | '[' :: ':' :: text =>
    let negated := text.head? == some '^'
    let text := if negated then text.drop 1 else text
    let name := text.takeWhile (· != ':')
    match text.drop name.length with
    | ':' :: ']' :: rest =>
      if classNames.contains (String.ofList name) then some (negated, rest) else none
    | _ => none
  | _ => none

/-- Reads the mark of a negated set. A set of bytes may not be negated. -/
def openSet? (options : Options) (text : List Char) : Option (List Char) :=
  match skip options text with
  | '^' :: rest => if options.unicode then some rest else none
  | text => some text

def member? (options : Options) : List Char → Option (Atom × List Char)
  | [] => none
  | '\\' :: rest => escape? options rest
  | c :: rest => some (.literal c false, rest)

/-- The character that decides whether a dash makes a range. Blanks before it are
skipped, and the mark of a comment, but not the comment. -/
def behindDash (options : Options) (text : List Char) : Option Char :=
  if options.verbose then
    match text.dropWhile Text.isBlank with
    | '#' :: comment => (comment.dropWhile Text.isBlank).head?
    | text => text.head?
  else text.head?

/-- Reads a member of a set, or a range from one character to a later one. A dash
before another one, or before the closing bracket, makes no range. -/
def range? (options : Options) (text : List Char) : Option (List Char) := do
  let (first, rest) ← member? options text
  match skip options rest with
  | '-' :: rest =>
    if behindDash options rest == some ']' || behindDash options rest == some '-' then
      if first.admittedInSet options then some ('-' :: rest) else none
    else
      let (last, rest) ← member? options (skip options rest)
      match first, last with
      | .literal low _, .literal high _ =>
        if low ≤ high && first.admittedInSet options && last.admittedInSet options then some rest
        else none
      | _, _ => none
  | rest => if first.admittedInSet options then some rest else none

inductive SetProgress
  | inside (level : SetLevel) (outer : List SetLevel)
  | closed (height : Nat)
  deriving DecidableEq, Repr

def SetLevel.step? (options : Options) (level : SetLevel) (outer : List SetLevel)
    (text : List Char) : Option (SetProgress × List Char) :=
  match skip options text with
  | [] => none
  | '[' :: rest =>
    match namedClass? ('[' :: rest) with
    | some (negated, rest) =>
      if if options.unicode then options.caseless else negated then none
      else some (.inside (level.add 0) outer, rest)
    | none => (openSet? options rest).map (.inside {} (level :: outer), ·)
  | ']' :: rest =>
    if level.fresh && level.row.count == 0 then
      if (Atom.literal ']' false).admittedInSet options then
        some (.inside (level.add 0) outer, rest)
      else none
    else
      match outer with
      | [] => some (.closed (level.height + 1), rest)
      | parent :: outer => some (.inside (parent.add (level.height + 1)) outer, rest)
  | '-' :: rest =>
    if level.fresh then
      if (Atom.literal '-' false).admittedInSet options then
        some (.inside { level with row := level.row.add 0 } outer, rest)
      else none
    else
      match rest with
      | '-' :: rest => some (.inside level.operate outer, rest)
      | rest => (range? options ('-' :: rest)).map (.inside (level.add 0) outer, ·)
  | '&' :: '&' :: rest => some (.inside level.operate outer, rest)
  | '~' :: '~' :: rest => some (.inside level.operate outer, rest)
  | text => (range? options text).map (.inside (level.add 0) outer, ·)

/-- Reads on to the end of a set. Each step takes something from the text. -/
def readSet? (options : Options) (level : SetLevel) (outer : List SetLevel) (text : List Char) :
    Option (Nat × List Char) :=
  match level.step? options outer text with
  | none => none
  | some (.closed height, rest) => some (height, rest)
  | some (.inside level outer, rest) =>
    if _h : rest.length < text.length then readSet? options level outer rest else none
termination_by text.length

def set? (options : Options) (text : List Char) : Option (Nat × List Char) := do
  readSet? options {} [] (← openSet? options text)

-- ---------------------------------------------------------------------------
-- Groups
-- ---------------------------------------------------------------------------

inductive Error
  /-- It is no pattern, or asks for tables there are not. -/
  | malformed
  /-- It asks for the borders of words beyond ASCII. -/
  | wordBorder
  deriving DecidableEq, Repr

def Error.message : Error → String
  | malformed => "error building NFA"
  | wordBorder =>
    "unsupported regex feature for DFAs: cannot build DFAs for regexes with Unicode word " ++
      "boundaries; switch to ASCII word boundaries, or heuristically enable Unicode word " ++
      "boundaries or use a different regex engine"

structure Group where
  options : Options := {}
  choices : Option Nat := none
  row : Row := {}
  last : Option Nat := none
  deriving DecidableEq, Repr

namespace Group

def add (group : Group) (height : Nat) : Group :=
  { group with row := group.row.add height, last := some height }

def setOptions (group : Group) (options : Options) : Group :=
  { group with options, row := group.row.add 0, last := none }

def repeatLast? (group : Group) : Option Group :=
  group.last.map fun height =>
    { group with
      row := { group.row with highest := max group.row.highest (height + 1) }
      last := some (height + 1) }

def choose (group : Group) : Group :=
  { options := group.options, choices := some (max (group.choices.getD 0) group.row.height) }

def height (group : Group) : Nat :=
  heightAfter group.choices group.row

end Group

structure Progress where
  group : Group := {}
  outer : List Group := []
  names : List (List Char) := []
  wordBorder : Bool := false
  deriving DecidableEq, Repr

namespace Progress

def openGroup (progress : Progress) (options : Options) : Progress :=
  { progress with group := { options }, outer := progress.group :: progress.outer }

def closeGroup? (progress : Progress) : Option Progress :=
  match progress.outer with
  | [] => none
  | parent :: outer =>
    some { progress with group := parent.add (progress.group.height + 1), outer }

def addAtom? (progress : Progress) (atom : Atom) : Option Progress :=
  if atom.admitted progress.group.options then
    some { progress with
      group := progress.group.add 0
      wordBorder := progress.wordBorder || atom == .wordBorder && progress.group.options.unicode }
  else none

def mayBeginName (c : Char) : Bool :=
  c == '_' || Text.isLetter c

def mayBeInName (c : Char) : Bool :=
  c == '_' || c == '.' || c == '[' || c == ']' || Text.isLetter c || Text.isNumeral c

/-- Reads the name of a group up to its closing angle; no other group has it. -/
def nameGroup? (progress : Progress) (text : List Char) : Option (Progress × List Char) :=
  let name := text.takeWhile (· != '>')
  match name, text.drop name.length with
  | first :: more, '>' :: rest =>
    if mayBeginName first && more.all mayBeInName && !progress.names.contains name then
      some ({ progress with names := name :: progress.names }.openGroup progress.group.options, rest)
    else none
  | _, _ => none

/-- Reads what stands behind an opening parenthesis. Looking ahead or behind is
refused. -/
def group? (progress : Progress) (text : List Char) : Option (Progress × List Char) :=
  let options := progress.group.options
  match skip options text with
  | '?' :: 'P' :: '<' :: rest => progress.nameGroup? rest
  | '?' :: '<' :: rest => progress.nameGroup? rest
  | '?' :: rest =>
    match options.read? true [] rest with
    | some (options, ':' :: rest) => some (progress.openGroup options, rest)
    | some (options, _ :: rest) =>
      some ({ progress with group := progress.group.setOptions options }, rest)
    | _ => none
  | rest => some (progress.openGroup options, rest)

def dropReluctance : List Char → List Char
  | '?' :: rest => rest
  | text => text

def repeat? (progress : Progress) (rest : List Char) : Option (Progress × List Char) :=
  progress.group.repeatLast?.map fun group => ({ progress with group }, dropReluctance rest)

def count? (text : List Char) : Option (List Char) :=
  let text := text.dropWhile Text.isBlank
  let digits := text.takeWhile Char.isDigit
  match digits, (text.drop digits.length).dropWhile Text.isBlank with
  | _ :: _, '\x7d' :: rest => if Text.digitsValue digits < UInt32.size then some rest else none
  | _, _ => none

def step? (progress : Progress) : List Char → Option (Progress × List Char)
  | [] => none
  | c :: rest =>
    match c with
    | '(' => progress.group? rest
    | ')' => progress.closeGroup?.map (·, rest)
    | '|' => some ({ progress with group := progress.group.choose }, rest)
    | '[' => do
      let (height, rest) ← set? progress.group.options rest
      return ({ progress with group := progress.group.add height }, rest)
    | '?' | '*' | '+' => progress.repeat? rest
    | '\x7b' => do progress.repeat? (skip progress.group.options (← count? rest))
    | '\\' => do
      let (atom, rest) ← escape? progress.group.options rest
      return (← progress.addAtom? atom, rest)
    | '.' => (progress.addAtom? .any).map (·, rest)
    | '^' | '$' => (progress.addAtom? .border).map (·, rest)
    | c => (progress.addAtom? (.literal c false)).map (·, rest)

def conclude (progress : Progress) : Except Error Unit :=
  if !progress.outer.isEmpty || nestingLimit < progress.group.height then .error .malformed
  else if progress.wordBorder then .error .wordBorder
  else .ok ()

/-- Reads on to the end of a pattern. Each step takes something from the text. -/
def finish (progress : Progress) (text : List Char) : Except Error Unit :=
  match skip progress.group.options text with
  | [] => progress.conclude
  | text' =>
    match progress.step? text' with
    | none => .error .malformed
    | some (progress, rest) =>
      if _h : rest.length < text.length then finish progress rest else .error .malformed
termination_by text.length

end Progress

def check (text : List Char) : Except Error Unit :=
  Progress.finish {} text

end RingMachine.Log.Pattern

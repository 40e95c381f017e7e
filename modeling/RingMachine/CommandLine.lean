import RingMachine.Device.Stream
import RingMachine.Log
import RingMachine.Program

/-!
# Executing a command

A command reads a program, runs it between the host's input and an output sink,
and reports an exit code and the lines of its log: 0 for a program that halted,
2 for one that was stopped at its limit, 1 for a failure. A fault of the machine
is reported first, then the output's failure, then the input's. Which lines of the
log are told is for its caller to say.
-/

namespace RingMachine.CommandLine

-- ---------------------------------------------------------------------------
-- Hosts
-- ---------------------------------------------------------------------------

inductive FileError
  | notFound
  | notDirectory
  | isDirectory
  | permissionDenied
  | nameTooLong
  | other (text : String)
  deriving DecidableEq, Repr

def FileError.message : FileError → String
  | notFound => "No such file or directory (os error 2)"
  | notDirectory => "Not a directory (os error 20)"
  | isDirectory => "Is a directory (os error 21)"
  | permissionDenied => "Permission denied (os error 13)"
  | nameTooLong => "File name too long (os error 36)"
  | other text => text

inductive Node
  | file (bytes : List UInt8)
  | directory
  deriving DecidableEq, Repr

/-- The files and the standard input that a command finds. A directory can be
opened like a file, and fails when it is read. -/
structure Host where
  find : String → Except FileError Node
  standardInput : List UInt8 := []

namespace Host

def read (host : Host) (path : String) : Except FileError (List UInt8) :=
  match host.find path with
  | .error e => .error e
  | .ok .directory => .error .isDirectory
  | .ok (.file bytes) => .ok bytes

def source (host : Host) (path : String) : Except FileError Source :=
  match host.find path with
  | .error e => .error e
  | .ok (.file bytes) => .ok (.ofBytes bytes)
  | .ok .directory =>
    .ok { script := [.failure ⟨.other "IsADirectory", FileError.isDirectory.message⟩] }

end Host

-- ---------------------------------------------------------------------------
-- Commands
-- ---------------------------------------------------------------------------

structure Arguments where
  program : String
  input : Option String := none
  data : Option String := none
  maxSteps : Option Nat := none
  trace : Bool := false
  logLevel : String := "warn"
  disassemble : Bool := false
  deriving DecidableEq, Repr

inductive Failure
  | readProgram (path : String) (error : FileError)
  | invalidProgram (path : String) (error : LoadError)
  | readData (path : String) (error : FileError)
  | invalidData (error : LoadError)
  | openInput (path : String) (error : FileError)
  | machineFault (fault : Fault)
  | writeOutput (error : StreamError)
  | readInput (error : StreamError)
  | inputExhausted (pc : Address)
  | outputStalled (pc : Address)
  deriving DecidableEq, Repr

def Failure.message : Failure → String
  | readProgram path error => "failed to read program " ++ path ++ ": " ++ error.message
  | invalidProgram path error => "invalid program " ++ path ++ ": " ++ error.message
  | readData path error => "failed to read data " ++ path ++ ": " ++ error.message
  | invalidData error => error.message
  | openInput path error => "failed to open input " ++ path ++ ": " ++ error.message
  | machineFault fault => fault.message
  | writeOutput error => "failed to write output: " ++ error.message
  | readInput error => "failed to read input: " ++ error.message
  | inputExhausted pc =>
    "program is waiting for input at " ++ pc.hex ++ " but the input is exhausted"
  | outputStalled pc => "output device stopped accepting bytes at " ++ pc.hex

inductive Verdict
  | halted
  | stepLimit
  | failed (failure : Failure)
  deriving DecidableEq, Repr

structure Report (ω : Type) where
  exitCode : Nat
  sink : ω
  /-- The lines of the log and, last, the failure. -/
  log : Array String := #[]

def keep (told : Log.Line → Bool) (log : Array String) (lines : List Log.Line) : Array String :=
  log ++ (lines.filter told).map Log.Line.render

def commandTarget : String := "bracket_exec"

def Report.failed {ω : Type} (sink : ω) (log : Array String) (failure : Failure) : Report ω :=
  { exitCode := 1, sink, log := log.push ("error: " ++ failure.message) }

def Arguments.image (arguments : Arguments) (host : Host) (text : List UInt8) :
    Except Failure Image :=
  match Image.ofText text with
  | .error e => .error (.invalidProgram arguments.program e)
  | .ok image =>
    match arguments.data with
    | none => .ok image
    | some path =>
      match host.read path with
      | .error e => .error (.readData path e)
      | .ok data =>
        match image.withData data with
        | .error e => .error (.invalidData e)
        | .ok image => .ok image

def Arguments.source (arguments : Arguments) (host : Host) : Except Failure Source :=
  match arguments.input with
  | none => .ok (.ofBytes host.standardInput)
  | some path =>
    match host.source path with
    | .error e => .error (.openInput path e)
    | .ok source => .ok source

def print {ω : Type} [Sink ω] (sink : ω) : List UInt8 → Option StreamError × ω
  | [] => Sink.flush sink
  | byte :: rest =>
    match Sink.write sink byte with
    | (none, sink) => print sink rest
    | (some error, sink) => (some error, sink)

variable {ω : Type} [Sink ω]

def judge (exit : RunExit) (m : Machine Ram StreamInput (StreamOutput ω)) :
    Verdict × Machine Ram StreamInput (StreamOutput ω) :=
  let m := { m with output := m.output.flush }
  let verdict :=
    match m.output.error, m.input.error, exit with
    | some error, _, _ => .failed (.writeOutput error)
    | none, some error, _ => .failed (.readInput error)
    | none, none, .halted => .halted
    | none, none, .stepLimit => .stepLimit
    | none, none, .blocked .input => .failed (.inputExhausted m.registers.pc)
    | none, none, .blocked .output => .failed (.outputStalled m.registers.pc)
  (verdict, m)

/-- The verdict on a run; a fault leaves the output as it is. -/
def conclude {τ : Type} (turn : Turn RunExit τ Ram StreamInput (StreamOutput ω)) :
    Verdict × Machine Ram StreamInput (StreamOutput ω) :=
  match turn.result with
  | .error fault => (.failed (.machineFault fault), turn.machine)
  | .ok exit => judge exit turn.machine

def Report.ofVerdict (told : Log.Line → Bool) (log : Array String) :
    Verdict × Machine Ram StreamInput (StreamOutput ω) → Report ω
  | (.halted, m) =>
    { exitCode := 0, sink := m.output.sink
      log := keep told log [⟨.info, commandTarget, "program halted", [("steps", m.steps.repr)]⟩] }
  | (.stepLimit, m) =>
    { exitCode := 2, sink := m.output.sink
      log := keep told log [⟨.warn, commandTarget, "step limit reached", [("steps", m.steps.repr)]⟩] }
  | (.failed failure, m) => .failed m.output.sink log failure

/-- What a run adds to the log with each step, if it is traced. -/
def observe (told : Log.Line → Bool) (traced : Bool) (log : Array String) (journal : Journal) :
    Array String :=
  if traced then keep told log (journal.events.map Log.ofEvent) else log

/-- Runs the image of a program. No report is made if a run without a limit does
not end within `fuel` instructions. -/
def runImage (fuel : Nat) (arguments : Arguments) (told : Log.Line → Bool) (image : Image)
    (source : Source) (log : Array String) (sink : ω) : Option (Report ω) :=
  let m := Machine.start image.ram (StreamInput.ofSource source) (StreamOutput.ofSink sink)
  (m.runWithin (observe told arguments.trace) fuel arguments.maxSteps log).map fun turn =>
    .ofVerdict told (keep told turn.trace (Log.ofRun turn)) (conclude turn)

def imageLine (arguments : Arguments) (image : Image) : Log.Line :=
  ⟨.debug, commandTarget, "image built",
    [("program", arguments.program), ("origin", image.origin.hex), ("size", image.size.repr)]⟩

def list (text : List UInt8) (log : Array String) (sink : ω) : Report ω :=
  match print sink (Listing.ofText text).toUTF8.toList with
  | (none, sink) => { exitCode := 0, sink, log }
  | (some error, sink) =>
    { exitCode := 101, sink, log := log.push ("failed printing to stdout: " ++ error.message) }

/-- Carries out a command, whose log begins with `log`. -/
def execute (fuel : Nat) (arguments : Arguments) (host : Host) (told : Log.Line → Bool)
    (log : Array String) (sink : ω) : Option (Report ω) :=
  match host.read arguments.program with
  | .error e => some (.failed sink log (.readProgram arguments.program e))
  | .ok text =>
    if arguments.disassemble then some (list text log sink)
    else
      match arguments.image host text with
      | .error failure => some (.failed sink log failure)
      | .ok image =>
        let log := keep told log [imageLine arguments image]
        match arguments.source host with
        | .error failure => some (.failed sink log failure)
        | .ok source => runImage fuel arguments told image source log sink

end RingMachine.CommandLine

import RingMachine.Machine

/-!
# Log lines

A log line has a level, the part of the program it comes from, a message, and
named values. This module words what the machine reports: its events, one line
each, and the way a run ended.
-/

namespace RingMachine.Log

inductive Level
  | error
  | warn
  | info
  | debug
  | trace
  deriving DecidableEq, Repr

namespace Level

def name : Level → String
  | error => "ERROR"
  | warn => "WARN"
  | info => "INFO"
  | debug => "DEBUG"
  | trace => "TRACE"

end Level

structure Line where
  level : Level
  target : String
  message : String
  fields : List (String × String) := []
  deriving DecidableEq, Repr

namespace Line

def render (line : Line) : String :=
  line.level.name ++ " " ++ line.target ++ ": " ++ line.message ++
    String.join (line.fields.map fun (name, value) => " " ++ name ++ "=" ++ value)

end Line

def runTarget : String := "bracket_vm"

def eventTarget : String := "bracket_vm::trace"

def ofEvent : Event → Line
  | .boot origin => ⟨.debug, eventTarget, "program origin located", [("sentinel", origin.hex)]⟩
  | .instruction pc byte =>
    ⟨.trace, eventTarget, "execute",
      [("pc", pc.hex), ("op", "\"" ++ (Opcode.decode byte).mnemonic ++ "\"")]⟩
  | .jump start landing =>
    ⟨.trace, eventTarget, "bracket scan", [("from", start.hex), ("to", landing.hex)]⟩
  | .output byte => ⟨.trace, eventTarget, "output", [("byte", byte.toNat.repr)]⟩
  | .input byte => ⟨.trace, eventTarget, "input", [("byte", byte.toNat.repr)]⟩
  | .blocked port => ⟨.debug, eventTarget, "waiting on port", [("port", port.name)]⟩
  | .halt pc => ⟨.debug, eventTarget, "halted", [("pc", pc.hex)]⟩

/-- The line of a run that has ended; a fault leaves none. -/
def ofRun {τ μ ι ο : Type} (turn : Turn RunExit τ μ ι ο) : List Line :=
  match turn.result with
  | .error _ => []
  | .ok .halted => [⟨.info, runTarget, "halted", [("steps", turn.machine.steps.repr)]⟩]
  | .ok .stepLimit => [⟨.info, runTarget, "step limit reached", [("steps", turn.machine.steps.repr)]⟩]
  | .ok (.blocked port) =>
    [⟨.debug, runTarget, "blocked",
      [("port", port.name), ("pc", turn.machine.registers.pc.hex)]⟩]

end RingMachine.Log

import RingMachine.Device
import RingMachine.Memory

/-!
# The machine

A machine is its registers, a memory and two devices, with the origin of its
program once it has been located and the number of instructions executed. A
turn is the answer to a request: a result, the machine afterwards, and what was
reported on the way. Instructions do not fail. Only a search through memory can:
for the sentinel, or for the partner of a bracket.

Instructions are counted in `Nat`. A run is taken to stay below 2^64 of them, so
that a counter of 64 bits would show the same.
-/

namespace RingMachine

-- ---------------------------------------------------------------------------
-- Registers
-- ---------------------------------------------------------------------------

structure Status where
  ready : Bool := false
  halted : Bool := false
  deriving DecidableEq, Repr

namespace Status

def bits (status : Status) : Nat :=
  status.ready.toNat + 2 * status.halted.toNat

def describe : Status → String
  | ⟨false, false⟩ => "Status(0x0)"
  | ⟨true, false⟩ => "Status(READY)"
  | ⟨false, true⟩ => "Status(HALTED)"
  | ⟨true, true⟩ => "Status(READY | HALTED)"

end Status

structure Registers where
  pc : Address := 0
  ptr : Address := 0
  tmp : UInt8 := 0
  depth : UInt8 := 0
  status : Status := {}
  deriving DecidableEq, Repr

namespace Registers

/-- The registers at the start of a program whose sentinel is known. -/
def boot (registers : Registers) (sentinel : Address) : Registers :=
  { registers with
    pc := 0, ptr := sentinel.next, depth := 0
    status := { registers.status with ready := true } }

def describe (registers : Registers) : String :=
  "Cpu \x7b pc: " ++ registers.pc.describe ++ ", ptr: " ++ registers.ptr.describe ++
    ", tmp: " ++ registers.tmp.toNat.repr ++ ", loop_depth: " ++ registers.depth.toNat.repr ++
    ", status: " ++ registers.status.describe ++ " \x7d"

end Registers

-- ---------------------------------------------------------------------------
-- Faults and reports
-- ---------------------------------------------------------------------------

inductive Fault
  | missingSentinel
  | unmatchedBracket (bracket : Address)
  deriving DecidableEq, Repr

def Fault.message : Fault → String
  | missingSentinel => "no sentinel byte found in memory"
  | unmatchedBracket bracket => "no matching bracket for the one at " ++ bracket.hex

instance {α : Type} [DecidableEq α] : DecidableEq (Except Fault α)
  | .error a, .error b => decidable_of_iff (a = b) ⟨congrArg _, Except.error.inj⟩
  | .error _, .ok _ => isFalse nofun
  | .ok _, .error _ => isFalse nofun
  | .ok a, .ok b => decidable_of_iff (a = b) ⟨congrArg _, Except.ok.inj⟩

inductive Event
  | boot (sentinel : Address)
  | instruction (pc : Address) (byte : UInt8)
  | jump (start landing : Address)
  | output (byte : UInt8)
  | input (byte : UInt8)
  | blocked (port : Port)
  | halt (pc : Address)
  deriving DecidableEq, Repr

structure Journal where
  calls : List Call := []
  events : List Event := []
  deriving DecidableEq, Repr

namespace Journal

def append (first second : Journal) : Journal :=
  ⟨first.calls ++ second.calls, first.events ++ second.events⟩

instance : Append Journal := ⟨append⟩

@[simp] theorem calls_append (first second : Journal) :
    (first ++ second).calls = first.calls ++ second.calls := rfl

@[simp] theorem events_append (first second : Journal) :
    (first ++ second).events = first.events ++ second.events := rfl

end Journal

-- ---------------------------------------------------------------------------
-- Bracket scans
-- ---------------------------------------------------------------------------

inductive Direction
  | forward
  | backward
  deriving DecidableEq, Repr

namespace Direction

def move : Direction → Address → Address
  | forward, a => a.next
  | backward, a => a.prev

/-- The bracket that a scan in this direction starts from. -/
def nest : Direction → Opcode
  | forward => .loopOpen
  | backward => .loopClose

/-- The bracket that a scan in this direction looks for. -/
def partner : Direction → Opcode
  | forward => .loopClose
  | backward => .loopOpen

end Direction

/-- Where a scan stands: the cell visited last and the nesting counter. -/
structure Cursor where
  pos : Address
  depth : UInt8
  deriving DecidableEq, Repr

def scanFrom {μ : Type} [Memory μ] (memory : μ) (direction : Direction) :
    Nat → Address → UInt8 → Option Cursor
  | 0, _, _ => none
  | count + 1, pos, depth =>
    let pos := direction.move pos
    let op := Opcode.decode (Memory.read memory pos)
    if op = direction.partner then
      if depth = 0 then some ⟨pos, depth⟩ else scanFrom memory direction count pos (depth - 1)
    else if op = direction.nest then scanFrom memory direction count pos (depth + 1)
    else scanFrom memory direction count pos depth

def scan {μ : Type} [Memory μ] (memory : μ) (direction : Direction) (start : Address) : Option Cursor :=
  scanFrom memory direction memorySize start 0

theorem depth_of_scanFrom {μ : Type} [Memory μ] {memory : μ} {direction : Direction} {count : Nat}
    {pos : Address} {depth : UInt8} {cursor : Cursor}
    (h : scanFrom memory direction count pos depth = some cursor) : cursor.depth = 0 := by
  fun_induction scanFrom memory direction count pos depth with
  | case1 => contradiction
  | case2 => cases h; rfl
  | case3 _ _ _ _ _ _ _ ih => exact ih h
  | case4 _ _ _ _ _ _ _ ih => exact ih h
  | case5 _ _ _ _ _ _ _ ih => exact ih h

-- ---------------------------------------------------------------------------
-- Steps
-- ---------------------------------------------------------------------------

structure Machine (μ ι ο : Type) where
  registers : Registers := {}
  memory : μ
  input : ι
  output : ο
  origin : Option Address := none
  steps : Nat := 0

structure Turn (α τ μ ι ο : Type) where
  result : Except Fault α
  machine : Machine μ ι ο
  trace : τ

inductive Step
  | executed (op : Opcode)
  | blocked (port : Port)
  | halted
  deriving DecidableEq, Repr

namespace Machine

variable {μ ι ο : Type}

def start (memory : μ) (input : ι) (output : ο) : Machine μ ι ο :=
  { memory, input, output }

def isReady (m : Machine μ ι ο) : Bool :=
  m.registers.status.ready

def isHalted (m : Machine μ ι ο) : Bool :=
  m.registers.status.halted

def goTo (m : Machine μ ι ο) (pc : Address) : Machine μ ι ο :=
  { m with registers := { m.registers with pc }, steps := m.steps + 1 }

def advance (m : Machine μ ι ο) : Machine μ ι ο :=
  m.goTo m.registers.pc.next

def setPtr (m : Machine μ ι ο) (ptr : Address) : Machine μ ι ο :=
  { m with registers := { m.registers with ptr } }

def setTmp (m : Machine μ ι ο) (tmp : UInt8) : Machine μ ι ο :=
  { m with registers := { m.registers with tmp } }

def setDepth (m : Machine μ ι ο) (depth : UInt8) : Machine μ ι ο :=
  { m with registers := { m.registers with depth } }

def stop (m : Machine μ ι ο) : Machine μ ι ο :=
  { m with
    registers := { m.registers with status := { m.registers.status with halted := true } }
    steps := m.steps + 1 }

def askInput {α : Type} (ask : ι → α × ι) : Machine μ ι ο → α × Machine μ ι ο
  | ⟨registers, memory, input, output, origin, steps⟩ =>
    match ask input with
    | (answer, input) => (answer, ⟨registers, memory, input, output, origin, steps⟩)

def askOutput {α : Type} (ask : ο → α × ο) : Machine μ ι ο → α × Machine μ ι ο
  | ⟨registers, memory, input, output, origin, steps⟩ =>
    match ask output with
    | (answer, output) => (answer, ⟨registers, memory, input, output, origin, steps⟩)

def tellOutput (tell : ο → ο) : Machine μ ι ο → Machine μ ι ο
  | ⟨registers, memory, input, output, origin, steps⟩ =>
    ⟨registers, memory, input, tell output, origin, steps⟩

def retire (op : Opcode) (fetched : Event) (m : Machine μ ι ο) : Turn Step Journal μ ι ο :=
  ⟨.ok (.executed op), m.advance, { events := [fetched] }⟩

@[simp] theorem askInput_eq {α : Type} (ask : ι → α × ι) (m : Machine μ ι ο) :
    m.askInput ask = ((ask m.input).1, { m with input := (ask m.input).2 }) := rfl

@[simp] theorem askOutput_eq {α : Type} (ask : ο → α × ο) (m : Machine μ ι ο) :
    m.askOutput ask = ((ask m.output).1, { m with output := (ask m.output).2 }) := rfl

@[simp] theorem tellOutput_eq (tell : ο → ο) (m : Machine μ ι ο) :
    m.tellOutput tell = { m with output := tell m.output } := rfl

variable [Memory μ]

def cell (m : Machine μ ι ο) : UInt8 :=
  Memory.read m.memory m.registers.ptr

def setCell (m : Machine μ ι ο) (byte : UInt8) : Machine μ ι ο :=
  { m with memory := Memory.write m.memory m.registers.ptr byte }

def fetch (m : Machine μ ι ο) : UInt8 :=
  Memory.read m.memory m.registers.pc

def fetched (m : Machine μ ι ο) : Event :=
  .instruction m.registers.pc m.fetch

/-- Locates the program. A machine that has done so already does nothing. -/
def boot (m : Machine μ ι ο) : Turn Address Journal μ ι ο :=
  match m.origin with
  | some origin => ⟨.ok origin, m, {}⟩
  | none =>
    match Memory.findSentinel m.memory with
    | none => ⟨.error .missingSentinel, m, {}⟩
    | some origin =>
      ⟨.ok origin, { m with registers := m.registers.boot origin, origin := some origin },
        { events := [.boot origin] }⟩

/-- Goes on behind the partner of the bracket under the program counter. -/
def leap (m : Machine μ ι ο) (direction : Direction) (op : Opcode) : Turn Step Journal μ ι ο :=
  match scan m.memory direction m.registers.pc with
  | none =>
    ⟨.error (.unmatchedBracket m.registers.pc), m.setDepth 0, { events := [m.fetched] }⟩
  | some cursor =>
    ⟨.ok (.executed op), (m.setDepth cursor.depth).goTo cursor.pos.next,
      { events := [m.fetched, .jump m.registers.pc cursor.pos.next] }⟩

def emit [Output ο] (m : Machine μ ι ο) : Turn Step Journal μ ι ο :=
  let fetched := m.fetched
  let byte := m.cell
  match m.askOutput Output.isReady with
  | (false, m) =>
    ⟨.ok (.blocked .output), m, { calls := [.isReady false], events := [.blocked .output] }⟩
  | (true, m) =>
    ⟨.ok (.executed .output), (m.tellOutput (Output.write · byte)).advance,
      { calls := [.isReady true, .write byte], events := [fetched, .output byte] }⟩

/-- Takes a byte from the input device into the cell, if it has one. What was
written is flushed before the device is asked. -/
def accept [Input ι] [Output ο] (m : Machine μ ι ο) : Turn Step Journal μ ι ο :=
  let fetched := m.fetched
  match (m.tellOutput Output.flush).askInput Input.hasByte with
  | (false, m) =>
    ⟨.ok (.blocked .input), m,
      { calls := [.flush, .hasByte false], events := [.blocked .input] }⟩
  | (true, m) =>
    match m.askInput Input.takeByte with
    | (byte, m) =>
      ⟨.ok (.executed .input), (m.setCell byte).advance,
        { calls := [.flush, .hasByte true, .takeByte byte], events := [fetched, .input byte] }⟩

def execute [Input ι] [Output ο] (m : Machine μ ι ο) : Turn Step Journal μ ι ο :=
  let fetched := m.fetched
  match Opcode.decode m.fetch with
  | .incrementPointer => retire .incrementPointer fetched (m.setPtr m.registers.ptr.next)
  | .decrementPointer => retire .decrementPointer fetched (m.setPtr m.registers.ptr.prev)
  | .incrementCell => retire .incrementCell fetched (m.setCell (m.cell + 1))
  | .decrementCell => retire .decrementCell fetched (m.setCell (m.cell - 1))
  | .loopOpen => if m.cell = 0 then m.leap .forward .loopOpen else retire .loopOpen fetched m
  | .loopClose => if m.cell = 0 then retire .loopClose fetched m else m.leap .backward .loopClose
  | .store => retire .store fetched (m.setTmp m.cell)
  | .load => retire .load fetched (m.setCell m.registers.tmp)
  | .output => m.emit
  | .input => m.accept
  | .halt => ⟨.ok .halted, m.stop, { events := [fetched, .halt m.registers.pc] }⟩
  | .nop => retire .nop fetched m

/-- One instruction. A halted machine does nothing, and one that has not located
its program does so first. -/
def step [Input ι] [Output ο] (m : Machine μ ι ο) : Turn Step Journal μ ι ο :=
  if m.isHalted then ⟨.ok .halted, m, {}⟩
  else
    match m.boot with
    | ⟨.error fault, m, trace⟩ => ⟨.error fault, m, trace⟩
    | ⟨.ok _, m, before⟩ =>
      match m.execute with
      | ⟨result, m, trace⟩ => ⟨result, m, before ++ trace⟩

theorem boot_of_origin {m : Machine μ ι ο} {origin : Address} (h : m.origin = some origin) :
    m.boot = ⟨.ok origin, m, {}⟩ := by
  simp [boot, h]

theorem step_of_halted [Input ι] [Output ο] {m : Machine μ ι ο} (h : m.isHalted = true) :
    m.step = ⟨.ok .halted, m, {}⟩ := by
  simp [step, h]

end Machine

-- ---------------------------------------------------------------------------
-- Runs
-- ---------------------------------------------------------------------------

inductive RunExit
  | halted
  | blocked (port : Port)
  | stepLimit
  deriving DecidableEq, Repr

namespace Machine

variable {μ ι ο τ : Type} [Memory μ] [Input ι] [Output ο]

/-- Runs for at most `limit` instructions; a limit of zero does not even locate
the program. -/
def run (observe : τ → Journal → τ) : Nat → τ → Machine μ ι ο → Turn RunExit τ μ ι ο
  | 0, trace, m => ⟨.ok .stepLimit, m, trace⟩
  | limit + 1, trace, m =>
    match m.step with
    | ⟨.error fault, m, journal⟩ => ⟨.error fault, m, observe trace journal⟩
    | ⟨.ok (.executed _), m, journal⟩ => run observe limit (observe trace journal) m
    | ⟨.ok (.blocked port), m, journal⟩ => ⟨.ok (.blocked port), m, observe trace journal⟩
    | ⟨.ok .halted, m, journal⟩ => ⟨.ok .halted, m, observe trace journal⟩

@[simp] theorem run_zero (observe : τ → Journal → τ) (trace : τ) (m : Machine μ ι ο) :
    m.run observe 0 trace = ⟨.ok .stepLimit, m, trace⟩ := rfl

/-- Runs without a limit, if the run ends within `fuel` instructions. -/
def runFreely (observe : τ → Journal → τ) (fuel : Nat) (trace : τ) (m : Machine μ ι ο) :
    Option (Turn RunExit τ μ ι ο) :=
  match m.run observe fuel trace with
  | ⟨.ok .stepLimit, _, _⟩ => none
  | turn => some turn

/-- Runs within an optional limit; `fuel` bounds a run that has none. -/
def runWithin (observe : τ → Journal → τ) (fuel : Nat) (limit : Option Nat) (trace : τ)
    (m : Machine μ ι ο) : Option (Turn RunExit τ μ ι ο) :=
  match limit with
  | some limit => some (m.run observe limit trace)
  | none => m.runFreely observe fuel trace

end Machine

end RingMachine

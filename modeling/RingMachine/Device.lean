/-!
# Ports and devices

The machine reads from one device and writes to another. Either may not be
ready, and asking may change its state. `Call` names each thing the machine
does to a device, with the answer it got.

Of the devices in memory, a queue serves the bytes that the host has put into it,
in order, a closed port never has any, and a buffer keeps every byte written to
it; the host may mark it busy, and then the machine waits.
-/

namespace RingMachine

inductive Port
  | input
  | output
  deriving DecidableEq, Repr

def Port.name : Port → String
  | input => "Input"
  | output => "Output"

class Input (ι : Type) where
  hasByte : ι → Bool × ι
  takeByte : ι → UInt8 × ι

class Output (ο : Type) where
  isReady : ο → Bool × ο
  write : ο → UInt8 → ο
  /-- Delivers what the device holds back. -/
  flush : ο → ο

inductive Call
  | isReady (answer : Bool)
  | write (byte : UInt8)
  | flush
  | hasByte (answer : Bool)
  | takeByte (byte : UInt8)
  deriving DecidableEq, Repr

-- ---------------------------------------------------------------------------
-- Devices in memory
-- ---------------------------------------------------------------------------

inductive NoInput
  | closed
  deriving DecidableEq, Repr

instance : Input NoInput where
  hasByte device := (false, device)
  takeByte device := (0, device)

structure QueueInput where
  pending : List UInt8 := []
  deriving DecidableEq, Repr

namespace QueueInput

def extend (queue : QueueInput) (bytes : List UInt8) : QueueInput :=
  ⟨queue.pending ++ bytes⟩

def push (queue : QueueInput) (byte : UInt8) : QueueInput :=
  queue.extend [byte]

def isEmpty (queue : QueueInput) : Bool :=
  queue.pending.isEmpty

/-- An empty queue gives zero. -/
def takeByte (queue : QueueInput) : UInt8 × QueueInput :=
  match queue.pending with
  | [] => (0, queue)
  | byte :: rest => (byte, ⟨rest⟩)

instance : Input QueueInput where
  hasByte queue := (!queue.isEmpty, queue)
  takeByte := takeByte

end QueueInput

structure BufferOutput where
  bytes : Array UInt8 := #[]
  busy : Bool := false
  deriving DecidableEq, Repr

namespace BufferOutput

def setBusy (buffer : BufferOutput) (busy : Bool) : BufferOutput :=
  { buffer with busy }

/-- A byte is kept whether or not the buffer is busy. -/
def write (buffer : BufferOutput) (byte : UInt8) : BufferOutput :=
  { buffer with bytes := buffer.bytes.push byte }

instance : Output BufferOutput where
  isReady buffer := (!buffer.busy, buffer)
  write := write
  flush buffer := buffer

end BufferOutput

end RingMachine

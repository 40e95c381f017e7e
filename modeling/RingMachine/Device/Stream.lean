import RingMachine.Device

/-!
# Byte streams

A source answers each read with a byte, the end of input or a failure, and with
the end of input when it has nothing more to say. The device on top of it reads
one byte ahead, and only when it is asked whether there is one. The first end or
failure closes it for good.

A sink takes one byte at a time and can be flushed, and either may fail. The
device on top of it is ready until the first failure, which it keeps for the
host; from then on it flushes no more. A read or a write that was interrupted is
tried again; every other failure ends the stream.
-/

namespace RingMachine

inductive FailureKind
  | interrupted
  | writeZero
  | other (name : String)
  deriving DecidableEq, Repr

def FailureKind.name : FailureKind → String
  | interrupted => "Interrupted"
  | writeZero => "WriteZero"
  | other name => name

structure StreamError where
  kind : FailureKind
  message : String
  deriving DecidableEq, Repr

def StreamError.writeZero : StreamError :=
  ⟨.writeZero, "failed to write whole buffer"⟩

-- ---------------------------------------------------------------------------
-- Input
-- ---------------------------------------------------------------------------

inductive Reply
  | byte (value : UInt8)
  | endOfInput
  | failure (error : StreamError)
  deriving DecidableEq, Repr

structure Source where
  script : List Reply := []
  reads : Nat := 0
  deriving DecidableEq, Repr

namespace Source

def ofBytes (bytes : List UInt8) : Source :=
  { script := bytes.map .byte }

/-- The first reply that is not an interruption, after a number of reads. -/
def answer (reads : Nat) : List Reply → Reply × Source
  | [] => (.endOfInput, ⟨[], reads + 1⟩)
  | .byte value :: rest => (.byte value, ⟨rest, reads + 1⟩)
  | .endOfInput :: rest => (.endOfInput, ⟨rest, reads + 1⟩)
  | .failure error :: rest =>
    if error.kind = .interrupted then answer (reads + 1) rest
    else (.failure error, ⟨rest, reads + 1⟩)

def next (source : Source) : Reply × Source :=
  answer source.reads source.script

end Source

structure StreamInput where
  source : Source
  held : Option UInt8 := none
  closed : Bool := false
  error : Option StreamError := none
  deriving DecidableEq, Repr

namespace StreamInput

def ofSource (source : Source) : StreamInput :=
  { source }

def fill (device : StreamInput) : StreamInput :=
  match device.source.next with
  | (.byte value, source) => { device with source, held := some value }
  | (.endOfInput, source) => { device with source, closed := true }
  | (.failure error, source) => { device with source, closed := true, error := some error }

def hasByte (device : StreamInput) : Bool × StreamInput :=
  let device := if device.held.isNone && !device.closed then device.fill else device
  (device.held.isSome, device)

/-- Gives zero when no byte is held. -/
def takeByte (device : StreamInput) : UInt8 × StreamInput :=
  (device.held.getD 0, { device with held := none })

instance : Input StreamInput where
  hasByte := hasByte
  takeByte := takeByte

/-- Hands out the failure that closed the device, once. -/
def takeError (device : StreamInput) : Option StreamError × StreamInput :=
  (device.error, { device with error := none })

def isExhausted (device : StreamInput) : Bool :=
  device.closed && device.held.isNone

end StreamInput

-- ---------------------------------------------------------------------------
-- Output
-- ---------------------------------------------------------------------------

class Sink (ω : Type) where
  write : ω → UInt8 → Option StreamError × ω
  flush : ω → Option StreamError × ω

structure StreamOutput (ω : Type) where
  sink : ω
  failed : Bool := false
  error : Option StreamError := none

namespace StreamOutput

variable {ω : Type}

def ofSink (sink : ω) : StreamOutput ω :=
  { sink }

def settle (failed : Bool) (error : Option StreamError) : Option StreamError × ω → StreamOutput ω
  | (none, sink) => ⟨sink, failed, error⟩
  | (some error, sink) => ⟨sink, true, some error⟩

/-- Passed on to the sink in any case; a failure replaces the one before. -/
def write [Sink ω] : StreamOutput ω → UInt8 → StreamOutput ω
  | ⟨sink, failed, error⟩, byte => settle failed error (Sink.write sink byte)

def flush [Sink ω] : StreamOutput ω → StreamOutput ω
  | ⟨sink, true, error⟩ => ⟨sink, true, error⟩
  | ⟨sink, false, error⟩ => settle false error (Sink.flush sink)

instance [Sink ω] : Output (StreamOutput ω) where
  isReady device := (!device.failed, device)
  write := write
  flush := flush

/-- Hands out the last failure, once. -/
def takeError (device : StreamOutput ω) : Option StreamError × StreamOutput ω :=
  (device.error, { device with error := none })

@[simp] theorem settle_none (failed : Bool) (error : Option StreamError) (sink : ω) :
    settle failed error (none, sink) = ⟨sink, failed, error⟩ := rfl

@[simp] theorem settle_some (failed : Bool) (before : Option StreamError) (error : StreamError) (sink : ω) :
    settle failed before (some error, sink) = ⟨sink, true, some error⟩ := rfl

theorem flush_of_failed [Sink ω] {device : StreamOutput ω} (h : device.failed = true) :
    device.flush = device := by
  cases device with
  | mk sink failed error =>
    cases h
    rfl

end StreamOutput

-- ---------------------------------------------------------------------------
-- Sinks
-- ---------------------------------------------------------------------------

structure BufferedSink where
  /-- Why the file refuses bytes, if it does. -/
  refusal : Option StreamError := none
  delivered : Array UInt8 := #[]
  pending : Array UInt8 := #[]
  deriving DecidableEq, Repr

namespace BufferedSink

def capacity : Nat := 8192

def flush (sink : BufferedSink) : Option StreamError × BufferedSink :=
  if sink.pending.isEmpty then (none, sink)
  else
    match sink.refusal with
    | some error => (some error, sink)
    | none => (none, { sink with delivered := sink.delivered ++ sink.pending, pending := #[] })

def push (sink : BufferedSink) (byte : UInt8) : BufferedSink :=
  { sink with pending := sink.pending.push byte }

/-- A full buffer is flushed first; if that fails the byte is not taken. -/
def write (sink : BufferedSink) (byte : UInt8) : Option StreamError × BufferedSink :=
  if sink.pending.size < capacity then (none, sink.push byte)
  else
    match sink.flush with
    | (some error, sink) => (some error, sink)
    | (none, sink) => (none, sink.push byte)

instance : Sink BufferedSink where
  write := write
  flush := flush

def contents (sink : BufferedSink) : Array UInt8 :=
  sink.flush.2.delivered

end BufferedSink

inductive WriteReply
  | accept
  | zero
  | failure (error : StreamError)
  deriving DecidableEq, Repr

structure ScriptedSink where
  writes : List WriteReply := []
  flushes : List (Option StreamError) := []
  accepted : Array UInt8 := #[]
  /-- How many bytes had been accepted at each flush that succeeded. -/
  flushedAt : Array Nat := #[]
  writeCalls : Nat := 0
  deriving DecidableEq, Repr

namespace ScriptedSink

/-- The answer to a write after interruptions, the script left, and the calls made so far. -/
def answer (calls : Nat) : List WriteReply → Option StreamError × List WriteReply × Nat
  | [] => (none, [], calls + 1)
  | .accept :: rest => (none, rest, calls + 1)
  | .zero :: rest => (some .writeZero, rest, calls + 1)
  | .failure error :: rest =>
    if error.kind = .interrupted then answer (calls + 1) rest else (some error, rest, calls + 1)

def write (sink : ScriptedSink) (byte : UInt8) : Option StreamError × ScriptedSink :=
  match answer sink.writeCalls sink.writes with
  | (none, writes, writeCalls) =>
    (none, { sink with writes, writeCalls, accepted := sink.accepted.push byte })
  | (some error, writes, writeCalls) => (some error, { sink with writes, writeCalls })

def flush (sink : ScriptedSink) : Option StreamError × ScriptedSink :=
  match sink.flushes.headD none with
  | none =>
    (none, { sink with
      flushes := sink.flushes.tail, flushedAt := sink.flushedAt.push sink.accepted.size })
  | some error => (some error, { sink with flushes := sink.flushes.tail })

instance : Sink ScriptedSink where
  write := write
  flush := flush

end ScriptedSink

end RingMachine

import RingMachine.Device.Stream
import RingMachine.Program
import RingMachine.Proofs.Lockstep

/-!
# Devices over byte streams

An input over a source is a queue that holds from the start what the source delivers
before it ends: that it looks one byte ahead, skips interruptions and asks for nothing
behind the end does not show. An output over a sink that never fails is a buffer that is
never busy. So a machine between two streams is in lockstep with one between a queue and
a buffer.
-/

namespace RingMachine

-- ---------------------------------------------------------------------------
-- Sources
-- ---------------------------------------------------------------------------

/-- The bytes that a source delivers before its first end or failure. Interruptions are
skipped, and nothing behind the end counts. -/
def Source.delivered : List Reply → List UInt8
  | [] => []
  | .byte value :: rest => value :: delivered rest
  | .endOfInput :: _ => []
  | .failure error :: rest => if error.kind = .interrupted then delivered rest else []

theorem Source.delivered_answer (reads : Nat) (script : List Reply) :
    (∃ value, (answer reads script).1 = .byte value ∧
      delivered script = value :: delivered (answer reads script).2.script) ∨
    ((∀ value, (answer reads script).1 ≠ .byte value) ∧ delivered script = []) := by
  induction script generalizing reads with
  | nil => exact .inr ⟨by simp [answer], rfl⟩
  | cons reply rest ih =>
    cases reply with
    | byte value => exact .inl ⟨value, rfl, rfl⟩
    | endOfInput => exact .inr ⟨by simp [answer], rfl⟩
    | failure error =>
      by_cases hkind : error.kind = .interrupted
      · simp only [answer, delivered, if_pos hkind]
        exact ih (reads + 1)
      · simp only [answer, delivered, if_neg hkind]
        exact .inr ⟨by simp, trivial⟩

namespace StreamInput

variable {device : StreamInput}

/-- The bytes that a device has still to give: the one it holds, and what its source
delivers unless it is closed. -/
def pending (device : StreamInput) : List UInt8 :=
  device.held.toList ++ if device.closed then [] else Source.delivered device.source.script

theorem pending_fill (hheld : device.held = none) (hopen : device.closed = false) :
    device.fill.pending = device.pending ∧
      (device.fill.held = none → device.fill.pending = []) := by
  have hpending : device.pending = Source.delivered device.source.script := by
    simp [pending, hheld, hopen]
  rw [hpending]
  rcases Source.delivered_answer device.source.reads device.source.script with
    ⟨value, hvalue, hdelivered⟩ | ⟨hnone, hdelivered⟩
  · rcases hanswer : device.source.next with ⟨reply, source⟩
    rw [Source.next] at hanswer
    rw [hanswer] at hvalue hdelivered
    cases hvalue
    simp [fill, Source.next, hanswer, pending, hopen, hdelivered]
  · rcases hanswer : device.source.next with ⟨value | _ | error, source⟩
    all_goals
      rw [Source.next] at hanswer
      rw [hanswer] at hnone
    · exact absurd rfl (hnone value)
    · simp [fill, Source.next, hanswer, pending, hheld, hdelivered]
    · simp [fill, Source.next, hanswer, pending, hheld, hdelivered]

theorem pending_hasByte (device : StreamInput) :
    device.hasByte.2.pending = device.pending ∧
      (device.hasByte.1 = true → ∃ value, device.hasByte.2.held = some value) ∧
      (device.hasByte.1 = false → device.pending = []) := by
  unfold hasByte
  cases hheld : device.held with
  | some value => simp [hheld]
  | none =>
    cases hopen : device.closed with
    | true => simp [hheld, pending, hopen]
    | false =>
      obtain ⟨hsame, hempty⟩ := pending_fill hheld hopen
      refine ⟨hsame, Option.isSome_iff_exists.mp, fun hnone => ?_⟩
      rw [← hsame]
      exact hempty (Option.not_isSome_iff_eq_none.mp (by simpa using hnone))

theorem pending_takeByte {value : UInt8} (hheld : device.held = some value) :
    device.takeByte.1 = value ∧ device.pending = value :: device.takeByte.2.pending := by
  simp [takeByte, pending, hheld]

theorem simulates_queue :
    InputSimulation fun (device : StreamInput) (queue : QueueInput) =>
      device.pending = queue.pending := by
  constructor
  · intro device queue h
    obtain ⟨hsame, htrue, hfalse⟩ := device.pending_hasByte
    refine ⟨?_, hsame.trans h⟩
    show device.hasByte.1 = !queue.pending.isEmpty
    cases hbyte : device.hasByte.1 with
    | false => simp [← h, hfalse hbyte]
    | true =>
      obtain ⟨value, hheld⟩ := htrue hbyte
      have hpending := (pending_takeByte hheld).2
      rw [hsame, h] at hpending
      simp [hpending]
  · intro device queue h hbyte
    obtain ⟨hsame, htrue, -⟩ := device.pending_hasByte
    obtain ⟨value, hheld⟩ := htrue hbyte
    obtain ⟨htaken, hpending⟩ := pending_takeByte hheld
    rw [hsame, h] at hpending
    have hqueue : queue.takeByte = (value, ⟨device.hasByte.2.takeByte.2.pending⟩) := by
      simp [QueueInput.takeByte, hpending]
    show device.hasByte.2.takeByte.1 = queue.takeByte.1 ∧
      device.hasByte.2.takeByte.2.pending = queue.takeByte.2.pending
    rw [hqueue]
    exact ⟨htaken, rfl⟩

end StreamInput

-- ---------------------------------------------------------------------------
-- Sinks
-- ---------------------------------------------------------------------------

/-- Sinks that never fail: as long as a sink is fine every write and every flush
succeeds and leaves it fine, and it keeps what is written to it. -/
structure Reliable {ω : Type} [Sink ω] (fine : ω → Prop) (accepted : ω → List UInt8) : Prop where
  write : ∀ {sink}, fine sink → ∀ byte, ∃ next, Sink.write sink byte = (none, next) ∧ fine next ∧
    accepted next = accepted sink ++ [byte]
  flush : ∀ {sink}, fine sink → ∃ next, Sink.flush sink = (none, next) ∧ fine next ∧
    accepted next = accepted sink

/-- A script on which no write and no flush fails. Interruptions are no failures. -/
def ScriptedSink.Fine (sink : ScriptedSink) : Prop :=
  (∀ reply ∈ sink.writes, reply = .accept ∨ ∃ error, reply = .failure error ∧
    error.kind = .interrupted) ∧ ∀ reply ∈ sink.flushes, reply = none

theorem ScriptedSink.answer_of_fine (calls : Nat) {writes : List WriteReply}
    (h : ∀ reply ∈ writes, reply = .accept ∨ ∃ error, reply = .failure error ∧
      error.kind = .interrupted) :
    ∃ rest made, answer calls writes = (none, rest, made) ∧ ∀ reply ∈ rest, reply ∈ writes := by
  induction writes generalizing calls with
  | nil => exact ⟨[], calls + 1, rfl, by simp⟩
  | cons reply rest ih =>
    have hrest : ∀ other ∈ rest, other = .accept ∨ ∃ error, other = .failure error ∧
        error.kind = .interrupted := fun other hother => h other (by simp [hother])
    rcases h reply (by simp) with rfl | ⟨error, rfl, hkind⟩
    · exact ⟨rest, calls + 1, rfl, fun other hother => by simp [hother]⟩
    · obtain ⟨left, made, hanswer, hleft⟩ := ih (calls + 1) hrest
      refine ⟨left, made, ?_, fun other hother => by simp [hleft other hother]⟩
      simp only [answer, if_pos hkind, hanswer]

theorem ScriptedSink.reliable : Reliable Fine fun sink => sink.accepted.toList := by
  constructor
  · rintro sink ⟨hwrites, hflushes⟩ byte
    obtain ⟨rest, made, hanswer, hrest⟩ := answer_of_fine sink.writeCalls hwrites
    refine ⟨{ sink with writes := rest, writeCalls := made, accepted := sink.accepted.push byte },
      ?_, ⟨fun reply hreply => hwrites reply (hrest reply hreply), hflushes⟩, by simp⟩
    simp only [Sink.write, ScriptedSink.write, hanswer]
  · rintro sink ⟨hwrites, hflushes⟩
    have hhead : sink.flushes.headD none = none := by
      cases hlist : sink.flushes with
      | nil => rfl
      | cons reply rest => exact hflushes reply (by simp [hlist])
    refine ⟨{ sink with
      flushes := sink.flushes.tail, flushedAt := sink.flushedAt.push sink.accepted.size },
      ?_, ⟨hwrites, fun reply hreply => hflushes reply (List.mem_of_mem_tail hreply)⟩, rfl⟩
    simp only [Sink.flush, ScriptedSink.flush, hhead]

theorem BufferedSink.flush_of_accepting {sink : BufferedSink} (h : sink.refusal = none) :
    sink.flush = (none, { sink with delivered := sink.delivered ++ sink.pending, pending := #[] }) := by
  obtain ⟨refusal, delivered, pending⟩ := sink
  unfold BufferedSink.flush
  split
  · rename_i hempty
    obtain rfl : pending = #[] := by simpa using hempty
    simp
  · simp only [show refusal = none from h]

theorem BufferedSink.contents_of_accepting {sink : BufferedSink} (h : sink.refusal = none) :
    sink.contents = sink.delivered ++ sink.pending := by
  rw [contents, flush_of_accepting h]

theorem BufferedSink.contents_push {sink : BufferedSink} (h : sink.refusal = none) (byte : UInt8) :
    (sink.push byte).contents = sink.contents.push byte := by
  have hpushed : (sink.push byte).contents = sink.delivered ++ sink.pending.push byte :=
    contents_of_accepting h
  rw [hpushed, contents_of_accepting h, Array.push_append]

theorem BufferedSink.contents_flush {sink : BufferedSink} (h : sink.refusal = none) :
    ∃ next, sink.flush = (none, next) ∧ next.refusal = none ∧ next.contents = sink.contents := by
  let next := { sink with delivered := sink.delivered ++ sink.pending, pending := #[] }
  have hnext : next.contents = next.delivered ++ #[] := contents_of_accepting h
  refine ⟨next, flush_of_accepting h, h, ?_⟩
  rw [hnext, Array.append_empty, contents_of_accepting h]

theorem BufferedSink.reliable :
    Reliable (fun sink : BufferedSink => sink.refusal = none) fun sink => sink.contents.toList := by
  constructor
  · intro sink h byte
    show ∃ next, BufferedSink.write sink byte = (none, next) ∧ next.refusal = none ∧
      next.contents.toList = sink.contents.toList ++ [byte]
    unfold BufferedSink.write
    split
    · exact ⟨sink.push byte, rfl, h, by simp [contents_push h]⟩
    · obtain ⟨next, hflush, hnext, hkept⟩ := contents_flush h
      rw [hflush]
      exact ⟨next.push byte, rfl, hnext, by simp [contents_push hnext, hkept]⟩
  · intro sink h
    obtain ⟨next, hflush, hnext, hkept⟩ := contents_flush h
    exact ⟨next, hflush, hnext, congrArg Array.toList hkept⟩

theorem Reliable.simulates_buffer {ω : Type} [Sink ω] {fine : ω → Prop} {accepted : ω → List UInt8}
    (h : Reliable fine accepted) (earlier : List UInt8) :
    OutputSimulation fun (device : StreamOutput ω) (buffer : BufferOutput) =>
      device.failed = false ∧ fine device.sink ∧
        accepted device.sink = earlier ++ buffer.bytes.toList ∧ buffer.busy = false := by
  constructor
  · rintro device buffer ⟨hfailed, hfine, haccepted, hbusy⟩
    refine ⟨?_, hfailed, hfine, haccepted, hbusy⟩
    simp [Output.isReady, hfailed, hbusy]
  · rintro ⟨sink, failed, error⟩ buffer ⟨hfailed, hfine, haccepted, hbusy⟩ - byte
    obtain ⟨next, hwrite, hnext, hbytes⟩ := h.write hfine byte
    have hdevice : Output.write (Output.isReady (⟨sink, failed, error⟩ : StreamOutput ω)).2 byte =
        ⟨next, failed, error⟩ := by
      show StreamOutput.settle failed error (Sink.write sink byte) = _
      rw [hwrite, StreamOutput.settle_none]
    have hbuffer : (Output.write (Output.isReady buffer).2 byte).bytes.toList =
        buffer.bytes.toList ++ [byte] := Array.toList_push
    rw [hdevice]
    refine ⟨hfailed, hnext, ?_, hbusy⟩
    rw [hbytes, haccepted, hbuffer, List.append_assoc]
  · rintro ⟨sink, failed, error⟩ buffer ⟨hfailed, hfine, haccepted, hbusy⟩
    obtain rfl : failed = false := hfailed
    obtain ⟨next, hflush, hnext, hbytes⟩ := h.flush hfine
    have hdevice : Output.flush (⟨sink, false, error⟩ : StreamOutput ω) = ⟨next, false, error⟩ := by
      show StreamOutput.settle false error (Sink.flush sink) = _
      rw [hflush, StreamOutput.settle_none]
    rw [hdevice]
    exact ⟨rfl, hnext, hbytes.trans haccepted, hbusy⟩

-- ---------------------------------------------------------------------------
-- Machines between streams
-- ---------------------------------------------------------------------------

namespace Machine

/-- A machine between a source and a sink that never fails cannot be told from one between
a queue of what the source delivers and a buffer: every call returns and reports the same
and leaves the same registers, memory, origin and count, and what the sink has accepted is
what the buffer holds. A run without a limit ends on both or on neither. -/
theorem streams_refine_memory {μ ω : Type} [Memory μ] [Sink ω] {fine : ω → Prop}
    {accepted : ω → List UInt8} (hreliable : Reliable fine accepted) (memory : μ)
    (script : List Reply) {sink : ω} (hfine : fine sink) (commands : List Command) :
    let streamed := start memory (StreamInput.ofSource { script }) (StreamOutput.ofSink sink)
    let stored := start memory (⟨Source.delivered script⟩ : QueueInput) ({} : BufferOutput)
    (streamed.turns (commands.map Command.request)).map
        (Turn.shown fun output => accepted output.sink) =
      (stored.turns (commands.map Command.request)).map
        (Turn.shown fun output => accepted sink ++ output.bytes.toList) ∧
    ∀ fuel limit,
      ((streamed.after (commands.map Command.request)).runWithin (· ++ ·) fuel limit
          ({} : Journal)).map (Turn.shown fun output => accepted output.sink) =
        ((stored.after (commands.map Command.request)).runWithin (· ++ ·) fuel limit
          ({} : Journal)).map (Turn.shown fun output => accepted sink ++ output.bytes.toList) := by
  intro streamed stored
  have hout := hreliable.simulates_buffer (accepted sink)
  have hstart : Lockstep (fun device queue => device.pending = queue.pending)
      (fun device buffer => device.failed = false ∧ fine device.sink ∧
        accepted device.sink = accepted sink ++ buffer.bytes.toList ∧ buffer.busy = false)
      streamed stored :=
    ⟨rfl, rfl, rfl, hfine, (List.append_nil _).symm, rfl⟩
  refine ⟨hstart.turns StreamInput.simulates_queue hout (fun h => h.2.2.1) commands, ?_⟩
  intro fuel limit
  exact (hstart.after StreamInput.simulates_queue hout commands).runWithin
    StreamInput.simulates_queue hout (fun h => h.2.2.1) (· ++ ·) fuel limit {}

def echoImage : Image where
  text := [0x2c, 0x2e, 0x2c, 0x2e]
  data := []
  checked := rfl
  fits := by decide

def interruption : StreamError := ⟨.interrupted, "again"⟩

/-- Interrupted twice, and with a byte behind the end. -/
def brokenScript : List Reply :=
  [.failure interruption, .byte 0x41, .failure interruption, .endOfInput, .byte 0x42]

def patientSink : ScriptedSink :=
  { writes := [.failure interruption, .accept] }

theorem streams_refine_memory_echo :
    patientSink.Fine ∧ Source.delivered brokenScript = [0x41] ∧
      (((start echoImage.ram (StreamInput.ofSource { script := brokenScript })
          (StreamOutput.ofSink patientSink)).turns
            ([Command.boot, .run 9, .step].map Command.request)).map
              (Turn.shown fun output => output.sink.accepted.toList)).map
                (fun turn => (turn.result, turn.machine.output)) =
        [(.ok (.located 4), []), (.ok (.stopped (.blocked .input)), [0x41]),
          (.ok (.stepped (.blocked .input)), [0x41])] := by
  have hfine : patientSink.Fine := by simp [ScriptedSink.Fine, patientSink, interruption]
  obtain ⟨hturns, -⟩ := streams_refine_memory ScriptedSink.reliable echoImage.ram brokenScript hfine
    [.boot, .run 9, .step]
  refine ⟨hfine, by decide, ?_⟩
  rw [hturns]
  decide +kernel

end Machine

end RingMachine

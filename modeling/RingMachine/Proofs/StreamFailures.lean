import RingMachine.Proofs.DeviceCalls
import RingMachine.Proofs.StreamDevices

/-!
# Failures of byte streams

A device over a stream keeps of its failures what the host will ask for. Here this is
compared with the streams themselves: with a sink that is given what the machine wrote
and flushed, up to its first failure, and with the replies that the reads of a source
got. The devices keep neither less nor more, and a run closes its input, or waits for its
output, only if the stream beneath has ended or failed. What a host gets from a device that
it asks one query after another is said first, for all devices.
-/

namespace RingMachine

-- ---------------------------------------------------------------------------
-- Dialogues
-- ---------------------------------------------------------------------------

section
variable {σ δ κ α : Type} {ask : σ → κ → σ} {give : σ → κ → Option α}

/-- What a device gives to queries that are asked one after another. -/
def gathered (ask : σ → κ → σ) (give : σ → κ → Option α) : σ → List κ → List α
  | _, [] => []
  | device, query :: rest => (give device query).toList ++ gathered ask give (ask device query) rest

theorem gathered_concat (device : σ) (past : List κ) (query : κ) :
    gathered ask give device (past ++ [query]) =
      gathered ask give device past ++ (give (past.foldl ask device) query).toList := by
  induction past generalizing device with
  | nil => simp [gathered]
  | cons first past ih => simp [gathered, ih]

theorem gathered_hom {other : δ → κ → δ} {give' : δ → κ → Option α} {f : σ → δ}
    (hask : ∀ device query, f (ask device query) = other (f device) query)
    (hgive : ∀ device query, give device query = give' (f device) query)
    (device : σ) (queries : List κ) :
    gathered ask give device queries = gathered other give' (f device) queries := by
  induction queries generalizing device with
  | nil => rfl
  | cons query rest ih => simp only [gathered, ih, hask, hgive]

end

-- ---------------------------------------------------------------------------
-- Sinks
-- ---------------------------------------------------------------------------

namespace Sink

variable {ω : Type} [Sink ω]

/-- A sink and its first failure, after one more call of the machine. A sink that has
failed is given nothing more. -/
def give : Option StreamError × ω → Call → Option StreamError × ω
  | (some error, sink), _ => (some error, sink)
  | (none, sink), .write byte => Sink.write sink byte
  | (none, sink), .flush => Sink.flush sink
  | (none, sink), _ => (none, sink)

def fed (sink : ω) (calls : List Call) : Option StreamError × ω :=
  calls.foldl give (none, sink)

def firstFailure (sink : ω) (calls : List Call) : Option StreamError :=
  (fed sink calls).1

@[simp] theorem give_isReady (state : Option StreamError × ω) (answer : Bool) :
    give state (.isReady answer) = state := by
  rcases state with ⟨_ | error, sink⟩ <;> rfl

@[simp] theorem give_hasByte (state : Option StreamError × ω) (answer : Bool) :
    give state (.hasByte answer) = state := by
  rcases state with ⟨_ | error, sink⟩ <;> rfl

@[simp] theorem give_takeByte (state : Option StreamError × ω) (byte : UInt8) :
    give state (.takeByte byte) = state := by
  rcases state with ⟨_ | error, sink⟩ <;> rfl

theorem fed_append (sink : ω) (first second : List Call) :
    fed sink (first ++ second) = second.foldl give (fed sink first) :=
  List.foldl_append

theorem firstFailure_append {sink : ω} {first : List Call} {error : StreamError}
    (h : firstFailure sink first = some error) (second : List Call) :
    firstFailure sink (first ++ second) = some error := by
  have hstays (state : ω) : second.foldl give (some error, state) = (some error, state) := by
    induction second with
    | nil => rfl
    | cons call rest ih => exact ih
  rw [firstFailure] at h
  rcases hfed : fed sink first with ⟨found, state⟩
  rw [hfed] at h
  cases h
  rw [firstFailure, fed_append, hfed, hstays]

end Sink

theorem Reliable.fed {ω : Type} [Sink ω] {fine : ω → Prop} {accepted : ω → List UInt8}
    (h : Reliable fine accepted) {sink : ω} (hfine : fine sink) (calls : List Call) :
    ∃ next, Sink.fed sink calls = (none, next) ∧ fine next ∧
      accepted next = accepted sink ++ calls.filterMap Call.written := by
  induction calls generalizing sink with
  | nil => exact ⟨sink, rfl, hfine, by simp⟩
  | cons call rest ih =>
    have hgive : ∃ given, Sink.give (none, sink) call = (none, given) ∧ fine given ∧
        accepted given = accepted sink ++ call.written.toList := by
      cases call with
      | write byte => exact h.write hfine byte
      | flush =>
        obtain ⟨given, hflush, hgiven, hkept⟩ := h.flush hfine
        exact ⟨given, hflush, hgiven, by simp [hkept, Call.written]⟩
      | _ => exact ⟨sink, rfl, hfine, by simp [Call.written]⟩
    obtain ⟨given, hcall, hgiven, hfirst⟩ := hgive
    obtain ⟨next, hrest, hnext, hbytes⟩ := ih hgiven
    refine ⟨next, ?_, hnext, ?_⟩
    · rw [← hrest, Sink.fed, List.foldl_cons, hcall]
      rfl
    · rw [hbytes, hfirst, List.append_assoc]
      cases hwritten : call.written <;> simp [hwritten]

namespace StreamOutput

variable {ω : Type} [Sink ω]

def ofFed : Option StreamError × ω → StreamOutput ω
  | (error, sink) => ⟨sink, error.isSome, error⟩

omit [Sink ω] in
theorem settle_ofFed (answer : Option StreamError × ω) : settle false none answer = ofFed answer := by
  rcases answer with ⟨_ | error, sink⟩ <;> rfl

theorem write_ofFed {state : Option StreamError × ω} (h : (ofFed state).failed = false)
    (byte : UInt8) : (ofFed state).write byte = ofFed (Sink.give state (.write byte)) := by
  rcases state with ⟨_ | error, sink⟩
  · exact settle_ofFed _
  · cases h

theorem flush_ofFed (state : Option StreamError × ω) :
    (ofFed state).flush = ofFed (Sink.give state .flush) := by
  rcases state with ⟨_ | error, sink⟩
  · exact settle_ofFed _
  · rfl

end StreamOutput

-- ---------------------------------------------------------------------------
-- Sources
-- ---------------------------------------------------------------------------

/-- The failure that ends a source; an interruption does not. -/
def Reply.fatal? : Reply → Option StreamError
  | failure error => if error.kind = .interrupted then none else some error
  | _ => none

def Reply.Interrupts (reply : Reply) : Prop :=
  ∃ error, reply = failure error ∧ error.kind = .interrupted

namespace Source

def given (script : List Reply) (reads : Nat) : List Reply :=
  (List.range reads).map fun i => script.getD i .endOfInput

def failure? (script : List Reply) (reads : Nat) : Option StreamError :=
  (given script reads).findSome? Reply.fatal?

theorem given_succ {script rest : List Reply} {reads : Nat} (hrest : script.drop reads = rest) :
    rest.tail = script.drop (reads + 1) ∧
      given script (reads + 1) = given script reads ++ [rest.headD .endOfInput] := by
  subst hrest
  exact ⟨List.tail_drop, by simp [given, List.range_succ, List.getD]⟩

/-- The reads for an answer get it last, and only interruptions before it. -/
theorem given_of_answer {script : List Reply} {reads : Nat} {reply : Reply} {source : Source}
    (h : answer reads (script.drop reads) = (reply, source)) :
    source.script = script.drop source.reads ∧
      ∃ skipped, given script source.reads = given script reads ++ skipped ++ [reply] ∧
        (∀ other ∈ skipped, other.Interrupts) ∧ ¬ reply.Interrupts := by
  generalize hrest : script.drop reads = rest at h
  induction rest generalizing reads with
  | nil =>
    obtain ⟨htail, hgiven⟩ := given_succ hrest
    cases h
    exact ⟨htail, [], by simpa using hgiven, by simp, by simp [Reply.Interrupts]⟩
  | cons first rest ih =>
    obtain ⟨htail, hgiven⟩ := given_succ hrest
    rcases first with value | _ | error
    · cases h
      exact ⟨htail, [], by simpa using hgiven, by simp, by simp [Reply.Interrupts]⟩
    · cases h
      exact ⟨htail, [], by simpa using hgiven, by simp, by simp [Reply.Interrupts]⟩
    · rw [answer] at h
      split at h
      · -- The interruption counts as a read, and shows in nothing else.
        rename_i hkind
        obtain ⟨hscript, skipped, hlater, hskipped, hreply⟩ := ih htail.symm h
        refine ⟨hscript, .failure error :: skipped, ?_, ?_, hreply⟩
        · simp [hlater, hgiven]
        · exact List.forall_mem_cons.mpr ⟨⟨error, rfl, hkind⟩, hskipped⟩
      · rename_i hkind
        cases h
        exact ⟨htail, [], by simpa using hgiven, by simp, by simpa [Reply.Interrupts] using hkind⟩

theorem given_answer {script : List Reply} {reads : Nat} {reply : Reply} {source : Source}
    (h : answer reads (script.drop reads) = (reply, source)) :
    source.script = script.drop source.reads ∧
      failure? script source.reads = (failure? script reads).or reply.fatal? ∧
      (.endOfInput ∈ given script source.reads ↔
        .endOfInput ∈ given script reads ∨ reply = .endOfInput) ∧
      ∀ error, reply = .failure error → reply.fatal? = some error := by
  obtain ⟨hscript, skipped, hgiven, hskipped, hreply⟩ := given_of_answer h
  have hfatal : skipped.findSome? Reply.fatal? = none := by
    rw [List.findSome?_eq_none_iff]
    intro other hother
    obtain ⟨error, rfl, hkind⟩ := hskipped other hother
    simp [Reply.fatal?, hkind]
  have hended : .endOfInput ∉ skipped := by
    intro hmem
    obtain ⟨error, hother, -⟩ := hskipped _ hmem
    cases hother
  refine ⟨hscript, ?_, ?_, ?_⟩
  · simp [failure?, hgiven, List.findSome?_append, hfatal]
  · simp [hgiven, hended, eq_comm]
  · rintro error rfl
    have hkind : error.kind ≠ .interrupted := fun hkind => hreply ⟨error, rfl, hkind⟩
    simp [Reply.fatal?, hkind]

end Source

namespace StreamInput

variable {script : List Reply} {device : StreamInput}

/-- What a device over a source keeps of the replies that its reads got. -/
structure Follows (script : List Reply) (device : StreamInput) : Prop where
  rest : device.source.script = script.drop device.source.reads
  error : device.error = Source.failure? script device.source.reads
  closed : device.closed = true ↔
    .endOfInput ∈ Source.given script device.source.reads ∨ device.error ≠ none

theorem follows_ofSource (script : List Reply) : Follows script (ofSource { script }) where
  rest := rfl
  error := rfl
  closed := by simp [ofSource, Source.given]

theorem Follows.of_open (h : Follows script device) (hopen : device.closed = false) :
    device.error = none ∧ .endOfInput ∉ Source.given script device.source.reads := by
  have hnot := mt h.closed.mpr (by simp [hopen])
  simpa [and_comm] using hnot

theorem Follows.fill (h : Follows script device) (hopen : device.closed = false) :
    Follows script device.fill := by
  obtain ⟨hnone, hnotYet⟩ := h.of_open hopen
  rcases hnext : device.source.next with ⟨reply, source⟩
  have hanswer := hnext
  rw [Source.next, h.rest] at hanswer
  obtain ⟨hrest, hfailure, hended, hfatal⟩ := Source.given_answer hanswer
  rw [← h.error, hnone, Option.none_or] at hfailure
  rcases reply with value | _ | error
  · have hfill : device.fill = { device with source, held := some value } := by
      simp only [StreamInput.fill, hnext]
    rw [hfill]
    exact ⟨hrest, hnone.trans hfailure.symm, by simp [hopen, hnone, hended, hnotYet]⟩
  · have hfill : device.fill = { device with source, closed := true } := by
      simp only [StreamInput.fill, hnext]
    rw [hfill]
    exact ⟨hrest, hnone.trans hfailure.symm, by simp [hended]⟩
  · have hfill : device.fill = { device with source, closed := true, error := some error } := by
      simp only [StreamInput.fill, hnext]
    rw [hfill]
    exact ⟨hrest, (hfailure.trans (hfatal error rfl)).symm, by simp⟩

theorem Follows.hasByte (h : Follows script device) : Follows script device.hasByte.2 := by
  unfold StreamInput.hasByte
  split
  · rename_i hasks
    exact h.fill (by simp_all)
  · exact h

theorem Follows.takeByte (h : Follows script device) : Follows script device.takeByte.2 :=
  ⟨h.rest, h.error, h.closed⟩

theorem closed_hasByte (hopen : device.closed = false) :
    device.hasByte.2.closed = !device.hasByte.1 := by
  unfold StreamInput.hasByte
  cases hheld : device.held with
  | some value => simp [hheld, hopen]
  | none =>
    rcases hnext : device.source.next with ⟨value | _ | error, source⟩ <;>
      simp [hopen, hheld, StreamInput.fill, hnext]

end StreamInput

-- ---------------------------------------------------------------------------
-- Runs between streams
-- ---------------------------------------------------------------------------

namespace Machine

variable {μ ω : Type} [Sink ω] {script : List Reply} {sink : ω}
variable {m : Machine μ StreamInput (StreamOutput ω)} {journal : Journal}

/-- The devices of a machine that has reported some calls are as these calls leave the
streams beneath them. -/
structure Streams (script : List Reply) (sink : ω) (m : Machine μ StreamInput (StreamOutput ω))
    (journal : Journal) : Prop where
  input : m.input.Follows script
  output : m.output = .ofFed (Sink.fed sink journal.calls)

theorem streams_start (memory : μ) (script : List Reply) (sink : ω) :
    Streams script sink (start memory (.ofSource { script }) (.ofSink sink)) {} :=
  ⟨StreamInput.follows_ofSource script, rfl⟩

theorem Streams.flush (h : Streams script sink m journal) :
    m.output.flush = .ofFed (Sink.fed sink (journal.calls ++ [.flush])) := by
  rw [h.output, StreamOutput.flush_ofFed, Sink.fed_append]
  rfl

theorem Streams.silent {next : Machine μ StreamInput (StreamOutput ω)} {reported : Journal}
    (h : Streams script sink m journal) (hinput : next.input = m.input)
    (houtput : next.output = m.output) (hcalls : reported.calls = []) :
    Streams script sink next (journal ++ reported) := by
  constructor
  · rw [hinput]
    exact h.input
  · rw [houtput, Journal.calls_append, hcalls, List.append_nil]
    exact h.output

/-- Who waits for the input has closed it, and nobody else has; who waits for the output
has seen it fail. -/
structure Stopped (waits : Port → Prop) (m : Machine μ StreamInput (StreamOutput ω)) : Prop where
  input : m.input.closed = true ↔ waits .input
  output : waits .output → m.output.failed = true

omit [Sink ω] in
theorem Stopped.of_open {waits : Port → Prop} (hopen : m.input.closed = false)
    (hwaits : ∀ port, ¬ waits port) : Stopped waits m :=
  ⟨by simp [hopen, hwaits], fun h => absurd h (hwaits _)⟩

variable [Memory μ]

theorem Streams.outcome {turn : Turn Step Journal μ StreamInput (StreamOutput ω)}
    (h : Streams script sink m journal) (hturn : Outcome m turn) :
    Streams script sink turn.machine (journal ++ turn.trace) := by
  -- Asking does nothing to the sink, and a byte is written only if it has not failed.
  cases hturn with
  | waitsForOutput =>
    refine ⟨h.input, ?_⟩
    show m.output = _
    rw [h.output, Journal.calls_append, Sink.fed_append]
    simp
  | writes _ hready =>
    have hfailed : m.output.failed = false := by simpa [Output.isReady] using hready
    refine ⟨h.input, ?_⟩
    show m.output.write m.cell = _
    rw [h.output] at hfailed ⊢
    rw [StreamOutput.write_ofFed hfailed, Journal.calls_append, Sink.fed_append]
    simp
  | waitsForInput =>
    refine ⟨h.input.hasByte, ?_⟩
    show m.output.flush = _
    rw [h.flush, Journal.calls_append, Sink.fed_append, Sink.fed_append]
    simp
  | @takes byte rest _ _ htake =>
    constructor
    · have hrest := h.input.hasByte.takeByte
      rwa [show m.input.hasByte.2.takeByte = (byte, rest) from htake] at hrest
    · show m.output.flush = _
      rw [h.flush, Journal.calls_append, Sink.fed_append, Sink.fed_append]
      simp
  | retires | jumps | fails | halts => exact h.silent rfl rfl rfl

theorem Streams.step (h : Streams script sink m journal) :
    Streams script sink m.step.machine (journal ++ m.step.trace) := by
  have hdevices := m.devices_boot
  rcases m.step_cases with ⟨-, hstep⟩ | ⟨-, -, -, hstep⟩ | ⟨-, _, turn, -, hturn, hstep⟩
  · rw [hstep]
    exact h.silent rfl rfl rfl
  · rw [hstep]
    exact h.silent rfl rfl rfl
  · rw [hstep, ← Journal.append_assoc]
    have hboot : Streams script sink m.boot.machine (journal ++ m.boot.trace) :=
      h.silent (congrArg Prod.fst hdevices) (congrArg Prod.snd hdevices) m.calls_boot
    exact hboot.outcome hturn

theorem Streams.run (h : Streams script sink m journal) (limit : Nat) :
    Streams script sink (m.run (· ++ ·) limit journal).machine
      (m.run (· ++ ·) limit journal).trace :=
  run_induction (P := Streams script sink) h fun _ _ _ hs => hs.step

theorem Outcome.stopped {turn : Turn Step Journal μ StreamInput (StreamOutput ω)}
    (h : Outcome m turn) (hopen : m.input.closed = false) :
    Stopped (fun port => turn.result = .ok (.blocked port)) turn.machine := by
  cases h with
  | waitsForOutput _ hready =>
    refine ⟨by simp [hopen], fun _ => ?_⟩
    simpa [Output.isReady] using hready
  | waitsForInput _ hbyte =>
    have hclosed := StreamInput.closed_hasByte hopen
    rw [show m.input.hasByte.1 = false from hbyte] at hclosed
    exact ⟨by simp [Input.hasByte, hclosed], by simp⟩
  | @takes byte rest _ hbyte htake =>
    have hclosed := StreamInput.closed_hasByte hopen
    rw [show m.input.hasByte.1 = true from hbyte] at hclosed
    refine .of_open ?_ (by simp)
    show rest.closed = false
    rw [← show m.input.hasByte.2.takeByte.2 = rest from congrArg Prod.snd htake]
    exact hclosed
  | retires | jumps | fails | halts | writes => exact .of_open hopen (by simp [retire])

theorem step_stopped (hopen : m.input.closed = false) :
    Stopped (fun port => m.step.result = .ok (.blocked port)) m.step.machine := by
  rcases m.step_cases with ⟨-, hstep⟩ | ⟨-, -, -, hstep⟩ | ⟨-, _, turn, -, hturn, hstep⟩
  · rw [hstep]
    exact .of_open hopen (by simp)
  · rw [hstep]
    exact .of_open hopen (by simp)
  · rw [hstep]
    have hinput : m.boot.machine.input = m.input := congrArg Prod.fst m.devices_boot
    exact hturn.stopped (by rw [hinput, hopen])

theorem run_stopped {τ : Type} {observe : τ → Journal → τ} {limit : Nat} {trace : τ}
    (hopen : m.input.closed = false) :
    Stopped (fun port => (m.run observe limit trace).result = .ok (.blocked port))
      (m.run observe limit trace).machine := by
  induction limit generalizing m trace with
  | zero => exact .of_open hopen (by simp)
  | succ limit ih =>
    have hstep := m.step_stopped hopen
    rw [run_succ_eq]
    generalize m.step = turn at hstep ⊢
    rcases turn with ⟨fault | op | port | _, next, journal⟩
    · have hstill : next.input.closed = false := by simpa using hstep.input
      exact .of_open hstill (by simp [RunExit.ofStep?])
    · exact ih (by simpa using hstep.input)
    · simpa [RunExit.ofStep?] using hstep
    · have hstill : next.input.closed = false := by simpa using hstep.input
      exact .of_open hstill (by simp [RunExit.ofStep?])

end Machine

end RingMachine

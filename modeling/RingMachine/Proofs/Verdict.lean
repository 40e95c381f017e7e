import RingMachine.CommandLine
import RingMachine.Proofs.Account
import RingMachine.Proofs.Faults
import RingMachine.Proofs.StreamFailures
import RingMachine.Proofs.TextSafety

/-!
# Verdicts

A command judges a run by how it ended and by what its devices have kept. Its report is
true of the run and of the two streams: a failure of the sink is never taken for a
success, not even one of the final flush, a failure of the source is not taken for its
end, and no run is found waiting for its output.
-/

namespace RingMachine

namespace Machine

theorem Stuck.run_add {μ ι ο τ : Type} [Memory μ] [Input ι] [Output ο] {m : Machine μ ι ο}
    {observe : τ → Journal → τ} {limit : Nat} {trace : τ} {fault : Fault}
    (h : Stuck (m.run observe limit trace).machine fault)
    (hstopped : (m.run observe limit trace).result = .ok .stepLimit) (more : Nat) :
    (m.run observe (limit + (more + 1)) trace).result = .error fault := by
  obtain ⟨events, hstep⟩ := h.step
  rw [run_add_of_stepLimit hstopped, run, hstep]

/-- A run of an image finds the sentinel, so it can only miss a bracket. -/
theorem located_run {ι ο τ : Type} [Input ι] [Output ο] {observe : τ → Journal → τ} (image : Image)
    (input : ι) (output : ο) (limit : Nat) (trace : τ) :
    ((start image.ram input output).run observe limit trace).result ≠ .error .missingSentinel := by
  intro hfault
  obtain ⟨s, hs, hstep⟩ := fault_of_run hfault
  have hlife : Lifecycle image.ram s :=
    runStarts_induction (lifecycle_start image.ram input output) (fun _ _ h => h.step) s hs
  obtain ⟨-, -, hstuck⟩ := hlife.stuck_of_step hstep
  cases hstuck with
  | unlocated _ horigin hmissing =>
    obtain ⟨-, -, hmemory⟩ := hlife.boot.fresh (hlife.boot.not_ready horigin)
    rw [hmemory, image.intact_ram.findSentinel] at hmissing
    cases hmissing

end Machine

-- ---------------------------------------------------------------------------
-- Verdicts
-- ---------------------------------------------------------------------------

namespace CommandLine

variable {ω : Type} [Sink ω]

/-- What is asked of the sink: what the machine asked, and a final flush unless it failed. -/
def asked (turn : Turn RunExit Journal Ram StreamInput (StreamOutput ω)) : List Call :=
  match turn.result with
  | .error _ => turn.trace.calls
  | .ok _ => turn.trace.calls ++ [.flush]

def inDigits (a : Address) : String :=
  "0x" ++ String.ofList ((Nat.toDigits 16 a.val).leftpad 4 '0')

/-- Why a run was no success, by what its streams have answered, and how that is worded: a
bracket without a partner goes before all failures of the sink, these before a failure of
the source, and that before an end of the input. -/
inductive Diagnosis (script : List Reply) (sink : ω)
    (turn : Turn RunExit Journal Ram StreamInput (StreamOutput ω)) : Failure → String → Prop
  | fault {bracket : Address} (hresult : turn.result = .error (.unmatchedBracket bracket)) :
      Diagnosis script sink turn (.machineFault (.unmatchedBracket bracket))
        ("no matching bracket for the one at " ++ inDigits bracket)
  | output {exit : RunExit} {error : StreamError} (hresult : turn.result = .ok exit)
      (hsink : Sink.firstFailure sink (asked turn) = some error) :
      Diagnosis script sink turn (.writeOutput error) ("failed to write output: " ++ error.message)
  | input {error : StreamError} (hresult : turn.result = .ok (.blocked .input))
      (hsink : Sink.firstFailure sink (asked turn) = none)
      (hsource : Source.failure? script turn.machine.input.source.reads = some error) :
      Diagnosis script sink turn (.readInput error) ("failed to read input: " ++ error.message)
  | exhausted (hresult : turn.result = .ok (.blocked .input))
      (hsink : Sink.firstFailure sink (asked turn) = none)
      (hsource : Source.failure? script turn.machine.input.source.reads = none)
      (hended : .endOfInput ∈ Source.given script turn.machine.input.source.reads) :
      Diagnosis script sink turn (.inputExhausted turn.machine.registers.pc)
        ("program is waiting for input at " ++ inDigits turn.machine.registers.pc ++
          " but the input is exhausted")

inductive Judged (script : List Reply) (sink : ω)
    (turn : Turn RunExit Journal Ram StreamInput (StreamOutput ω)) : Verdict → Prop
  | halted (hresult : turn.result = .ok .halted)
      (hsink : Sink.firstFailure sink (asked turn) = none) :
      Judged script sink turn .halted
  | stepLimit (hresult : turn.result = .ok .stepLimit)
      (hsink : Sink.firstFailure sink (asked turn) = none) :
      Judged script sink turn .stepLimit
  | failed {failure : Failure} {text : String}
      (hfailure : Diagnosis script sink turn failure text) :
      Judged script sink turn (.failed failure)

section
variable {script : List Reply} {sink : ω}
variable {turn : Turn RunExit Journal Ram StreamInput (StreamOutput ω)}

omit [Sink ω] in
theorem asked_of_ok {exit : RunExit} (h : turn.result = .ok exit) :
    asked turn = turn.trace.calls ++ [.flush] := by
  rw [asked, h]

theorem judged_conclude (hstreams : Machine.Streams script sink turn.machine turn.trace)
    (hstopped : Machine.Stopped (fun port => turn.result = .ok (.blocked port)) turn.machine)
    (hlocated : turn.result ≠ .error .missingSentinel) :
    Judged script sink turn (conclude turn).1 := by
  have hinput := hstreams.input.error
  unfold conclude
  cases hresult : turn.result with
  | error fault =>
    cases fault with
    | missingSentinel => exact absurd hresult hlocated
    | unmatchedBracket bracket => exact .failed (.fault hresult)
  | ok exit =>
    have houtput : turn.machine.output.flush.error = Sink.firstFailure sink (asked turn) := by
      rw [hstreams.flush, asked_of_ok hresult]
      rfl
    unfold judge
    simp only [houtput, hinput]
    cases hsink : Sink.firstFailure sink (asked turn) with
    | some error => exact .failed (.output hresult hsink)
    | none =>
      cases hsource : Source.failure? script turn.machine.input.source.reads with
      | some error =>
        have hclosed := hstreams.input.closed.mpr (.inr (by simp [hinput, hsource]))
        exact .failed (.input (hstopped.input.mp hclosed) hsink hsource)
      | none =>
        cases exit with
        | halted => exact .halted hresult hsink
        | stepLimit => exact .stepLimit hresult hsink
        | blocked port =>
          cases port with
          | input =>
            have hclosed := hstreams.input.closed.mp (hstopped.input.mpr hresult)
            have hended := hclosed.resolve_right (by simp [hinput, hsource])
            exact .failed (.exhausted hresult hsink hsource hended)
          | output =>
            -- The sink had failed, and a final flush does not make up for it.
            exfalso
            have hfailed := hstopped.output hresult
            rw [hstreams.output] at hfailed
            obtain ⟨error, herror⟩ := Option.isSome_iff_exists.mp hfailed
            rw [asked_of_ok hresult, Sink.firstFailure_append herror] at hsink
            cases hsink

theorem Judged.not_stalled {verdict : Verdict} (h : Judged script sink turn verdict) (pc : Address) :
    verdict ≠ .failed (.outputStalled pc) := by
  rintro rfl
  cases h with
  | failed hfailure => cases hfailure

theorem sink_conclude (hstreams : Machine.Streams script sink turn.machine turn.trace) :
    (conclude turn).2.output.sink = (Sink.fed sink (asked turn)).2 := by
  unfold conclude asked
  cases turn.result with
  | error fault =>
    show turn.machine.output.sink = _
    rw [hstreams.output]
    rfl
  | ok exit =>
    show turn.machine.output.flush.sink = _
    rw [hstreams.flush]
    rfl

omit [Sink ω] in
theorem written_asked : (asked turn).filterMap Call.written = turn.trace.written := by
  unfold asked
  cases turn.result with
  | error fault => rfl
  | ok exit =>
    rw [List.filterMap_append]
    exact List.append_nil _

end

-- ---------------------------------------------------------------------------
-- Reports
-- ---------------------------------------------------------------------------

structure Truthful (script : List Reply) (sink : ω)
    (turn : Turn RunExit Journal Ram StreamInput (StreamOutput ω)) (report : Report ω) : Prop where
  halted : report.exitCode = 0 ↔ turn.result = .ok .halted ∧
    Sink.firstFailure sink (asked turn) = none
  stepLimit : report.exitCode = 2 ↔ turn.result = .ok .stepLimit ∧
    Sink.firstFailure sink (asked turn) = none
  failed : ∀ failure text, Diagnosis script sink turn failure text →
    report.exitCode = 1 ∧ (conclude turn).1 = .failed failure ∧
      report.log.back? = some ("error: " ++ text)
  diagnosed : report.exitCode ≠ 0 → report.exitCode ≠ 2 →
    ∃ failure text, Diagnosis script sink turn failure text
  notStalled : ∀ pc, (conclude turn).1 ≠ .failed (.outputStalled pc)
  sink : report.sink = (Sink.fed sink (asked turn)).2
  written : (asked turn).filterMap Call.written = turn.trace.events.filterMap Event.written

section
variable {script : List Reply} {sink : ω}
variable {turn : Turn RunExit Journal Ram StreamInput (StreamOutput ω)}

theorem Diagnosis.no_success {failure : Failure} {text : String}
    (h : Diagnosis script sink turn failure text) :
    Sink.firstFailure sink (asked turn) = none →
      turn.result ≠ .ok .halted ∧ turn.result ≠ .ok .stepLimit := by
  intro hnone
  cases h with
  | output _ hsink =>
    rw [hnone] at hsink
    cases hsink
  | fault hresult | input hresult | exhausted hresult => simp [hresult]

theorem Diagnosis.message {failure : Failure} {text : String}
    (h : Diagnosis script sink turn failure text) : failure.message = text := by
  cases h <;> rfl

/-- What has happened leaves no choice between failures. -/
theorem Diagnosis.unique {failure other : Failure} {text words : String}
    (h : Diagnosis script sink turn failure text) (h' : Diagnosis script sink turn other words) :
    other = failure := by
  cases h with
  | fault hresult =>
    cases h' with
    | fault hother =>
      cases hresult.symm.trans hother
      rfl
    | output hother | input hother | exhausted hother => cases hresult.symm.trans hother
  | output hresult hsink =>
    cases h' with
    | fault hother => cases hresult.symm.trans hother
    | output _ hother =>
      cases hsink.symm.trans hother
      rfl
    | input _ hother | exhausted _ hother => cases hsink.symm.trans hother
  | input hresult hsink hsource =>
    cases h' with
    | fault hother => cases hresult.symm.trans hother
    | output _ hother => cases hsink.symm.trans hother
    | input _ _ hother =>
      cases hsource.symm.trans hother
      rfl
    | exhausted _ _ hother => cases hsource.symm.trans hother
  | exhausted hresult hsink hsource =>
    cases h' with
    | fault hother => cases hresult.symm.trans hother
    | output _ hother => cases hsink.symm.trans hother
    | input _ _ hother => cases hsource.symm.trans hother
    | exhausted => rfl

theorem truthful_ofVerdict (told : Log.Line → Bool) (log : Array String)
    (hstreams : Machine.Streams script sink turn.machine turn.trace)
    (hstopped : Machine.Stopped (fun port => turn.result = .ok (.blocked port)) turn.machine)
    (hlocated : turn.result ≠ .error .missingSentinel)
    (hwritten : turn.trace.events.filterMap Event.written = turn.trace.written) :
    Truthful script sink turn (.ofVerdict told log (conclude turn)) := by
  have hjudged := judged_conclude hstreams hstopped hlocated
  have hstalled := hjudged.not_stalled
  have hsunk := sink_conclude hstreams
  have hbytes := written_asked.trans hwritten.symm
  generalize hconclude : conclude turn = concluded at hjudged hstalled hsunk ⊢
  obtain ⟨verdict, machine⟩ := concluded
  cases hjudged with
  | halted hresult hsink =>
    refine ⟨⟨fun _ => ⟨hresult, hsink⟩, fun _ => rfl⟩, ⟨nofun, ?_⟩, ?_, fun h => absurd rfl h,
      ?_, hsunk, hbytes⟩
    · rintro ⟨hlimit, -⟩
      cases hresult.symm.trans hlimit
    · exact fun failure text hfailure => absurd hresult (hfailure.no_success hsink).1
    · rwa [hconclude]
  | stepLimit hresult hsink =>
    refine ⟨⟨nofun, ?_⟩, ⟨fun _ => ⟨hresult, hsink⟩, fun _ => rfl⟩, ?_, fun _ h => absurd rfl h,
      ?_, hsunk, hbytes⟩
    · rintro ⟨hhalted, -⟩
      cases hresult.symm.trans hhalted
    · exact fun failure text hfailure => absurd hresult (hfailure.no_success hsink).2
    · rwa [hconclude]
  | @failed failure text hfailure =>
    refine ⟨⟨nofun, ?_⟩, ⟨nofun, ?_⟩, ?_, fun _ _ => ⟨failure, text, hfailure⟩, ?_, hsunk, hbytes⟩
    · rintro ⟨hresult, hsink⟩
      exact absurd hresult (hfailure.no_success hsink).1
    · rintro ⟨hresult, hsink⟩
      exact absurd hresult (hfailure.no_success hsink).2
    · rintro other words hother
      rw [hconclude, hfailure.unique hother]
      refine ⟨rfl, rfl, ?_⟩
      rw [← hother.message, hfailure.unique hother]
      exact Array.back?_push
    · rwa [hconclude]

theorem Truthful.accepted {report : Report ω} {fine : ω → Prop} {accepted : ω → List UInt8}
    (h : Truthful script sink turn report) (hreliable : Reliable fine accepted)
    (hfine : fine sink) :
    accepted report.sink = accepted sink ++ turn.trace.events.filterMap Event.written := by
  obtain ⟨next, hfed, -, hbytes⟩ := hreliable.fed hfine (asked turn)
  rw [h.sink, hfed, ← h.written]
  exact hbytes

end

def machine (image : Image) (script : List Reply) (sink : ω) :
    Machine Ram StreamInput (StreamOutput ω) :=
  .start image.ram (.ofSource { script }) (.ofSink sink)

theorem truthful_of_run (told : Log.Line → Bool) (log : Array String) {image : Image}
    {script : List Reply} {sink : ω} {turn : Turn RunExit Journal Ram StreamInput (StreamOutput ω)}
    {limit : Nat} (hrun : (machine image script sink).run (· ++ ·) limit {} = turn) :
    Truthful script sink turn (.ofVerdict told log (conclude turn)) := by
  subst hrun
  have hrecord := Machine.record_session image.ram (StreamInput.ofSource { script })
    (StreamOutput.ofSink sink) [.run limit]
  refine truthful_ofVerdict told log ?_ ?_ ?_ ?_
  · exact (Machine.streams_start image.ram script sink).run limit
  · exact Machine.run_stopped rfl
  · exact Machine.located_run image _ _ limit _
  · simpa [machine, Machine.journal, Machine.serve, Turn.map] using hrecord.written

/-- A report is truthful whatever is logged on the way, and there is none if and only if
the run does not end. -/
theorem runImage_truthful (fuel : Nat) (arguments : Arguments) (told : Log.Line → Bool) (image : Image)
    (script : List Reply) (log : Array String) (sink : ω) :
    Option.Rel (Truthful script sink)
      ((machine image script sink).runWithin (· ++ ·) fuel arguments.maxSteps {})
      (runImage fuel arguments told image { script } log sink) := by
  have hsame := (machine image script sink).runWithin_observers (· ++ ·)
    (observe told arguments.trace) fuel arguments.maxSteps ({} : Journal) log
  have hreport : runImage fuel arguments told image { script } log sink =
      ((machine image script sink).runWithin (observe told arguments.trace) fuel
        arguments.maxSteps log).map fun turn =>
          .ofVerdict told (keep told turn.trace (Log.ofRun turn)) (conclude turn) := rfl
  rw [hreport]
  generalize hrun : (machine image script sink).runWithin (· ++ ·) fuel arguments.maxSteps
    ({} : Journal) = journaled at hsame ⊢
  generalize (machine image script sink).runWithin (observe told arguments.trace) fuel
    arguments.maxSteps log = logged at hsame ⊢
  cases hsame with
  | none => exact .none
  | @some turn other hother =>
    obtain ⟨n, hturn⟩ := Machine.run_of_runWithin hrun
    have hconclude : conclude other = conclude turn := by
      rw [conclude, conclude, hother.1, hother.2]
    rw [Option.map_some, hconclude]
    exact .some (truthful_of_run told _ hturn)

theorem script_of_source {arguments : Arguments} {host : Host} {source : Source}
    (h : arguments.source host = .ok source) : ∃ script, source = { script } := by
  unfold Arguments.source at h
  cases hinput : arguments.input with
  | none =>
    rw [hinput] at h
    cases h
    exact ⟨_, rfl⟩
  | some path =>
    simp only [hinput, Host.source] at h
    generalize host.find path = found at h
    rcases found with error | bytes | _
    · cases h
    · cases h
      exact ⟨_, rfl⟩
    · cases h
      exact ⟨_, rfl⟩

theorem execute_eq_runImage (fuel : Nat) {arguments : Arguments} {host : Host} {text : List UInt8}
    {image : Image} {source : Source} (hread : host.read arguments.program = .ok text)
    (hlist : arguments.disassemble = false) (himage : arguments.image host text = .ok image)
    (hsource : arguments.source host = .ok source) (told : Log.Line → Bool)
    (log : Array String) (sink : ω) :
    execute fuel arguments host told log sink =
      runImage fuel arguments told image source (keep told log [imageLine arguments image]) sink := by
  simp [execute, hread, hlist, himage, hsource]

/-- What a command reports is true. It exits with 0 if and only if the run halted and no
write and no flush has failed, the final one included, with 2 if and only if the run was
stopped at its limit and none has failed, and else with 1 and the diagnosis in so many
words; the output is never said to stall. So it is for all behaviour of the source and of
the sink, whatever lines of the log are told, and for a command that finds its files and can
load its program. A standard output that takes all it is given gets the bytes that the
program has put out. -/
theorem report_truthful (fuel : Nat) (arguments : Arguments) (image : Image)
    (told : Log.Line → Bool) (log : Array String) (sink : ω) :
    (∀ script,
      Option.Rel (Truthful script sink)
        ((machine image script sink).runWithin (· ++ ·) fuel arguments.maxSteps {})
        (runImage fuel arguments told image { script } log sink)) ∧
    (∀ host text source, host.read arguments.program = .ok text → arguments.disassemble = false →
      arguments.image host text = .ok image → arguments.source host = .ok source →
      ∃ script, source = { script } ∧
        Option.Rel (Truthful script sink)
          ((machine image script sink).runWithin (· ++ ·) fuel arguments.maxSteps {})
          (execute fuel arguments host told log sink)) ∧
    ∀ script (stdout : BufferedSink) turn report, stdout.refusal = none →
      Truthful script stdout turn report →
      report.sink.contents.toList =
        stdout.contents.toList ++ turn.trace.events.filterMap Event.written := by
  refine ⟨fun script => ?_, ?_, ?_⟩
  · exact runImage_truthful fuel arguments told image script log sink
  · intro host text source hread hlist himage hsource
    obtain ⟨script, rfl⟩ := script_of_source hsource
    refine ⟨script, rfl, ?_⟩
    rw [execute_eq_runImage fuel hread hlist himage hsource]
    exact runImage_truthful fuel arguments told image script _ sink
  · intro script stdout turn report haccepting htruthful
    exact htruthful.accepted BufferedSink.reliable haccepting

def dotImage : Image where
  text := [0x2e]
  data := []
  checked := rfl
  fits := by decide

def commaImage : Image where
  text := [0x2c]
  data := []
  checked := rfl
  fits := by decide

/-- A program that puts a byte of the input into its own text, where it executes it. -/
def graftImage : Image where
  text := [0x2c, 0x24, 0x3c, 0x3c, 0x21, 0x20]
  data := []
  checked := rfl
  fits := by decide

/-- A host with one program; every other path leads to a directory. -/
def sampleHost (image : Image) (standardInput : List UInt8) : Host where
  find path := .ok (if path = "program" then .file image.text else .directory)
  standardInput

def sampleArguments (input : Option String) : Arguments where
  program := "program"
  input
  maxSteps := some 9

def diskFull : StreamError := ⟨.other "StorageFull", "No space left on device"⟩

def folderRead : StreamError := ⟨.other "IsADirectory", "Is a directory (os error 21)"⟩

def fullDisk : BufferedSink := { refusal := some diskFull }

def sampleRun (image : Image) (script : List Reply) (stdout : BufferedSink) (limit : Nat) :
    Turn RunExit Journal Ram StreamInput (StreamOutput BufferedSink) :=
  (machine image script stdout).run (· ++ ·) limit {}

def graftMachine : Machine Ram StreamInput (StreamOutput BufferedSink) :=
  (sampleRun graftImage [.byte 0x5d] {} 5).machine

/-- The byte that was put into the text is a bracket, the only one there is. -/
theorem stuck_graft : Machine.Stuck graftMachine (.unmatchedBracket 5) := by
  have hpc : graftMachine.registers.pc = 5 := by decide +kernel
  have hcells : graftMachine.memory.cells.toList.all (Opcode.decode · ≠ .loopOpen) = true := by
    decide +kernel
  have hnowhere (a : Address) : Opcode.decode (graftMachine.memory.get a) ≠ .loopOpen := by
    simpa using List.all_eq_true.mp hcells _ (by simp [Ram.get])
  have hfetch : Opcode.decode graftMachine.fetch = Direction.backward.nest := by decide +kernel
  have hcell : graftMachine.cell ≠ 0 := by decide +kernel
  have horigin : graftMachine.origin = some 6 := by decide +kernel
  rw [← hpc]
  exact .unmatched (by decide +kernel) horigin (by decide +kernel) hfetch hcell
    (scanFrom_eq_none hnowhere)

theorem fault_graft : (sampleRun graftImage [.byte 0x5d] {} 9).result =
    .error (.unmatchedBracket 5) := by
  have hstopped : (sampleRun graftImage [.byte 0x5d] {} 5).result = .ok .stepLimit := by
    decide +kernel
  exact stuck_graft.run_add hstopped 3

def sampleReport (image : Image) (input : Option String) (standardInput : List UInt8)
    (stdout : BufferedSink) : Option (Report BufferedSink) :=
  execute 0 (sampleArguments input) (sampleHost image standardInput) (fun _ => true) #[] stdout

def FailsWith (image : Image) (input : Option String) (standardInput : List UInt8)
    (stdout : BufferedSink) (line : String) : Prop :=
  ∃ report, sampleReport image input standardInput stdout = some report ∧ report.exitCode = 1 ∧
    report.log.back? = some line

theorem failsWith_of_diagnosis {script : List Reply} {image : Image} {input : Option String}
    {standardInput : List UInt8} {stdout : BufferedSink} {report : Report BufferedSink}
    {failure : Failure} {text line : String}
    (hreport : sampleReport image input standardInput stdout = some report)
    (htruthful : Truthful script stdout (sampleRun image script stdout 9) report)
    (hfailure : Diagnosis script stdout (sampleRun image script stdout 9) failure text)
    (hline : "error: " ++ text = line) : FailsWith image input standardInput stdout line := by
  obtain ⟨hcode, -, hlog⟩ := htruthful.failed _ _ hfailure
  exact ⟨report, hreport, hcode, hline ▸ hlog⟩

/-- A run that halts, but whose final flush fails on a full disk; an input that cannot be
read, one that ends too early, and one that brings a bracket without a partner; and at last a
success. -/
theorem report_truthful_full :
    ((sampleRun dotImage [] fullDisk 9).result = .ok .halted ∧
      Sink.firstFailure fullDisk (sampleRun dotImage [] fullDisk 9).trace.calls = none ∧
      FailsWith dotImage none [] fullDisk
        "error: failed to write output: No space left on device") ∧
    FailsWith commaImage (some "folder") [] {}
      "error: failed to read input: Is a directory (os error 21)" ∧
    FailsWith commaImage none [] {}
      "error: program is waiting for input at 0x0000 but the input is exhausted" ∧
    FailsWith graftImage none [0x5d] {} "error: no matching bracket for the one at 0x0005" ∧
    ∃ report, sampleReport dotImage none [] {} = some report ∧
      report.exitCode = 0 ∧ report.sink.contents.toList = [0] := by
  have hreported (image : Image) (input : Option String) (standardInput : List UInt8)
      (script : List Reply) (stdout : BufferedSink)
      (himage : (sampleArguments input).image (sampleHost image standardInput) image.text = .ok image)
      (hsource : (sampleArguments input).source (sampleHost image standardInput) =
        .ok { script }) :
      ∃ report, sampleReport image input standardInput stdout = some report ∧
        Truthful script stdout (sampleRun image script stdout 9) report := by
    obtain ⟨-, hexecute, -⟩ :=
      report_truthful 0 (sampleArguments input) image (fun _ => true) #[] stdout
    obtain ⟨found, hfound, hreport⟩ := hexecute _ image.text _ rfl rfl himage hsource
    cases hfound
    have hrel : Option.Rel (Truthful script stdout) (some (sampleRun image script stdout 9))
      (sampleReport image input standardInput stdout) := hreport
    generalize sampleReport image input standardInput stdout = reported at hrel ⊢
    cases reported with
    | none => simp at hrel
    | some report => exact ⟨report, rfl, Option.rel_some_some.mp hrel⟩
  have hhalted : (sampleRun dotImage [] fullDisk 9).result = .ok .halted := by decide +kernel
  refine ⟨⟨hhalted, by decide +kernel, ?_⟩, ?_, ?_, ?_, ?_⟩
  · have hfull : Sink.firstFailure fullDisk (asked (sampleRun dotImage [] fullDisk 9)) =
      some diskFull := by decide +kernel
    obtain ⟨report, hreport, htruthful⟩ := hreported dotImage none [] [] fullDisk rfl rfl
    exact failsWith_of_diagnosis hreport htruthful (.output hhalted hfull) rfl
  · have hfailure : Source.failure? [.failure folderRead]
        (sampleRun commaImage [.failure folderRead] {} 9).machine.input.source.reads =
      some folderRead := by decide +kernel
    obtain ⟨report, hreport, htruthful⟩ :=
      hreported commaImage (some "folder") [] [.failure folderRead] {} rfl rfl
    exact failsWith_of_diagnosis hreport htruthful
      (.input (by decide +kernel) (by decide +kernel) hfailure) rfl
  · have hended : .endOfInput ∈
        Source.given [] (sampleRun commaImage [] {} 9).machine.input.source.reads := by decide +kernel
    obtain ⟨report, hreport, htruthful⟩ := hreported commaImage none [] [] {} rfl rfl
    exact failsWith_of_diagnosis hreport htruthful
      (.exhausted (by decide +kernel) (by decide +kernel) (by decide +kernel) hended)
      (by decide +kernel)
  · obtain ⟨report, hreport, htruthful⟩ := hreported graftImage none [0x5d] [.byte 0x5d] {} rfl rfl
    exact failsWith_of_diagnosis hreport htruthful (.fault fault_graft) (by decide +kernel)
  · obtain ⟨report, hreport, htruthful⟩ := hreported dotImage none [] [] {} rfl rfl
    obtain ⟨-, -, hdelivered⟩ :=
      report_truthful 0 (sampleArguments none) dotImage (fun _ => true) #[] ({} : BufferedSink)
    refine ⟨report, hreport, htruthful.halted.mpr (by decide +kernel), ?_⟩
    rw [hdelivered [] {} _ report rfl htruthful]
    decide +kernel

end CommandLine

end RingMachine

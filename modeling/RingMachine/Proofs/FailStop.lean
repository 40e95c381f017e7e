import Mathlib.Data.List.Induction
import RingMachine.Proofs.StreamFailures

/-!
# Stopping at a failure

A host that writes to an output over a sink only after it was told that the device is
ready never writes to a device that has failed. Then everything reaches the sink until the
first failure, and nothing after it, and of that failure the host is told once. What
reaches the sink is seen by a sink that is watched: it notes every call and what came of
it, and the device cannot tell the difference.
-/

namespace RingMachine

namespace StreamOutput

-- ---------------------------------------------------------------------------
-- Watched sinks
-- ---------------------------------------------------------------------------

inductive Query
  | isReady
  | write (byte : UInt8)
  | flush
  | takeError
  deriving DecidableEq, Repr

def Query.byte? : Query → Option UInt8
  | write byte => some byte
  | _ => none

structure Delivery where
  query : Query
  error : Option StreamError
  deriving DecidableEq, Repr

namespace Delivery

def failed (delivery : Delivery) : Bool :=
  delivery.error.isSome

def byte? (delivery : Delivery) : Option UInt8 :=
  delivery.query.byte?

def accepted? (delivery : Delivery) : Option UInt8 :=
  if delivery.failed then none else delivery.byte?

end Delivery

structure Watched (ω : Type) where
  sink : ω
  log : List Delivery := []

def Watched.note {ω : Type} (watched : Watched ω) (query : Query) (answer : Option StreamError × ω) :
    Option StreamError × Watched ω :=
  (answer.1, ⟨answer.2, watched.log ++ [⟨query, answer.1⟩]⟩)

instance {ω : Type} [Sink ω] : Sink (Watched ω) where
  write watched byte := watched.note (.write byte) (Sink.write watched.sink byte)
  flush watched := watched.note .flush (Sink.flush watched.sink)

-- ---------------------------------------------------------------------------
-- Outputs
-- ---------------------------------------------------------------------------

section
variable {ω : Type} [Sink ω]

def ask (device : StreamOutput ω) : Query → StreamOutput ω
  | .isReady => (Output.isReady device).2
  | .write byte => Output.write device byte
  | .flush => Output.flush device
  | .takeError => device.takeError.2

theorem ask_write (device : StreamOutput ω) (byte : UInt8) :
    device.ask (.write byte) =
      settle device.failed device.error (Sink.write device.sink byte) := rfl

theorem ask_flush {device : StreamOutput ω} (h : device.failed = false) :
    device.ask .flush = settle false device.error (Sink.flush device.sink) := by
  cases device
  cases h
  rfl

def tells (device : StreamOutput ω) : Query → Option StreamError
  | .takeError => device.takeError.1
  | _ => none

def after (device : StreamOutput ω) (queries : List Query) : StreamOutput ω :=
  queries.foldl ask device

def told (device : StreamOutput ω) (queries : List Query) : List StreamError :=
  gathered ask tells device queries

/-- Every write directly follows a question whether the device is ready that was answered
by yes; `ready` says whether the query before was one. -/
def Prompted (device : StreamOutput ω) (ready : Bool) : List Query → Prop
  | [] => True
  | .isReady :: rest => Prompted (device.ask .isReady) (Output.isReady device).1 rest
  | .write byte :: rest => ready = true ∧ Prompted (device.ask (.write byte)) false rest
  | .flush :: rest => Prompted (device.ask .flush) false rest
  | .takeError :: rest => Prompted (device.ask .takeError) false rest

def watch (sink : ω) : StreamOutput (Watched ω) :=
  ofSink { sink }

def received (sink : ω) (queries : List Query) : List Delivery :=
  ((watch sink).after queries).sink.log

def unwatched (device : StreamOutput (Watched ω)) : StreamOutput ω :=
  ⟨device.sink.sink, device.failed, device.error⟩

theorem unwatched_ask (device : StreamOutput (Watched ω)) (query : Query) :
    (device.ask query).unwatched = device.unwatched.ask query := by
  have hsettle (failed : Bool) (error : Option StreamError) (watched : Watched ω) (query : Query)
      (answer : Option StreamError × ω) :
      (settle failed error (watched.note query answer)).unwatched = settle failed error answer := by
    rcases answer with ⟨_ | failure, sink⟩ <;> rfl
  rcases device with ⟨watched, failed, error⟩
  cases query with
  | isReady | takeError => rfl
  | write byte => exact hsettle failed error watched _ (Sink.write watched.sink byte)
  | flush =>
    cases failed with
    | true => rfl
    | false => exact hsettle false error watched _ (Sink.flush watched.sink)

theorem unwatched_after (device : StreamOutput (Watched ω)) (queries : List Query) :
    (device.after queries).unwatched = device.unwatched.after queries :=
  (List.foldl_hom unwatched fun device query => (unwatched_ask device query).symm).symm

theorem told_ofSink (sink : ω) (queries : List Query) :
    (ofSink sink).told queries = (watch sink).told queries :=
  (gathered_hom unwatched_ask (fun _ query => by cases query <;> rfl) (watch sink) queries).symm

theorem Prompted.watched {device : StreamOutput (Watched ω)} {ready : Bool} {queries : List Query}
    (h : device.unwatched.Prompted ready queries) : device.Prompted ready queries := by
  induction queries generalizing device ready with
  | nil => trivial
  | cons query rest ih =>
    cases query with
    | isReady => exact ih h
    | takeError => exact ih h
    | write byte =>
      rw [Prompted, ← unwatched_ask] at h
      exact ⟨h.1, ih h.2⟩
    | flush =>
      rw [Prompted, ← unwatched_ask] at h
      exact ih h

theorem after_concat (device : StreamOutput ω) (past : List Query) (query : Query) :
    device.after (past ++ [query]) = (device.after past).ask query := by
  simp [after]

theorem Prompted.append {device : StreamOutput ω} {ready : Bool} {past later : List Query}
    (h : device.Prompted ready (past ++ later)) (hready : ready = true → device.failed = false) :
    ∃ ready', (device.after past).Prompted ready' later ∧
      (ready' = true → (device.after past).failed = false) := by
  induction past generalizing device ready with
  | nil => exact ⟨ready, h, hready⟩
  | cons query past ih =>
    cases query with
    | isReady => exact ih h (by simp [Output.isReady, ask])
    | write byte => exact ih h.2 (by simp)
    | flush => exact ih h (by simp)
    | takeError => exact ih h (by simp)

/-- What is kept by every query of a prompted dialogue. Who writes finds a device that has
not failed. -/
theorem Prompted.induction {P : List Query → Prop} {device : StreamOutput ω} {past later : List Query}
    (h : device.Prompted false (past ++ later)) (hpast : P past)
    (hstep : ∀ {seen query}, P seen →
      (∀ byte, query = .write byte → (device.after seen).failed = false) → P (seen ++ [query])) :
    P (past ++ later) := by
  induction later generalizing past with
  | nil => simpa using hpast
  | cons query later ih =>
    obtain ⟨ready, hlater, hready⟩ := h.append (by simp)
    rw [List.append_cons] at h ⊢
    refine ih h (hstep hpast ?_)
    rintro byte rfl
    exact hready hlater.1

/-- What is known of a device over a watched sink when it has been asked some queries and
has told some failures. All calls that reached the sink were fine, but for the last one if
the device has failed. -/
structure Kept (past : List Query) (told : List StreamError) (fine : List Delivery)
    (failing : Option Delivery) (device : StreamOutput (Watched ω)) : Prop where
  log : device.sink.log = fine ++ failing.toList
  succeeded : ∀ delivery ∈ fine, delivery.failed = false
  met : ∀ delivery ∈ failing, delivery.failed = true
  failed : device.failed = failing.isSome
  told : told ++ device.error.toList = (failing.bind Delivery.error).toList
  written : past.filterMap Query.byte? = device.sink.log.filterMap Delivery.byte?

variable {past : List Query} {told : List StreamError} {fine : List Delivery}
variable {failing : Option Delivery} {device : StreamOutput (Watched ω)}

omit [Sink ω] in
theorem kept_watch (sink : ω) : Kept [] [] [] none (watch sink) where
  log := rfl
  succeeded := by simp
  met := by simp
  failed := rfl
  told := rfl
  written := rfl

omit [Sink ω] in
theorem Kept.deliver (h : Kept past told fine failing device) (hfailed : device.failed = false)
    (query : Query) (answer : Option StreamError × ω) :
    ∃ fine' failing', Kept (past ++ [query]) told fine' failing'
      (settle false device.error (device.sink.note query answer)) := by
  -- No call has failed so far, so there is no failure to tell of, and whether this one is
  -- the first is up to the sink.
  obtain rfl : failing = none := by simpa [hfailed] using h.failed.symm
  obtain ⟨rfl, herror⟩ : told = [] ∧ device.error = none := by simpa using h.told
  have hlog : device.sink.log = fine := by simpa using h.log
  have hwritten (error : Option StreamError) : (past ++ [query]).filterMap Query.byte? =
      (device.sink.log ++ [Delivery.mk query error]).filterMap Delivery.byte? := by
    rw [List.filterMap_append, List.filterMap_append, h.written]
    rfl
  rcases answer with ⟨_ | error, sink⟩
  · refine ⟨fine ++ [⟨query, none⟩], none, ?_⟩
    exact
      { log := by simp [Watched.note, hlog]
        succeeded := List.forall_mem_append.mpr ⟨h.succeeded, by simp [Delivery.failed]⟩
        met := by simp
        failed := rfl
        told := by simp [Watched.note, herror]
        written := hwritten none }
  · refine ⟨fine, some ⟨query, some error⟩, ?_⟩
    exact
      { log := by simp [Watched.note, hlog]
        succeeded := h.succeeded
        met := by simp [Delivery.failed]
        failed := rfl
        told := rfl
        written := hwritten (some error) }

omit [Sink ω] in
theorem Kept.idle {query : Query} (h : Kept past told fine failing device)
    (hquery : query.byte? = none) : Kept (past ++ [query]) told fine failing device :=
  { h with written := by simpa [List.filterMap_append, hquery] using h.written }

theorem Kept.ask (h : Kept past told fine failing device) {query : Query}
    (hwrite : ∀ byte, query = .write byte → device.failed = false) :
    ∃ fine' failing', Kept (past ++ [query]) (told ++ (device.tells query).toList) fine' failing'
      (device.ask query) := by
  cases query with
  | isReady =>
    simp only [tells, Option.toList_none, List.append_nil]
    exact ⟨fine, failing, h.idle rfl⟩
  | write byte =>
    have hfailed := hwrite byte rfl
    simp only [ask_write, hfailed, tells, Option.toList_none, List.append_nil]
    exact h.deliver hfailed (.write byte) (Sink.write device.sink.sink byte)
  | flush =>
    simp only [tells, Option.toList_none, List.append_nil]
    cases hfailed : device.failed with
    | true =>
      have hsame : device.ask .flush = device := flush_of_failed hfailed
      rw [hsame]
      exact ⟨fine, failing, h.idle rfl⟩
    | false =>
      rw [ask_flush hfailed]
      exact h.deliver hfailed .flush (Sink.flush device.sink.sink)
  | takeError =>
    refine ⟨fine, failing, ?_⟩
    exact { h.idle rfl with told := (List.append_nil _).trans h.told }

theorem kept_after {sink : ω} (h : (watch sink).Prompted false past) :
    ∃ fine failing, Kept past ((watch sink).told past) fine failing
      ((watch sink).after past) := by
  have hall : (watch sink).Prompted false ([] ++ past) := h
  refine hall.induction (P := fun seen => ∃ fine failing, Kept seen
    ((watch sink).told seen) fine failing
      ((watch sink).after seen)) ⟨[], none, kept_watch sink⟩ ?_
  rintro seen query ⟨fine, failing, hkept⟩ hwrite
  rw [StreamOutput.told, gathered_concat, after_concat]
  exact hkept.ask hwrite

theorem Prompted.sink_of_failed {device : StreamOutput ω} {later : List Query}
    (h : device.Prompted false (past ++ later)) (hfailed : (device.after past).failed = true) :
    (device.after (past ++ later)).failed = true ∧
      (device.after (past ++ later)).sink = (device.after past).sink := by
  refine h.induction (P := fun seen => (device.after seen).failed = true ∧
    (device.after seen).sink = (device.after past).sink) ⟨hfailed, rfl⟩ ?_
  rintro seen query ⟨hseen, hsink⟩ hwrite
  rw [after_concat]
  cases query with
  | isReady | takeError => exact ⟨hseen, hsink⟩
  | write byte => simp [hwrite byte rfl] at hseen
  | flush =>
    have hsame : (device.after seen).ask .flush = device.after seen := flush_of_failed hseen
    rw [hsame]
    exact ⟨hseen, hsink⟩

omit [Sink ω] in
theorem Kept.find_failed (h : Kept past told fine failing device) :
    device.sink.log.find? Delivery.failed = failing := by
  have hnone : fine.find? Delivery.failed = none := by
    rw [List.find?_eq_none]
    intro delivery hmem
    simp [h.succeeded delivery hmem]
  rw [h.log, List.find?_append, hnone, Option.none_or]
  cases failing with
  | none => rfl
  | some delivery => simp [h.met delivery rfl]

omit [Sink ω] in
/-- The sink takes all that is written but for the byte of a write that fails. -/
theorem Kept.accepted (h : Kept past told fine failing device) :
    past.filterMap Query.byte? =
      device.sink.log.filterMap Delivery.accepted? ++ (failing.bind Delivery.byte?).toList := by
  have hfine : fine.filterMap Delivery.accepted? = fine.filterMap Delivery.byte? := by
    apply List.filterMap_congr
    intro delivery hmem
    simp [Delivery.accepted?, h.succeeded delivery hmem]
  rw [h.written, h.log, List.filterMap_append, List.filterMap_append, hfine]
  cases failing with
  | none => simp
  | some delivery => cases hbyte : delivery.byte? <;> simp [Delivery.accepted?, h.met delivery rfl, hbyte]

end

-- ---------------------------------------------------------------------------
-- Scripted sinks
-- ---------------------------------------------------------------------------

theorem accepted_write (sink : ScriptedSink) (byte : UInt8) :
    (Sink.write sink byte).2.accepted.toList =
      sink.accepted.toList ++ (Delivery.mk (.write byte) (Sink.write sink byte).1).accepted?.toList := by
  simp only [Sink.write, ScriptedSink.write]
  rcases ScriptedSink.answer sink.writeCalls sink.writes with ⟨_ | error, writes, calls⟩
  · simp [Delivery.accepted?, Delivery.failed, Delivery.byte?, Query.byte?]
  · simp [Delivery.accepted?, Delivery.failed]

theorem accepted_flush (sink : ScriptedSink) : (Sink.flush sink).2.accepted = sink.accepted := by
  simp only [Sink.flush, ScriptedSink.flush]
  cases sink.flushes.headD none <;> rfl

theorem sink_settle {ω : Type} (failed : Bool) (error : Option StreamError)
    (answer : Option StreamError × ω) : (settle failed error answer).sink = answer.2 := by
  rcases answer with ⟨_ | failure, sink⟩ <;> rfl

/-- A flush that does not fail leaves nothing unflushed. -/
theorem flush_cases (device : StreamOutput ScriptedSink) :
    device.flush.failed = true ∨ device.failed = false ∧
      device.flush.sink.accepted = device.sink.accepted ∧
      device.flush.sink.flushedAt.back? = some device.sink.accepted.size := by
  rcases device with ⟨sink, _ | _, error⟩
  · have hflush : (StreamOutput.mk sink false error).flush = settle false error sink.flush := rfl
    rw [hflush, sink_settle, ScriptedSink.flush]
    cases sink.flushes.headD none with
    | none => exact .inr ⟨rfl, rfl, Array.back?_push ..⟩
    | some failure => exact .inl rfl
  · exact .inl rfl

theorem accepted_after (sink : ScriptedSink) (queries : List Query) :
    ((watch sink).after queries).sink.sink.accepted.toList =
      sink.accepted.toList ++ (received sink queries).filterMap Delivery.accepted? := by
  induction queries using List.reverseRecOn with
  | nil => exact (List.append_nil _).symm
  | append_singleton past query ih =>
    rw [received] at ih ⊢
    rw [after_concat]
    generalize (watch sink).after past = device at ih ⊢
    -- Both calls change the log and the bytes accepted alike, if the sink does what it notes.
    have hnote {query : Query} {answer : Option StreamError × ScriptedSink}
        (h : answer.2.accepted.toList = device.sink.sink.accepted.toList ++
          (Delivery.mk query answer.1).accepted?.toList) :
        (device.sink.note query answer).2.sink.accepted.toList = sink.accepted.toList ++
          (device.sink.note query answer).2.log.filterMap Delivery.accepted? := by
      rw [Watched.note, h, ih, List.filterMap_append, List.append_assoc]
      cases haccepted : (Delivery.mk query answer.1).accepted? <;> simp [haccepted]
    cases query with
    | isReady | takeError => exact ih
    | write byte =>
      rw [ask_write, sink_settle]
      exact hnote (accepted_write device.sink.sink byte)
    | flush =>
      cases hfailed : device.failed with
      | true =>
        have hsame : device.ask .flush = device := flush_of_failed hfailed
        rw [hsame]
        exact ih
      | false =>
        rw [ask_flush hfailed, sink_settle]
        refine hnote ?_
        rw [accepted_flush]
        simp [Delivery.accepted?, Delivery.byte?, Query.byte?]

/-- Whatever a device over a scripted sink is asked, if each write directly follows a
question that was answered by yes: the sink takes all bytes written, in order, but for the
one whose write was the first failure; the device is ready until the first failure, and
from then on nothing reaches the sink; of that failure it tells whoever asks first, and
nobody else; and a flush before it reaches the sink once, so that either all bytes written
are flushed or the device has failed. -/
theorem dialogue_fail_stop (writes : List WriteReply) (flushes : List (Option StreamError))
    {past : List Query}
    (hprompted : (ofSink ({ writes, flushes } : ScriptedSink)).Prompted false past) :
    let sink : ScriptedSink := { writes, flushes }
    let device := (ofSink sink).after past
    let failing := (received sink past).find? Delivery.failed
    let written := past.filterMap Query.byte?
    written = device.sink.accepted.toList ++ (failing.bind Delivery.byte?).toList ∧
    (Output.isReady device).1 = failing.isNone ∧
    (failing.isSome = true → ∀ later, (ofSink sink).Prompted false (past ++ later) →
      (Output.isReady ((ofSink sink).after (past ++ later))).1 = false ∧
      ((ofSink sink).after (past ++ later)).sink = device.sink ∧
      received sink (past ++ later) = received sink past) ∧
    (ofSink sink).told past ++ device.takeError.1.toList = (failing.bind Delivery.error).toList ∧
    (failing = none → ∃ error,
      received sink (past ++ [.flush]) = received sink past ++ [⟨.flush, error⟩]) ∧
    ((Output.flush device).failed = true ∨
      (Output.flush device).sink.accepted.toList = written ∧
      (Output.flush device).sink.flushedAt.back? = some written.length) := by
  intro sink device failing written
  let watched := (watch sink).after past
  have hwatched : (watch sink).Prompted false past := Prompted.watched hprompted
  obtain ⟨fine, failing', h⟩ := kept_after hwatched
  obtain rfl : failing = failing' := h.find_failed
  have hdevice : device = watched.unwatched := (unwatched_after (watch sink) past).symm
  have hfailed : device.failed = failing.isSome := by
    rw [hdevice]
    exact h.failed
  have haccepted : written = device.sink.accepted.toList ++ (failing.bind Delivery.byte?).toList := by
    have hsink : watched.sink.sink.accepted.toList =
        (received sink past).filterMap Delivery.accepted? := accepted_after sink past
    rw [hdevice]
    show written = watched.sink.sink.accepted.toList ++ _
    rw [hsink]
    exact h.accepted
  refine ⟨haccepted, ?_, fun hsome later hlater => ?_, ?_, fun hnone => ?_, ?_⟩
  · show (!device.failed) = failing.isNone
    rw [hfailed, Option.not_isSome]
  · have hboth : (watch sink).Prompted false (past ++ later) := Prompted.watched hlater
    obtain ⟨hstays, hsink⟩ := hboth.sink_of_failed (h.failed.trans hsome)
    have hafter : (ofSink sink).after (past ++ later) =
        ((watch sink).after (past ++ later)).unwatched := (unwatched_after (watch sink) _).symm
    rw [hafter, hdevice]
    refine ⟨?_, congrArg Watched.sink hsink, congrArg Watched.log hsink⟩
    show (!((watch sink).after (past ++ later)).failed) = false
    rw [hstays]
    rfl
  · rw [told_ofSink, hdevice]
    exact h.told
  · have hopen : watched.failed = false := h.failed.trans (by rw [hnone]; rfl)
    refine ⟨(Sink.flush watched.sink.sink).1, ?_⟩
    rw [received, after_concat, ask_flush hopen, sink_settle]
    rfl
  · refine device.flush_cases.imp_right fun ⟨hopen, hsame, hflushed⟩ => ?_
    have hnone : failing = none := by simpa [hopen] using hfailed.symm
    have hall : device.sink.accepted.toList = written := by simpa [hnone] using haccepted.symm
    exact ⟨(congrArg Array.toList hsame).trans hall, by rw [← hall]; exact hflushed⟩

/-- The second write is interrupted, and then takes nothing. -/
def haltingWrites : List WriteReply :=
  [.accept, .failure ⟨.interrupted, "again"⟩, .zero]

def haltingQueries : List Query :=
  [.isReady, .write 0x41, .flush, .isReady, .write 0x42, .flush, .isReady]

theorem dialogue_fail_stop_halting :
    let sink : ScriptedSink := { writes := haltingWrites }
    let device := (ofSink sink).after haltingQueries
    (ofSink sink).Prompted false haltingQueries ∧ [0x41, 0x42] = device.sink.accepted.toList ++ [0x42] ∧
      (Output.isReady device).1 = false ∧ device.takeError.1 = some .writeZero := by
  intro sink device
  have hprompted : (ofSink sink).Prompted false haltingQueries := ⟨rfl, rfl, trivial⟩
  obtain ⟨haccepted, hready, -, htold, -⟩ := dialogue_fail_stop haltingWrites [] hprompted
  have htold' : device.takeError.1.toList = [.writeZero] := htold
  exact ⟨hprompted, haccepted, hready, by simpa [Option.toList_eq_singleton_iff] using htold'⟩

end StreamOutput

end RingMachine

import RingMachine.Proofs.DeviceCalls

/-!
# The account that events give

The events of a session are a boot, once the program is located, and then what each
step reports of itself. From the reports alone one can tell how many instructions
were executed, what went through the ports, and which way the program took: the
first instruction stands at address zero, each later one where the one before it
led, and the machine stands where the last one led.
-/

namespace RingMachine

namespace Event

def isBoot : Event → Bool
  | boot _ => true
  | _ => false

def pc? : Event → Option Address
  | instruction pc _ => some pc
  | _ => none

def isInstruction (event : Event) : Bool :=
  event.pc?.isSome

def written : Event → Option UInt8
  | output byte => some byte
  | _ => none

def taken : Event → Option UInt8
  | input byte => some byte
  | _ => none

def isEffect : Event → Bool
  | jump _ _ | output _ | input _ | halt _ => true
  | _ => false

/-- The event tells what the byte at an address does as an instruction. -/
def Matches (pc : Address) (byte : UInt8) : Event → Prop
  | jump start _ =>
    start = pc ∧ (Opcode.decode byte = .loopOpen ∨ Opcode.decode byte = .loopClose)
  | output _ => Opcode.decode byte = .output
  | input _ => Opcode.decode byte = .input
  | halt address => address = pc ∧ Opcode.decode byte = .halt
  | _ => False

theorem Matches.not_boot {pc : Address} {byte : UInt8} {event : Event} (h : event.Matches pc byte) :
    event.isBoot = false := by
  cases event with
  | boot => cases h
  | _ => rfl

end Event

structure Attempt where
  pc : Address
  next : Address
  deriving DecidableEq, Repr

namespace Attempt

/-- Where a program goes on after the instruction at an address, by how its step ended
and what else the step reported: where it jumped to, nowhere if it halted or failed,
and behind the instruction otherwise. -/
def continuation (result : Except Fault Step) (pc : Address) : List Event → Address
  | .jump _ landing :: _ => landing
  | .halt _ :: _ => pc
  | _ =>
    match result with
    | .error _ => pc
    | .ok _ => pc.next

def ofReport? (result : Except Fault Step) : List Event → Option Attempt
  | .instruction pc _ :: effects => some ⟨pc, continuation result pc effects⟩
  | _ => none

end Attempt

def Turn.isUnmatched {τ μ ι ο : Type} (turn : Turn Step τ μ ι ο) : Bool :=
  match turn.result with
  | .error (.unmatchedBracket _) => true
  | _ => false

namespace Machine

variable {μ ι ο : Type} [Memory μ]

/-- How a step accounts for itself, on a machine that has booted: by nothing if it
does nothing, by the port that it waits for, or by its instruction and then by what
the instruction did. -/
inductive Tells (m : Machine μ ι ο) : Except Fault Step → List Event → Prop
  | rests : Tells m (.ok .halted) []
  | unlocated : Tells m (.error .missingSentinel) []
  | waits (port : Port) : Tells m (.ok (.blocked port)) [.blocked port]
  | passes (hhalt : Opcode.decode m.fetch ≠ .halt) (houtput : Opcode.decode m.fetch ≠ .output)
      (hinput : Opcode.decode m.fetch ≠ .input) :
      Tells m (.ok (.executed (Opcode.decode m.fetch))) [m.fetched]
  | acts {effect : Event} (hhalt : Opcode.decode m.fetch ≠ .halt)
      (hmatches : effect.Matches m.registers.pc m.fetch) :
      Tells m (.ok (.executed (Opcode.decode m.fetch))) [m.fetched, effect]
  | halts (hhalt : Opcode.decode m.fetch = .halt) :
      Tells m (.ok .halted) [m.fetched, .halt m.registers.pc]
  | fails (hbracket : Opcode.decode m.fetch = .loopOpen ∨ Opcode.decode m.fetch = .loopClose) :
      Tells m (.error (.unmatchedBracket m.registers.pc)) [m.fetched]

section
variable {m : Machine μ ι ο} {result : Except Fault Step} {report : List Event}

theorem Tells.not_boot (h : Tells m result report) : ∀ event ∈ report, event.isBoot = false := by
  cases h with
  | acts _ hmatches => simpa [fetched] using ⟨rfl, hmatches.not_boot⟩
  | _ => simp [fetched, Event.isBoot]

theorem Tells.cued (h : Tells m result report) :
    Cued (fun event : Event => event.isEffect = true)
      (fun d event => ∃ pc byte, d = .instruction pc byte ∧ event.Matches pc byte) report := by
  cases h with
  | acts _ hmatches =>
    constructor
    · simp [fetched, Event.isEffect]
    · exact .cons_cons (fun _ => ⟨_, _, rfl, hmatches⟩) (.singleton _)
  | halts hhalt =>
    constructor
    · simp [fetched, Event.isEffect]
    · exact .cons_cons (fun _ => ⟨_, _, rfl, rfl, hhalt⟩) (.singleton _)
  | _ => constructor <;> simp [fetched, Event.isEffect]

end

-- ---------------------------------------------------------------------------
-- Steps
-- ---------------------------------------------------------------------------

/-- The report of a turn of a machine that has booted agrees with what the turn did. -/
structure Faithful (m : Machine μ ι ο) (report : List Event) (turn : Turn Step Journal μ ι ο) :
    Prop where
  tells : Tells m turn.result report
  count : m.steps + report.countP Event.isInstruction =
    turn.machine.steps + turn.isUnmatched.toNat
  written : report.filterMap Event.written = turn.trace.written
  taken : report.filterMap Event.taken = turn.trace.taken
  way : (Attempt.ofReport? turn.result report = none ∧ report.filterMap Event.pc? = [] ∧
      turn.machine.registers.pc = m.registers.pc) ∨
    (Attempt.ofReport? turn.result report = some ⟨m.registers.pc, turn.machine.registers.pc⟩ ∧
      report.filterMap Event.pc? = [m.registers.pc])
  origin : turn.machine.origin = m.origin
  unlocated : m.origin = none → report = []
  halted : m.isHalted = true → report = [] ∧ turn.machine.isHalted = true
  halts : ∀ pc, .halt pc ∈ report → turn.machine.isHalted = true
  last : ∀ pc, .halt pc ∉ report.dropLast

variable {m : Machine μ ι ο}

theorem faithful_of_idle {turn : Turn Step Journal μ ι ο} (hmachine : turn.machine = m)
    (htrace : turn.trace = {}) (hresult : turn.isUnmatched = false)
    (htells : Tells m turn.result []) : Faithful m [] turn where
  tells := htells
  count := by rw [hmachine, hresult]; rfl
  written := by rw [htrace]; rfl
  taken := by rw [htrace]; rfl
  way := .inl ⟨rfl, rfl, by rw [hmachine]⟩
  origin := by rw [hmachine]
  unlocated := fun _ => rfl
  halted := fun h => ⟨rfl, by rw [hmachine, h]⟩
  halts := by simp
  last := by simp

theorem events_boot_filter (m : Machine μ ι ο) :
    m.boot.trace.events.filter (fun event => !event.isBoot) = [] := by
  rcases m.boot_cases with ⟨_, -, hboot⟩ | ⟨-, -, hboot⟩ | ⟨-, _, -, hboot⟩ <;> rw [hboot] <;> rfl

variable [Input ι] [Output ο] {initial : μ}

/-- What the next step reports, but for a boot. -/
def report (m : Machine μ ι ο) : List Event :=
  m.step.trace.events.filter fun event => !event.isBoot

theorem Outcome.tells {turn : Turn Step Journal μ ι ο} (h : Outcome m turn) :
    Tells m turn.result turn.trace.events := by
  cases h with
  | retires hfetch hhalt houtput hinput =>
    subst hfetch
    exact .passes hhalt houtput hinput
  | @jumps direction _ hfetch _ _ =>
    show Tells m (.ok (.executed direction.nest)) _
    rw [← hfetch]
    cases direction with
    | forward => exact .acts (by simp [hfetch, Direction.nest]) ⟨rfl, .inl hfetch⟩
    | backward => exact .acts (by simp [hfetch, Direction.nest]) ⟨rfl, .inr hfetch⟩
  | @fails direction hfetch _ _ =>
    cases direction with
    | forward => exact .fails (.inl hfetch)
    | backward => exact .fails (.inr hfetch)
  | waitsForOutput => exact .waits .output
  | writes hfetch =>
    show Tells m (.ok (.executed .output)) _
    rw [← hfetch]
    exact .acts (by simp [hfetch]) hfetch
  | waitsForInput => exact .waits .input
  | takes hfetch =>
    show Tells m (.ok (.executed .input)) _
    rw [← hfetch]
    exact .acts (by simp [hfetch]) hfetch
  | halts hfetch => exact .halts hfetch

theorem Outcome.faithful {turn : Turn Step Journal μ ι ο} {origin : Address} (h : Outcome m turn)
    (horigin : m.origin = some origin) (hrunning : m.isHalted = false) :
    Faithful m turn.trace.events turn where
  tells := h.tells
  count := by cases h <;> rfl
  written := by cases h <;> rfl
  taken := by cases h <;> rfl
  way := by
    cases h with
    | waitsForOutput => exact .inl ⟨rfl, rfl, rfl⟩
    | waitsForInput => exact .inl ⟨rfl, rfl, rfl⟩
    | _ => exact .inr ⟨rfl, rfl⟩
  origin := by cases h <;> rfl
  unlocated := by simp [horigin]
  halted := by simp [hrunning]
  halts := by
    cases h with
    | halts => exact fun _ _ => rfl
    | _ => simp [retire, fetched]
  last := by cases h <;> simp [retire, fetched]

theorem report_of_outcome {turn : Turn Step Journal μ ι ο} (hturn : Outcome m.boot.machine turn)
    (hstep : m.step = ⟨turn.result, turn.machine, m.boot.trace ++ turn.trace⟩) :
    m.report = turn.trace.events := by
  rw [report, hstep, Journal.events_append, List.filter_append, events_boot_filter,
    List.nil_append, List.filter_eq_self]
  intro event hevent
  rw [hturn.tells.not_boot event hevent]
  rfl

theorem Lifecycle.step_faithful (h : Lifecycle initial m) :
    m.step.trace.events = m.boot.trace.events ++ m.report ∧
      Faithful m.boot.machine m.report m.step := by
  rcases m.step_cases with
    ⟨hhalted, hstep⟩ | ⟨-, horigin, hmissing, hstep⟩ | ⟨hrunning, origin, turn, hboot, hturn, hstep⟩
  · obtain ⟨origin, horigin⟩ := h.ready_iff.mp (h.halted hhalted).1
    have hreport : m.report = [] := by rw [report, hstep]; rfl
    rw [boot_of_origin horigin, hreport, hstep]
    exact ⟨rfl, faithful_of_idle rfl rfl rfl .rests⟩
  · have hboot : m.boot = ⟨.error .missingSentinel, m, {}⟩ := by
      simp [Machine.boot, horigin, hmissing]
    have hreport : m.report = [] := by rw [report, hstep]; rfl
    rw [hboot, hreport, hstep]
    exact ⟨rfl, faithful_of_idle rfl rfl rfl .unlocated⟩
  · have hfaithful := hturn.faithful (origin_boot hboot) (isHalted_boot.trans hrunning)
    have hwritten : m.boot.trace.written = [] := by rw [Journal.written, calls_boot]; rfl
    have htaken : m.boot.trace.taken = [] := by rw [Journal.taken, calls_boot]; rfl
    rw [report_of_outcome hturn hstep, hstep]
    refine ⟨rfl, { hfaithful with written := ?_, taken := ?_ }⟩
    · rw [Journal.written_append, hwritten]
      exact hfaithful.written
    · rw [Journal.taken_append, htaken]
      exact hfaithful.taken

-- ---------------------------------------------------------------------------
-- Sessions
-- ---------------------------------------------------------------------------

def attempts (starts : List (Machine μ ι ο)) : List Attempt :=
  starts.filterMap fun s => Attempt.ofReport? s.step.result s.report

theorem attempts_append (starts : List (Machine μ ι ο)) (s : Machine μ ι ο) :
    attempts (starts ++ [s]) =
      attempts starts ++ (Attempt.ofReport? s.step.result s.report).toList := by
  cases h : Attempt.ofReport? s.step.result s.report <;> simp [attempts, h]

/-- What a session preserves of the machine, of its journal and of the machines at
which its steps started. -/
structure Record (initial : μ) (s : Machine μ ι ο) (journal : Journal)
    (earlier : List (Machine μ ι ο)) : Prop where
  life : Lifecycle initial s
  events : journal.events = s.origin.toList.map .boot ++ earlier.flatMap report
  unlocated : s.origin = none → earlier.flatMap report = []
  tells : ∀ u ∈ earlier, Tells u.boot.machine u.step.result u.report
  count : journal.events.countP Event.isInstruction =
    s.steps + earlier.countP (·.step.isUnmatched)
  written : journal.events.filterMap Event.written = journal.written
  taken : journal.events.filterMap Event.taken = journal.taken
  addresses : journal.events.filterMap Event.pc? = (attempts earlier).map Attempt.pc
  flow : 0 :: (attempts earlier).map Attempt.next =
    (attempts earlier).map Attempt.pc ++ [s.registers.pc]
  halts : ∀ pc, .halt pc ∈ journal.events → s.isHalted = true
  last : ∀ pc, .halt pc ∉ journal.events.dropLast

section
variable {journal : Journal} {earlier : List (Machine μ ι ο)}

theorem record_start (initial : μ) (input : ι) (output : ο) :
    Record initial (start initial input output) {} [] where
  life := lifecycle_start initial input output
  events := rfl
  unlocated := fun _ => rfl
  tells := by simp
  count := rfl
  written := rfl
  taken := rfl
  addresses := rfl
  flow := rfl
  halts := by simp
  last := by simp

theorem Record.adjust (h : Record initial m journal earlier) (input : ι → ι) (output : ο → ο) :
    Record initial (m.adjust input output) journal earlier :=
  { h with life := h.life.adjust input output }

theorem Record.boot (h : Record initial m journal earlier) :
    Record initial m.boot.machine (journal ++ m.boot.trace) earlier := by
  have hlife := h.life.boot
  rcases m.boot_cases with ⟨_, -, hboot⟩ | ⟨-, -, hboot⟩ | ⟨horigin, origin, -, hboot⟩
  · rw [hboot, Journal.append_nil]
    exact h
  · rw [hboot, Journal.append_nil]
    exact h
  · -- Nothing was reported before the program was located, and it starts at zero.
    obtain ⟨hregisters, -, -⟩ := h.life.fresh (h.life.not_ready horigin)
    have hreports := h.unlocated horigin
    have hnone : journal.events = [] := by rw [h.events, horigin, hreports]; rfl
    have hevents : (journal ++ { events := [.boot origin] }).events = [.boot origin] := by
      rw [Journal.events_append, hnone]
      rfl
    have hwritten := h.written
    have htaken := h.taken
    have hcount := h.count
    have haddresses := h.addresses
    have hflow := h.flow
    rw [hnone] at hwritten htaken hcount haddresses
    rw [hregisters] at hflow
    rw [hboot] at hlife ⊢
    constructor
    · exact hlife
    · rw [hevents, hreports]
      rfl
    · simp
    · exact h.tells
    · rw [hevents]
      exact hcount
    · rw [hevents, Journal.written_append, ← hwritten]
      rfl
    · rw [hevents, Journal.taken_append, ← htaken]
      rfl
    · rw [hevents]
      exact haddresses
    · exact hflow
    · simp [hevents]
    · simp [hevents]

theorem Record.step (h : Record initial m journal earlier) :
    Record initial m.step.machine (journal ++ m.step.trace) (earlier ++ [m]) := by
  -- A step may locate the program first, so its report is added to the record of the
  -- machine that has booted.
  have hbooted := h.boot
  obtain ⟨hsplit, hfaithful⟩ := h.life.step_faithful
  have hevents : (journal ++ m.step.trace).events =
      (journal ++ m.boot.trace).events ++ m.report := by
    rw [Journal.events_append, Journal.events_append, hsplit, List.append_assoc]
  have hwritten : (journal ++ m.step.trace).written =
      (journal ++ m.boot.trace).written ++ m.step.trace.written := by
    simp [Journal.written, calls_boot]
  have htaken : (journal ++ m.step.trace).taken =
      (journal ++ m.boot.trace).taken ++ m.step.trace.taken := by
    simp [Journal.taken, calls_boot]
  have hreports : (earlier ++ [m]).flatMap report = earlier.flatMap report ++ m.report := by
    rw [List.flatMap_append, List.flatMap_singleton]
  constructor
  · exact h.life.step
  · rw [hevents, hbooted.events, hfaithful.origin, hreports, List.append_assoc]
  · intro hnone
    rw [hfaithful.origin] at hnone
    rw [hreports, hbooted.unlocated hnone, hfaithful.unlocated hnone]
    rfl
  · intro u hu
    rcases List.mem_append.mp hu with hu | hu
    · exact h.tells u hu
    · obtain rfl := List.mem_singleton.mp hu
      exact hfaithful.tells
  · have hcount := hfaithful.count
    have hunmatched : [m].countP (·.step.isUnmatched) = m.step.isUnmatched.toNat := by
      cases hm : m.step.isUnmatched <;> simp [hm]
    rw [hevents, List.countP_append, List.countP_append, hbooted.count, hunmatched]
    omega
  · rw [hevents, hwritten, List.filterMap_append, hbooted.written, hfaithful.written]
  · rw [hevents, htaken, List.filterMap_append, hbooted.taken, hfaithful.taken]
  · rw [hevents, List.filterMap_append, hbooted.addresses]
    rcases hfaithful.way with ⟨hnone, hpcs, -⟩ | ⟨hsome, hpcs⟩
    · rw [attempts_append, hnone, hpcs]
      simp
    · rw [attempts_append, hsome, hpcs]
      simp
  · rw [attempts_append]
    rcases hfaithful.way with ⟨hnone, -, hpc⟩ | ⟨hsome, -⟩
    · rw [hnone, hpc, Option.toList_none, List.append_nil]
      exact hbooted.flow
    · rw [hsome, Option.toList_some, List.map_append, List.map_append, ← List.cons_append,
        hbooted.flow]
      rfl
  · intro pc hmem
    rw [hevents] at hmem
    rcases List.mem_append.mp hmem with hmem | hmem
    · exact (hfaithful.halted (hbooted.halts pc hmem)).2
    · exact hfaithful.halts pc hmem
  · intro pc hmem
    rw [hevents] at hmem
    by_cases hreport : m.report = []
    · rw [hreport, List.append_nil] at hmem
      exact hbooted.last pc hmem
    · rw [List.dropLast_append_of_ne_nil hreport] at hmem
      rcases List.mem_append.mp hmem with hmem | hmem
      · exact hreport (hfaithful.halted (hbooted.halts pc hmem)).1
      · exact hfaithful.last pc hmem

theorem record_session (initial : μ) (input : ι) (output : ο) (requests : List (Request ι ο)) :
    Record initial ((start initial input output).after requests)
      ((start initial input output).journal requests)
      ((start initial input output).sessionStarts requests) :=
  history_induction ⟨Record.boot, fun input output h => h.adjust input output, Record.step⟩
    requests (record_start initial input output)

end

/-- What the events of a session say about it. -/
structure Account (m : Machine μ ι ο) (requests : List (Request ι ο)) : Prop where
  /-- The boot, if there was one, and then what each step reported. -/
  events : (m.journal requests).events =
    (m.after requests).origin.toList.map .boot ++ (m.sessionStarts requests).flatMap report
  unlocated : (m.after requests).origin = none → (m.journal requests).events = []
  boots : ∀ before sentinel after,
    (m.journal requests).events = before ++ .boot sentinel :: after →
      before = [] ∧ ∀ other, .boot other ∉ after
  tells : ∀ s ∈ m.sessionStarts requests, Tells s.boot.machine s.step.result s.report
  effects : ∀ before event after, (m.journal requests).events = before ++ event :: after →
    event.isEffect = true →
      ∃ earlier pc byte, before = earlier ++ [.instruction pc byte] ∧ event.Matches pc byte
  count : (m.journal requests).events.countP Event.isInstruction =
    (m.after requests).steps + (m.sessionStarts requests).countP (·.step.isUnmatched)
  written : (m.journal requests).events.filterMap Event.written = (m.journal requests).written
  taken : (m.journal requests).events.filterMap Event.taken = (m.journal requests).taken
  addresses : (m.journal requests).events.filterMap Event.pc? =
    (attempts (m.sessionStarts requests)).map Attempt.pc
  /-- The first instruction stands at zero, each later one where the one before it
  led, and the machine where the last one led. -/
  flow : 0 :: (attempts (m.sessionStarts requests)).map Attempt.next =
    (attempts (m.sessionStarts requests)).map Attempt.pc ++ [(m.after requests).registers.pc]
  halts : ∀ before pc after, (m.journal requests).events = before ++ .halt pc :: after → after = []

section
variable {journal : Journal} {earlier : List (Machine μ ι ο)}

theorem Record.not_boot (h : Record initial m journal earlier) (sentinel : Address) :
    .boot sentinel ∉ earlier.flatMap report := by
  intro hmem
  obtain ⟨u, hu, hboot⟩ := List.mem_flatMap.mp hmem
  have := (h.tells u hu).not_boot _ hboot
  simp [Event.isBoot] at this

theorem Record.boots (h : Record initial m journal earlier) {before after : List Event}
    {sentinel : Address} (hsplit : journal.events = before ++ .boot sentinel :: after) :
    before = [] ∧ ∀ other, .boot other ∉ after := by
  rw [h.events] at hsplit
  cases horigin : m.origin with
  | none =>
    rw [horigin, Option.toList_none, List.map_nil, List.nil_append] at hsplit
    exact absurd (by simp [hsplit]) (h.not_boot sentinel)
  | some origin =>
    rw [horigin, Option.toList_some, List.map_singleton, List.singleton_append] at hsplit
    cases before with
    | nil =>
      obtain ⟨-, hafter⟩ := List.cons.inj hsplit
      exact ⟨rfl, fun other => hafter ▸ h.not_boot other⟩
    | cons first rest =>
      obtain ⟨-, hrest⟩ := List.cons.inj hsplit
      exact absurd (by simp [hrest]) (h.not_boot sentinel)

theorem Record.cued (h : Record initial m journal earlier) :
    Cued (fun event : Event => event.isEffect = true)
      (fun d event => ∃ pc byte, d = .instruction pc byte ∧ event.Matches pc byte)
      journal.events := by
  rw [h.events]
  refine Cued.append ?_ (.flatMap fun u hu => (h.tells u hu).cued)
  cases m.origin <;> constructor <;> simp [Event.isEffect]

theorem Record.halt_last (h : Record initial m journal earlier) {before after : List Event}
    {pc : Address} (hsplit : journal.events = before ++ .halt pc :: after) : after = [] := by
  cases after with
  | nil => rfl
  | cons event rest =>
    have hlast := h.last pc
    rw [hsplit, List.dropLast_append_of_ne_nil (by simp)] at hlast
    simp at hlast

end

theorem session_account (memory : μ) (input : ι) (output : ο) (requests : List (Request ι ο)) :
    Account (start memory input output) requests := by
  have hrecord := record_session memory input output requests
  constructor
  · exact hrecord.events
  · intro horigin
    rw [hrecord.events, hrecord.unlocated horigin, horigin]
    rfl
  · exact fun _ _ _ hsplit => hrecord.boots hsplit
  · exact hrecord.tells
  · intro before event after hsplit heffect
    have hcued := hrecord.cued
    rw [hsplit] at hcued
    obtain ⟨earlier, d, hbefore, pc, byte, rfl, hmatches⟩ := hcued.before heffect
    exact ⟨earlier, pc, byte, hbefore, hmatches⟩
  · exact hrecord.count
  · exact hrecord.written
  · exact hrecord.taken
  · exact hrecord.addresses
  · exact hrecord.flow
  · exact fun _ _ _ hsplit => hrecord.halt_last hsplit

/-- A loop that is skipped, and one byte of output. -/
def skippingImage : Image where
  text := [0x5b, 0x2e, 0x5d, 0x2e]
  data := []
  checked := rfl
  fits := by decide

def skippingMachine : Machine Ram NoInput BufferOutput :=
  start skippingImage.ram .closed {}

theorem session_account_skipping :
    (skippingMachine.journal [.run 9]).events =
        [.boot 4, .instruction 0 0x5b, .jump 0 3, .instruction 3 0x2e, .output 0,
          .instruction 4 0x40, .halt 4] ∧
      attempts (skippingMachine.sessionStarts [.run 9]) = [⟨0, 3⟩, ⟨3, 4⟩, ⟨4, 4⟩] ∧
      (skippingMachine.after [.run 9]).registers.pc = 4 := by
  have hattempts :
      attempts (skippingMachine.sessionStarts [.run 9]) = [⟨0, 3⟩, ⟨3, 4⟩, ⟨4, 4⟩] := by
    decide +kernel
  have hflow := (session_account skippingImage.ram NoInput.closed ({} : BufferOutput) [.run 9]).flow
  refine ⟨by decide +kernel, hattempts, ?_⟩
  rw [show start skippingImage.ram NoInput.closed ({} : BufferOutput) = skippingMachine from rfl,
    hattempts] at hflow
  simpa using hflow.symm

end Machine

end RingMachine

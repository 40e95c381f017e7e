import Mathlib.Logic.Function.Iterate
import RingMachine.Program
import RingMachine.Proofs.Stalls

/-!
# Host timing

A host may fill the queue of a machine and hold up its output as it likes, and
start the machine whenever it likes. The machine follows one that had all its
input from the start and an output that was never busy, so its state is a matter
of the bytes queued and of how many instructions it has executed.
-/

namespace RingMachine

namespace Machine

variable {μ : Type} [Memory μ] {m : Machine μ QueueInput BufferOutput}

-- ---------------------------------------------------------------------------
-- How far a machine has come
-- ---------------------------------------------------------------------------

/-- The machine after a number of steps from its boot, with all its input at hand. -/
def reference (memory : μ) (queued : List UInt8) (steps : Nat) : Machine μ QueueInput BufferOutput :=
  (fun s => s.step.machine)^[steps] (start memory ⟨queued⟩ {}).boot.machine

/-- What a session preserves: the machine has not booted and has only been given
its input, or it is, but for input that is still to come and for an output that
may be busy, where the reference is after as many steps. -/
def Follows (memory : μ) (queued : List UInt8) (m : Machine μ QueueInput BufferOutput) : Prop :=
  (m.origin = none ∧ ∀ later, m.supplied later = start memory ⟨queued ++ later⟩ {}) ∨
    (∃ origin, m.origin = some origin) ∧ m.registers.depth = 0 ∧
      ∀ later, m.supplied later = reference memory (queued ++ later) m.steps

section
variable {memory : μ} {queued : List UInt8}

theorem follows_start (memory : μ) (early : List UInt8) (busy : Bool) :
    Follows memory early (start memory ⟨early⟩ { busy := busy }) :=
  .inl ⟨rfl, fun _ => rfl⟩

theorem Follows.boot (h : Follows memory queued m) : Follows memory queued m.boot.machine := by
  rcases h with ⟨horigin, hlater⟩ | ⟨⟨origin, horigin⟩, hrest⟩
  · cases hfound : Memory.findSentinel m.memory with
    | none =>
      have hboot : m.boot.machine = m := by simp [Machine.boot, horigin, hfound]
      rw [hboot]
      exact .inl ⟨horigin, hlater⟩
    | some found =>
      have hboot : m.boot.machine =
          { m with registers := m.registers.boot found, origin := some found } := by
        simp [Machine.boot, horigin, hfound]
      have hsteps : m.steps = 0 := congrArg Machine.steps (hlater [])
      refine .inr ⟨⟨found, by rw [hboot]⟩, by rw [hboot]; rfl, fun later => ?_⟩
      rw [← boot_supplied, hlater, hboot]
      simp only [hsteps]
      rfl
  · rw [boot_of_origin horigin]
    exact .inr ⟨⟨origin, horigin⟩, hrest⟩

theorem Follows.execute {origin : Address} (h : Follows memory queued m)
    (horigin : m.origin = some origin) (hrunning : m.isHalted = false) :
    Follows memory queued m.execute.machine := by
  rcases h with ⟨hnone, -⟩ | ⟨-, hdepth, hlater⟩
  · rw [horigin] at hnone
    cases hnone
  · rcases m.execute_outcome.keepsPace hdepth with hsame | hprogress
    · rw [hsame]
      exact .inr ⟨⟨origin, horigin⟩, hdepth, hlater⟩
    · refine .inr ⟨⟨origin, hprogress.origin.trans horigin⟩, hprogress.depth, fun later => ?_⟩
      -- With all its input the machine does the same step, and that is the reference's next.
      have hstep : (m.supplied later).step = (m.supplied later).execute :=
        step_of_origin horigin hrunning
      have hnext : (m.supplied later).step.machine = m.execute.machine.supplied later := by
        rw [hstep, (hprogress.supplied later).execute_eq]
      rw [← hnext, hlater, hprogress.steps, reference, reference, Function.iterate_succ_apply']

theorem Follows.step (h : Follows memory queued m) : Follows memory queued m.step.machine := by
  cases hhalted : m.isHalted with
  | true =>
    rw [step_of_halted hhalted]
    exact h
  | false =>
    have hbooted := h.boot
    cases hboot : m.boot.result with
    | error fault =>
      rw [step_of_fault hboot hhalted]
      exact hbooted
    | ok origin =>
      obtain ⟨-, hmachine, -⟩ := step_of_located hboot hhalted
      rw [hmachine]
      exact hbooted.execute (origin_boot hboot) (isHalted_boot.trans hhalted)

theorem Follows.extend (h : Follows memory queued m) (bytes : List UInt8) :
    Follows memory (queued ++ bytes) (m.adjust (·.extend bytes) id) := by
  have hsupplied (later : List UInt8) :
      (m.adjust (·.extend bytes) id).supplied later = m.supplied (bytes ++ later) := by
    simp [supplied, adjust, QueueInput.extend]
  rcases h with ⟨horigin, hlater⟩ | ⟨horigin, hdepth, hlater⟩
  · refine .inl ⟨horigin, fun later => ?_⟩
    rw [hsupplied, hlater, List.append_assoc]
  · refine .inr ⟨horigin, hdepth, fun later => ?_⟩
    rw [hsupplied, hlater, List.append_assoc]
    rfl

theorem Follows.setBusy (h : Follows memory queued m) (busy : Bool) :
    Follows memory queued (m.adjust id (·.setBusy busy)) :=
  h

end

end Machine

-- ---------------------------------------------------------------------------
-- Schedules
-- ---------------------------------------------------------------------------

inductive Move
  | boot
  | step
  | run (limit : Nat)
  | push (byte : UInt8)
  | extend (bytes : List UInt8)
  | setBusy (busy : Bool)
  deriving DecidableEq, Repr

namespace Move

def request : Move → Request QueueInput BufferOutput
  | boot => .boot
  | step => .step
  | run limit => .run limit
  | push byte => .adjust (·.push byte) id
  | extend bytes => .adjust (·.extend bytes) id
  | setBusy busy => .adjust id (·.setBusy busy)

def queued : Move → List UInt8
  | boot | step | run _ | setBusy _ => []
  | push byte => [byte]
  | extend bytes => bytes

end Move

/-- The bytes that a host has queued before it makes a machine, whether the output
is busy then, and what it does from then on. -/
structure Schedule where
  early : List UInt8 := []
  busy : Bool := false
  moves : List Move
  deriving DecidableEq, Repr

namespace Machine

variable {μ : Type} {m : Machine μ QueueInput BufferOutput}

structure Alike (m n : Machine μ QueueInput BufferOutput) : Prop where
  registers : m.registers = n.registers
  memory : m.memory = n.memory
  origin : m.origin = n.origin
  bytes : m.output.bytes = n.output.bytes

theorem Alike.symm {n : Machine μ QueueInput BufferOutput} (h : Alike m n) : Alike n m :=
  ⟨h.registers.symm, h.memory.symm, h.origin.symm, h.bytes.symm⟩

variable [Memory μ] {memory : μ} {queued : List UInt8}

theorem Follows.serve (h : Follows memory queued m) (move : Move) :
    Follows memory (queued ++ move.queued) (m.serve move.request).machine := by
  cases move with
  | push byte => exact h.extend [byte]
  | extend bytes => exact h.extend bytes
  | boot =>
    rw [Move.queued, List.append_nil]
    exact h.boot
  | step =>
    rw [Move.queued, List.append_nil]
    exact h.step
  | run limit =>
    rw [Move.queued, List.append_nil]
    exact run_induction (P := fun s (_ : Journal) => Follows memory queued s) h fun s _ _ h => h.step
  | setBusy busy =>
    rw [Move.queued, List.append_nil]
    exact h.setBusy busy

theorem Follows.after {moves : List Move} (h : Follows memory queued m) :
    Follows memory (queued ++ moves.flatMap Move.queued) (m.after (moves.map Move.request)) := by
  induction moves generalizing m queued with
  | nil =>
    rw [List.flatMap_nil, List.append_nil]
    exact h
  | cons move rest ih =>
    rw [List.flatMap_cons, ← List.append_assoc]
    exact ih (h.serve move)

theorem taken_run {limit : Nat} :
    (m.run (· ++ ·) limit ({} : Journal)).trace.taken ++
      (m.run (· ++ ·) limit ({} : Journal)).machine.input.pending = m.input.pending := by
  refine run_induction (P := fun (s : Machine μ QueueInput BufferOutput) (journal : Journal) =>
    journal.taken ++ s.input.pending = m.input.pending) rfl ?_
  intro s _ journal h
  rw [Journal.taken_append, List.append_assoc, taken_step]
  exact h

theorem taken_serve (move : Move) :
    (m.serve move.request).trace.taken ++ (m.serve move.request).machine.input.pending =
      m.input.pending ++ move.queued := by
  cases move with
  | push byte => rfl
  | extend bytes => rfl
  | boot =>
    obtain ⟨htaken, hinput⟩ := m.boot_trace
    rw [Move.queued, List.append_nil]
    exact congrArg₂ _ htaken (congrArg _ hinput)
  | step =>
    rw [Move.queued, List.append_nil]
    exact taken_step
  | run limit =>
    rw [Move.queued, List.append_nil]
    exact taken_run
  | setBusy busy =>
    rw [Move.queued, List.append_nil]
    rfl

theorem taken_journal {moves : List Move} :
    (m.journal (moves.map Move.request)).taken ++
        (m.after (moves.map Move.request)).input.pending =
      m.input.pending ++ moves.flatMap Move.queued := by
  induction moves generalizing m with
  | nil => exact (List.append_nil _).symm
  | cons move rest ih =>
    simp only [List.map_cons, journal, after, Journal.taken_append, List.append_assoc, ih]
    rw [← List.append_assoc, taken_serve, List.flatMap_cons, List.append_assoc]

theorem Follows.booted (h : Follows memory queued m) (hready : m.isReady = true)
    (later : List UInt8) : m.supplied later = reference memory (queued ++ later) m.steps := by
  rcases h with ⟨-, hlater⟩ | ⟨-, -, hlater⟩
  · have hregisters : m.registers = {} := congrArg Machine.registers (hlater [])
    simp [isReady, hregisters] at hready
  · exact hlater later

theorem Follows.alike {more : List UInt8} {n : Machine μ QueueInput BufferOutput}
    (hm : Follows memory queued m) (hn : Follows memory (queued ++ more) n)
    (hready : m.isReady = true) (hready' : n.isReady = true) (hsteps : m.steps = n.steps) :
    Alike m n ∧ m.input.pending ++ more = n.input.pending := by
  have heq : m.supplied more = n.supplied [] := by
    rw [hm.booted hready, hn.booted hready', List.append_nil, hsteps]
  have hinput : m.input.extend more = n.input.extend [] := congrArg Machine.input heq
  refine ⟨⟨?_, ?_, ?_, ?_⟩, ?_⟩
  · exact congrArg (fun s => s.registers) heq
  · exact congrArg (fun s => s.memory) heq
  · exact congrArg (fun s => s.origin) heq
  · exact congrArg (fun s => s.output.bytes) heq
  · simpa [QueueInput.extend] using hinput

end Machine

namespace Schedule

def queued (schedule : Schedule) : List UInt8 :=
  schedule.early ++ schedule.moves.flatMap Move.queued

def upTo (schedule : Schedule) (count : Nat) : Schedule :=
  { schedule with moves := schedule.moves.take count }

theorem queued_upTo_prefix (schedule : Schedule) (count : Nat) :
    (schedule.upTo count).queued <+: schedule.queued := by
  refine ⟨(schedule.moves.drop count).flatMap Move.queued, ?_⟩
  rw [queued, queued, upTo, List.append_assoc, ← List.flatMap_append, List.take_append_drop]

variable {μ : Type} [Memory μ]

def start (schedule : Schedule) (memory : μ) : Machine μ QueueInput BufferOutput :=
  .start memory ⟨schedule.early⟩ { busy := schedule.busy }

def machine (schedule : Schedule) (memory : μ) : Machine μ QueueInput BufferOutput :=
  (schedule.start memory).after (schedule.moves.map Move.request)

def taken (schedule : Schedule) (memory : μ) : List UInt8 :=
  ((schedule.start memory).journal (schedule.moves.map Move.request)).taken

theorem follows_machine (schedule : Schedule) (memory : μ) :
    (schedule.machine memory).Follows memory schedule.queued :=
  (Machine.follows_start memory schedule.early schedule.busy).after

theorem taken_append_pending (schedule : Schedule) (memory : μ) :
    schedule.taken memory ++ (schedule.machine memory).input.pending = schedule.queued :=
  Machine.taken_journal

theorem alike_of_prefix {one two : Schedule} {memory : μ} (hqueued : one.queued <+: two.queued)
    (hone : (one.machine memory).isReady = true) (htwo : (two.machine memory).isReady = true)
    (hsteps : (one.machine memory).steps = (two.machine memory).steps) :
    (one.machine memory).Alike (two.machine memory) ∧ one.taken memory = two.taken memory := by
  obtain ⟨more, hmore⟩ := hqueued
  have hfollows := two.follows_machine memory
  rw [← hmore] at hfollows
  obtain ⟨halike, hpending⟩ := (one.follows_machine memory).alike hfollows hone htwo hsteps
  refine ⟨halike, ?_⟩
  have hbytes : one.taken memory ++ (two.machine memory).input.pending =
      two.taken memory ++ (two.machine memory).input.pending := by
    rw [taken_append_pending, ← hmore, ← hpending, ← List.append_assoc, taken_append_pending]
  exact List.append_cancel_right hbytes

/-- Stalls and timing do not show. At any points of two schedules of which one
queues what the other does, and perhaps more, the machines are alike and have
taken the same input if they have booted and executed equally many instructions;
and no byte is lost, doubled or moved on its way through a queue. -/
theorem alike_of_steps {one two : Schedule} (memory : μ) (hqueued : one.queued <+: two.queued)
    (j k : Nat) :
    (((one.upTo j).machine memory).isReady = true → ((two.upTo k).machine memory).isReady = true →
      ((one.upTo j).machine memory).steps = ((two.upTo k).machine memory).steps →
      ((one.upTo j).machine memory).Alike ((two.upTo k).machine memory) ∧
        (one.upTo j).taken memory = (two.upTo k).taken memory) ∧
    (one.upTo j).taken memory ++ ((one.upTo j).machine memory).input.pending =
      (one.upTo j).queued ∧
    (two.upTo k).taken memory ++ ((two.upTo k).machine memory).input.pending =
      (two.upTo k).queued := by
  refine ⟨fun hone htwo hsteps => ?_, taken_append_pending _ _, taken_append_pending _ _⟩
  -- At the two points either schedule may be ahead of the other.
  have hleft := (one.queued_upTo_prefix j).trans hqueued
  have hright := two.queued_upTo_prefix k
  rcases List.prefix_or_prefix_of_prefix hleft hright with hahead | hahead
  · exact alike_of_prefix hahead hone htwo hsteps
  · obtain ⟨halike, htaken⟩ := alike_of_prefix hahead htwo hone hsteps.symm
    exact ⟨halike.symm, htaken.symm⟩

def echoImage : Image where
  text := [0x2c, 0x2e]
  data := []
  checked := rfl
  fits := by decide

/-- The machine waits for its byte, and then for its output. -/
def haltingSchedule : Schedule where
  busy := true
  moves := [.step, .push 0x41, .run 9, .setBusy false, .step]

def eagerSchedule : Schedule where
  moves := [.extend [0x41, 0x42], .run 2]

theorem alike_of_steps_echo :
    haltingSchedule.queued <+: eagerSchedule.queued ∧
      ((haltingSchedule.upTo 5).machine echoImage.ram).Alike
        ((eagerSchedule.upTo 2).machine echoImage.ram) ∧
      (haltingSchedule.upTo 5).taken echoImage.ram = (eagerSchedule.upTo 2).taken echoImage.ram := by
  have hqueued : haltingSchedule.queued <+: eagerSchedule.queued := ⟨[0x42], rfl⟩
  obtain ⟨halike, -⟩ := alike_of_steps echoImage.ram hqueued 5 2
  exact ⟨hqueued, halike (by decide +kernel) (by decide +kernel) (by decide +kernel)⟩

end Schedule

end RingMachine

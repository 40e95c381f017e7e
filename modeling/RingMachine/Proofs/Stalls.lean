import RingMachine.Proofs.Session

/-!
# Stalls

On a queue and a buffer, a step that cannot be done changes nothing, and any other
is also the step that the machine would do if more input stood behind its own and
its output were not busy. What a step takes from the queue is gone from it, and
nothing else is.
-/

namespace RingMachine

-- ---------------------------------------------------------------------------
-- Bytes taken from the input
-- ---------------------------------------------------------------------------

def Call.taken : Call → Option UInt8
  | takeByte byte => some byte
  | _ => none

def Journal.taken (journal : Journal) : List UInt8 :=
  journal.calls.filterMap Call.taken

@[simp] theorem Journal.taken_append (first second : Journal) :
    (first ++ second).taken = first.taken ++ second.taken := by
  simp [taken]

theorem QueueInput.pending_of_takeByte {queue rest : QueueInput} {byte : UInt8}
    (hbyte : (Input.hasByte queue).1 = true)
    (htake : Input.takeByte (Input.hasByte queue).2 = (byte, rest)) :
    queue.pending = byte :: rest.pending := by
  obtain ⟨pending⟩ := queue
  cases pending with
  | nil => cases hbyte
  | cons first others =>
    cases htake
    rfl

namespace Machine

variable {μ : Type} [Memory μ] {m : Machine μ QueueInput BufferOutput}

theorem boot_trace : m.boot.trace.taken = [] ∧ m.boot.machine.input = m.input := by
  unfold boot
  split
  · exact ⟨rfl, rfl⟩
  · split <;> exact ⟨rfl, rfl⟩

theorem Outcome.taken {turn : Turn Step Journal μ QueueInput BufferOutput} (h : Outcome m turn) :
    turn.trace.taken ++ turn.machine.input.pending = m.input.pending := by
  cases h with
  | takes _ hbyte htake => exact (QueueInput.pending_of_takeByte hbyte htake).symm
  | _ => rfl

theorem taken_step : m.step.trace.taken ++ m.step.machine.input.pending = m.input.pending := by
  rcases m.step_cases with ⟨-, hstep⟩ | ⟨-, -, -, hstep⟩ | ⟨-, _, turn, -, hturn, hstep⟩
  · rw [hstep]
    rfl
  · rw [hstep]
    rfl
  · obtain ⟨htaken, hinput⟩ := m.boot_trace
    rw [hstep, Journal.taken_append, htaken, ← hinput]
    exact hturn.taken

-- ---------------------------------------------------------------------------
-- A machine that never has to wait
-- ---------------------------------------------------------------------------

/-- The machine with more input behind its own and an output that is not busy. -/
def supplied (m : Machine μ QueueInput BufferOutput) (later : List UInt8) :
    Machine μ QueueInput BufferOutput :=
  m.adjust (·.extend later) (·.setBusy false)

theorem boot_supplied (m : Machine μ QueueInput BufferOutput) (later : List UInt8) :
    (m.supplied later).boot.machine = m.boot.machine.supplied later := by
  simp only [boot, supplied, adjust]
  split
  · rfl
  · split <;> rfl

/-- A turn that counts as an instruction, and that is no other one with more input
and an output that is not busy. -/
structure Progresses (m : Machine μ QueueInput BufferOutput)
    (turn : Turn Step Journal μ QueueInput BufferOutput) : Prop where
  steps : turn.machine.steps = m.steps + 1
  depth : turn.machine.registers.depth = 0
  origin : turn.machine.origin = m.origin
  supplied : ∀ later,
    Outcome (m.supplied later) ⟨turn.result, turn.machine.supplied later, turn.trace⟩

theorem Outcome.keepsPace {turn : Turn Step Journal μ QueueInput BufferOutput}
    (h : Outcome m turn) (hdepth : m.registers.depth = 0) :
    turn.machine = m ∨ Progresses m turn := by
  cases h with
  | retires hfetch hhalt houtput hinput hstays heffect =>
    refine .inr ⟨rfl, hdepth, rfl, fun later => .retires hfetch hhalt houtput hinput hstays ?_⟩
    exact (m.effect_withDevices _ _ _).trans (congrArg (withDevices · _ _) heffect)
  | jumps hfetch hleaps hscan =>
    exact .inr ⟨rfl, rfl, rfl, fun _ => .jumps hfetch hleaps hscan⟩
  | fails =>
    -- A scan that fails clears the counter, which was clear already.
    left
    rw [setDepth, ← hdepth]
  | waitsForOutput | waitsForInput => exact .inl rfl
  | writes hfetch => exact .inr ⟨rfl, hdepth, rfl, fun _ => .writes hfetch rfl⟩
  | @takes byte rest hfetch hbyte htake =>
    have hpending := QueueInput.pending_of_takeByte hbyte htake
    refine .inr ⟨rfl, hdepth, rfl, fun later => .takes hfetch ?_ ?_⟩
    · simp [supplied, adjust, QueueInput.extend, Input.hasByte, QueueInput.isEmpty, hpending]
    · simp [supplied, adjust, QueueInput.extend, Input.hasByte, Input.takeByte,
        QueueInput.takeByte, hpending]
  | halts hfetch => exact .inr ⟨rfl, hdepth, rfl, fun _ => .halts hfetch⟩

end Machine

end RingMachine

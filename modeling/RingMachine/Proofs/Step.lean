import RingMachine.Proofs.Block
import RingMachine.Proofs.Outcome

/-!
# One step

What the outcomes of an instruction have in common, for all memories and devices. An
action either waits for a port, and then nothing but the devices may have changed, or it
is executed and goes on behind itself. A step writes to the cell under the data pointer or
to none, and only if it executes an instruction that writes; on plain memory every other
cell keeps its byte.
-/

namespace RingMachine

@[simp] theorem Journal.nil_append (journal : Journal) : ({} : Journal) ++ journal = journal := rfl

@[ext] theorem Journal.ext {one two : Journal} (hcalls : one.calls = two.calls)
    (hevents : one.events = two.events) : one = two := by
  cases one
  cases two
  cases hcalls
  cases hevents
  rfl

@[simp] theorem Journal.append_nil (journal : Journal) : journal ++ ({} : Journal) = journal :=
  Journal.ext (List.append_nil _) (List.append_nil _)

theorem Journal.append_assoc (first second third : Journal) :
    first ++ second ++ third = first ++ (second ++ third) :=
  Journal.ext (List.append_assoc _ _ _) (List.append_assoc _ _ _)

theorem Action.opcode_ne_nest (action : Action) (direction : Direction) :
    action.opcode ≠ direction.nest := by
  cases action <;> cases direction <;> nofun

namespace Machine

variable {μ ι ο : Type} [Memory μ] {m : Machine μ ι ο}

theorem memory_boot : m.boot.machine.memory = m.memory := by
  unfold boot
  split
  · rfl
  · split <;> rfl

theorem isHalted_boot : m.boot.machine.isHalted = m.isHalted := by
  unfold boot
  split
  · rfl
  · split <;> rfl

theorem origin_boot {origin : Address} (h : m.boot.result = .ok origin) :
    m.boot.machine.origin = some origin := by
  unfold boot at h ⊢
  split at h
  · cases h
    assumption
  · split at h
    · cases h
    · cases h
      rfl

/-- A turn that waits for a port and leaves all but the devices alone. -/
structure Waits (m : Machine μ ι ο) (port : Port) (turn : Turn Step Journal μ ι ο) : Prop where
  result : turn.result = .ok (.blocked port)
  registers : turn.machine.registers = m.registers
  memory : turn.machine.memory = m.memory
  origin : turn.machine.origin = m.origin
  steps : turn.machine.steps = m.steps

/-- A turn that executes an instruction and goes on behind it. -/
structure Passes (m : Machine μ ι ο) (op : Opcode) (turn : Turn Step Journal μ ι ο) : Prop where
  result : turn.result = .ok (.executed op)
  pc : turn.machine.registers.pc = m.registers.pc.next
  depth : turn.machine.registers.depth = m.registers.depth
  status : turn.machine.registers.status = m.registers.status
  memory : turn.machine.memory = m.memory ∨
    op.writes = true ∧ ∃ byte, Memory.write m.memory m.registers.ptr byte = turn.machine.memory
  origin : turn.machine.origin = m.origin
  steps : turn.machine.steps = m.steps + 1

variable [Input ι] [Output ο]

theorem step_of_origin {origin : Address} (h : m.origin = some origin)
    (hrunning : m.isHalted = false) : m.step = m.execute := by
  simp [step, hrunning, boot_of_origin h]

theorem Outcome.memory {turn : Turn Step Journal μ ι ο} (h : Outcome m turn) :
    turn.machine.memory = m.memory ∨
      ∃ op, Opcode.decode m.fetch = op ∧ turn.result = .ok (.executed op) ∧ op.writes = true ∧
        ∃ byte, Memory.write m.memory m.registers.ptr byte = turn.machine.memory := by
  cases h with
  | @retires op _ _ _ hfetch _ _ _ _ heffect =>
    have hmemory := m.memory_effect op
    rw [heffect] at hmemory
    exact hmemory.imp_right fun hwrites => ⟨op, hfetch, rfl, hwrites⟩
  | takes hfetch => exact .inr ⟨.input, hfetch, rfl, rfl, _, rfl⟩
  | _ => exact .inl rfl

theorem execute_action {action : Action} (h : Opcode.decode m.fetch = action.opcode) :
    (∃ port, Waits m port m.execute) ∨ Passes m action.opcode m.execute := by
  have houtcome := m.execute_outcome
  have hmemory : m.execute.machine.memory = m.memory ∨ action.opcode.writes = true ∧
      ∃ byte, Memory.write m.memory m.registers.ptr byte = m.execute.machine.memory := by
    refine houtcome.memory.imp_right ?_
    rintro ⟨op, hop, -, hwrites⟩
    rwa [← h, hop]
  generalize m.execute = turn at houtcome hmemory ⊢
  cases houtcome with
  | retires hfetch | writes hfetch | takes hfetch =>
    rw [h.symm.trans hfetch] at hmemory ⊢
    exact .inr ⟨rfl, rfl, rfl, rfl, hmemory, rfl, rfl⟩
  | jumps hfetch | fails hfetch => exact absurd (h.symm.trans hfetch) (action.opcode_ne_nest _)
  | waitsForOutput | waitsForInput => exact .inl ⟨_, rfl, rfl, rfl, rfl, rfl⟩
  | halts hfetch => cases action <;> exact absurd (h.symm.trans hfetch) nofun

-- ---------------------------------------------------------------------------
-- Devices in memory
-- ---------------------------------------------------------------------------

section
variable {m : Machine μ QueueInput BufferOutput}

theorem emit_of_ready (h : m.output.busy = false) :
    m.emit = ⟨.ok (.executed .output), { m.advance with output := m.output.write m.cell },
      { calls := [.isReady true, .write m.cell], events := [m.fetched, .output m.cell] }⟩ := by
  simp [emit, Output.isReady, Output.write, h, advance, goTo]

theorem accept_of_nil (h : m.input.pending = []) :
    m.accept = ⟨.ok (.blocked .input), m,
      { calls := [.flush, .hasByte false], events := [.blocked .input] }⟩ := by
  simp [accept, Input.hasByte, Output.flush, QueueInput.isEmpty, h]

theorem accept_of_cons {byte : UInt8} {rest : List UInt8} (h : m.input.pending = byte :: rest) :
    m.accept = ⟨.ok (.executed .input), { (m.setCell byte).advance with input := ⟨rest⟩ },
      { calls := [.flush, .hasByte true, .takeByte byte],
        events := [m.fetched, .input byte] }⟩ := by
  simp [accept, Input.hasByte, Input.takeByte, Output.flush, QueueInput.isEmpty,
    QueueInput.takeByte, h, setCell, advance, goTo]

end

-- ---------------------------------------------------------------------------
-- Writes to memory
-- ---------------------------------------------------------------------------

def Overwrites (m : Machine μ ι ο) (a : Address) : Prop :=
  ∃ op, m.step.result = .ok (.executed op) ∧ op.writes = true ∧ m.boot.machine.registers.ptr = a

theorem overwrites_iff {op : Opcode} (hop : m.step.result = .ok (.executed op)) {a : Address} :
    m.Overwrites a ↔ op.writes = true ∧ m.boot.machine.registers.ptr = a := by
  constructor
  · rintro ⟨found, hfound, hwrites, hptr⟩
    rw [hop] at hfound
    cases hfound
    exact ⟨hwrites, hptr⟩
  · rintro ⟨hwrites, hptr⟩
    exact ⟨op, hop, hwrites, hptr⟩

theorem memory_step : m.step.machine.memory = m.memory ∨
    ∃ a byte, m.Overwrites a ∧ Memory.write m.memory a byte = m.step.machine.memory := by
  rcases m.step_cases with ⟨-, hstep⟩ | ⟨-, -, -, hstep⟩ | ⟨-, origin, turn, -, houtcome, hstep⟩
  · exact .inl (by rw [hstep])
  · exact .inl (by rw [hstep])
  · have hresult : m.step.result = turn.result := by rw [hstep]
    have hmemory := houtcome.memory
    rw [memory_boot] at hmemory
    rw [hstep]
    rcases hmemory with hkept | ⟨op, -, hexecuted, hwrites, byte, hwritten⟩
    · exact .inl hkept
    · exact .inr ⟨_, byte, ⟨op, hresult.trans hexecuted, hwrites, rfl⟩, hwritten⟩

theorem get_step {m : Machine Ram ι ο} {a : Address} (h : ¬ m.Overwrites a) :
    m.step.machine.memory.get a = m.memory.get a := by
  rcases m.memory_step with hkept | ⟨written, byte, hover, hwritten⟩
  · rw [hkept]
  · have hne : a ≠ written := by
      rintro rfl
      exact h hover
    rw [← hwritten, Ram.write_eq_set, Ram.get_set, if_neg hne]

end Machine

end RingMachine

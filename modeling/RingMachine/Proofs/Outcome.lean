import RingMachine.Machine

/-!
# Outcomes

All that an instruction can do, with the data and the devices afterwards and with what
is reported on the way. `Outcome.execute_eq` and `execute_outcome` say that this is what
executing it does, no more and no less. What a step preserves or reports is read off from
`Outcome`, and of two machines that correspond the outcome on the one is carried over to
the other; neither has to tell the instructions apart once more.
-/

namespace RingMachine

def Opcode.writes : Opcode → Bool
  | incrementCell | decrementCell | load | input => true
  | _ => false

/-- Whether a bracket that looks for its partner in a direction jumps. -/
def Direction.Leaps : Direction → UInt8 → Prop
  | forward, cell => cell = 0
  | backward, cell => cell ≠ 0

namespace Machine

variable {μ ι ο : Type}

def core (m : Machine μ ι ο) : Machine μ Unit Unit :=
  ⟨m.registers, m.memory, (), (), m.origin, m.steps⟩

def withDevices {κ ρ : Type} (m : Machine μ ι ο) (input : κ) (output : ρ) : Machine μ κ ρ :=
  ⟨m.registers, m.memory, input, output, m.origin, m.steps⟩

section
variable {m n : Machine μ ι ο}

theorem origin_of_core (h : m.core = n.core) : m.origin = n.origin :=
  congrArg (fun s => s.origin) h

theorem isHalted_of_core (h : m.core = n.core) : m.isHalted = n.isHalted :=
  congrArg (fun s => s.isHalted) h

end

variable [Memory μ]

-- ---------------------------------------------------------------------------
-- Data
-- ---------------------------------------------------------------------------

/-- What an instruction that goes on behind itself does to the data. -/
def effect (m : Machine μ ι ο) : Opcode → Machine μ ι ο
  | .incrementPointer => m.setPtr m.registers.ptr.next
  | .decrementPointer => m.setPtr m.registers.ptr.prev
  | .incrementCell => m.setCell (m.cell + 1)
  | .decrementCell => m.setCell (m.cell - 1)
  | .store => m.setTmp m.cell
  | .load => m.setCell m.registers.tmp
  | _ => m

theorem effect_eq (m : Machine μ ι ο) (op : Opcode) : ∃ ptr tmp memory,
    m.effect op = { m with registers := { m.registers with ptr, tmp }, memory } := by
  cases op <;> exact ⟨_, _, _, rfl⟩

theorem effect_withDevices {κ ρ : Type} (m : Machine μ ι ο) (input : κ) (output : ρ) (op : Opcode) :
    (m.withDevices input output).effect op = (m.effect op).withDevices input output := by
  cases op <;> rfl

theorem memory_effect (m : Machine μ ι ο) (op : Opcode) : (m.effect op).memory = m.memory ∨
    op.writes = true ∧
      ∃ byte, Memory.write m.memory m.registers.ptr byte = (m.effect op).memory := by
  cases op with
  | incrementCell | decrementCell | load => exact .inr ⟨rfl, _, rfl⟩
  | _ => exact .inl rfl

-- ---------------------------------------------------------------------------
-- Instructions
-- ---------------------------------------------------------------------------

variable [Input ι] [Output ο]

/-- What executing the instruction under the program counter can do. -/
inductive Outcome (m : Machine μ ι ο) : Turn Step Journal μ ι ο → Prop
  /-- The machine goes on behind the instruction, which has had its effect on the data
  pointer, the scratch byte and the memory, and on nothing else. -/
  | retires {op : Opcode} {ptr : Address} {tmp : UInt8} {memory : μ}
      (hfetch : Opcode.decode m.fetch = op) (hhalt : op ≠ .halt) (houtput : op ≠ .output)
      (hinput : op ≠ .input)
      (hstays : ∀ direction : Direction, op = direction.nest → ¬ direction.Leaps m.cell)
      (heffect : m.effect op = { m with registers := { m.registers with ptr, tmp }, memory }) :
      Outcome m (retire op m.fetched { m with registers := { m.registers with ptr, tmp }, memory })
  /-- A bracket jumps behind its partner. -/
  | jumps {direction : Direction} {partner : Address}
      (hfetch : Opcode.decode m.fetch = direction.nest) (hleaps : direction.Leaps m.cell)
      (hscan : scan m.memory direction m.registers.pc = some ⟨partner, 0⟩) :
      Outcome m ⟨.ok (.executed direction.nest), (m.setDepth 0).goTo partner.next,
        { events := [m.fetched, .jump m.registers.pc partner.next] }⟩
  /-- A bracket has no partner to jump to. -/
  | fails {direction : Direction}
      (hfetch : Opcode.decode m.fetch = direction.nest) (hleaps : direction.Leaps m.cell)
      (hscan : scan m.memory direction m.registers.pc = none) :
      Outcome m ⟨.error (.unmatchedBracket m.registers.pc), m.setDepth 0,
        { events := [m.fetched] }⟩
  | waitsForOutput (hfetch : Opcode.decode m.fetch = .output)
      (hready : (Output.isReady m.output).1 = false) :
      Outcome m ⟨.ok (.blocked .output), { m with output := (Output.isReady m.output).2 },
        { calls := [.isReady false], events := [.blocked .output] }⟩
  | writes (hfetch : Opcode.decode m.fetch = .output)
      (hready : (Output.isReady m.output).1 = true) :
      Outcome m ⟨.ok (.executed .output),
        { m.advance with output := Output.write (Output.isReady m.output).2 m.cell },
        { calls := [.isReady true, .write m.cell], events := [m.fetched, .output m.cell] }⟩
  | waitsForInput (hfetch : Opcode.decode m.fetch = .input)
      (hbyte : (Input.hasByte m.input).1 = false) :
      Outcome m ⟨.ok (.blocked .input),
        { m with input := (Input.hasByte m.input).2, output := Output.flush m.output },
        { calls := [.flush, .hasByte false], events := [.blocked .input] }⟩
  | takes {byte : UInt8} {rest : ι} (hfetch : Opcode.decode m.fetch = .input)
      (hbyte : (Input.hasByte m.input).1 = true)
      (htake : Input.takeByte (Input.hasByte m.input).2 = (byte, rest)) :
      Outcome m ⟨.ok (.executed .input),
        { (m.setCell byte).advance with input := rest, output := Output.flush m.output },
        { calls := [.flush, .hasByte true, .takeByte byte],
          events := [m.fetched, .input byte] }⟩
  | halts (hfetch : Opcode.decode m.fetch = .halt) :
      Outcome m ⟨.ok .halted, m.stop, { events := [m.fetched, .halt m.registers.pc] }⟩

variable {m : Machine μ ι ο}

theorem Outcome.of_stays {op : Opcode} (hfetch : Opcode.decode m.fetch = op) (hhalt : op ≠ .halt)
    (houtput : op ≠ .output) (hinput : op ≠ .input)
    (hstays : ∀ direction : Direction, op = direction.nest → ¬ direction.Leaps m.cell) :
    Outcome m (retire op m.fetched (m.effect op)) := by
  obtain ⟨ptr, tmp, memory, heffect⟩ := m.effect_eq op
  rw [heffect]
  exact .retires hfetch hhalt houtput hinput hstays heffect

theorem execute_loopOpen (h : Opcode.decode m.fetch = .loopOpen) :
    m.execute =
      if m.cell = 0 then m.leap .forward .loopOpen else retire .loopOpen m.fetched m := by
  simp [execute, h]

theorem execute_loopClose (h : Opcode.decode m.fetch = .loopClose) :
    m.execute =
      if m.cell = 0 then retire .loopClose m.fetched m else m.leap .backward .loopClose := by
  simp [execute, h]

theorem execute_of_leaps {direction : Direction} (hfetch : Opcode.decode m.fetch = direction.nest)
    (hleaps : direction.Leaps m.cell) : m.execute = m.leap direction direction.nest := by
  cases direction with
  | forward => exact (execute_loopOpen hfetch).trans (if_pos hleaps)
  | backward => exact (execute_loopClose hfetch).trans (if_neg hleaps)

theorem execute_output (h : Opcode.decode m.fetch = .output) : m.execute = m.emit := by
  simp [execute, h]

theorem execute_input (h : Opcode.decode m.fetch = .input) : m.execute = m.accept := by
  simp [execute, h]

theorem execute_halt (h : Opcode.decode m.fetch = .halt) :
    m.execute = ⟨.ok .halted, m.stop, { events := [m.fetched, .halt m.registers.pc] }⟩ := by
  simp [execute, h]

theorem leap_outcome {direction : Direction} (hfetch : Opcode.decode m.fetch = direction.nest)
    (hleaps : direction.Leaps m.cell) : Outcome m (m.leap direction direction.nest) := by
  unfold leap
  cases hscan : scan m.memory direction m.registers.pc with
  | none => exact .fails hfetch hleaps hscan
  | some cursor =>
    rcases cursor with ⟨partner, depth⟩
    obtain rfl : depth = 0 := depth_of_scanFrom hscan
    exact .jumps hfetch hleaps hscan

theorem emit_outcome (hfetch : Opcode.decode m.fetch = .output) : Outcome m m.emit := by
  unfold emit
  cases hready : (Output.isReady m.output).1 with
  | false =>
    simp only [askOutput_eq, hready]
    exact .waitsForOutput hfetch hready
  | true =>
    simp only [askOutput_eq, hready]
    exact .writes hfetch hready

theorem accept_outcome (hfetch : Opcode.decode m.fetch = .input) : Outcome m m.accept := by
  unfold accept
  cases hbyte : (Input.hasByte m.input).1 with
  | false =>
    simp only [tellOutput_eq, askInput_eq, hbyte]
    exact .waitsForInput hfetch hbyte
  | true =>
    simp only [tellOutput_eq, askInput_eq, hbyte]
    exact .takes hfetch hbyte rfl

theorem execute_outcome (m : Machine μ ι ο) : Outcome m m.execute := by
  cases hfetch : Opcode.decode m.fetch with
  | loopOpen =>
    rw [execute_loopOpen hfetch]
    split
    · next hcell => exact leap_outcome hfetch hcell
    · next hcell =>
      refine .of_stays hfetch (by decide) (by decide) (by decide) fun direction hnest => ?_
      cases direction with
      | forward => exact hcell
      | backward => cases hnest
  | loopClose =>
    rw [execute_loopClose hfetch]
    split
    · next hcell =>
      refine .of_stays hfetch (by decide) (by decide) (by decide) fun direction hnest => ?_
      cases direction with
      | forward => cases hnest
      | backward => exact not_not_intro hcell
    · next hcell => exact leap_outcome hfetch hcell
  | output =>
    rw [execute_output hfetch]
    exact emit_outcome hfetch
  | input =>
    rw [execute_input hfetch]
    exact accept_outcome hfetch
  | halt =>
    rw [execute_halt hfetch]
    exact .halts hfetch
  | _ =>
    simp only [execute, hfetch]
    exact .of_stays hfetch (by decide) (by decide) (by decide) (by rintro (_ | _) <;> nofun)

theorem execute_of_stays {op : Opcode} (hfetch : Opcode.decode m.fetch = op) (hhalt : op ≠ .halt)
    (houtput : op ≠ .output) (hinput : op ≠ .input)
    (hstays : ∀ direction : Direction, op = direction.nest → ¬ direction.Leaps m.cell) :
    m.execute = retire op m.fetched (m.effect op) := by
  cases op with
  | loopOpen => exact (execute_loopOpen hfetch).trans (if_neg (hstays .forward rfl))
  | loopClose =>
    exact (execute_loopClose hfetch).trans (if_pos (Decidable.not_not.mp (hstays .backward rfl)))
  | output => exact absurd rfl houtput
  | input => exact absurd rfl hinput
  | halt => exact absurd rfl hhalt
  | _ => simp only [execute, hfetch, effect]

theorem Outcome.execute_eq {turn : Turn Step Journal μ ι ο} (h : Outcome m turn) :
    m.execute = turn := by
  cases h with
  | retires hfetch hhalt houtput hinput hstays heffect =>
    rw [← heffect]
    exact execute_of_stays hfetch hhalt houtput hinput hstays
  | jumps hfetch hleaps hscan | fails hfetch hleaps hscan =>
    rw [execute_of_leaps hfetch hleaps, leap, hscan]
  | waitsForOutput hfetch hready =>
    rw [execute_output hfetch]
    simp only [emit, askOutput_eq, hready]
  | writes hfetch hready =>
    rw [execute_output hfetch]
    simp only [emit, askOutput_eq, tellOutput_eq, hready]
    rfl
  | waitsForInput hfetch hbyte =>
    rw [execute_input hfetch]
    simp only [accept, tellOutput_eq, askInput_eq, hbyte]
  | takes hfetch hbyte htake =>
    rw [execute_input hfetch]
    simp only [accept, tellOutput_eq, askInput_eq, hbyte, htake]
    rfl
  | halts hfetch => exact execute_halt hfetch

theorem Outcome.opcode {turn : Turn Step Journal μ ι ο} {op : Opcode} (h : Outcome m turn)
    (hresult : turn.result = .ok (.executed op)) : Opcode.decode m.fetch = op := by
  cases h with
  | retires hfetch | jumps hfetch | writes hfetch | takes hfetch =>
    cases hresult
    exact hfetch
  | _ => cases hresult

-- ---------------------------------------------------------------------------
-- Steps
-- ---------------------------------------------------------------------------

omit [Input ι] [Output ο] in
theorem boot_cases (m : Machine μ ι ο) :
    (∃ origin, m.origin = some origin ∧ m.boot = ⟨.ok origin, m, {}⟩) ∨
    (m.origin = none ∧ Memory.findSentinel m.memory = none ∧
      m.boot = ⟨.error .missingSentinel, m, {}⟩) ∨
    (m.origin = none ∧ ∃ origin, Memory.findSentinel m.memory = some origin ∧
      m.boot = ⟨.ok origin, { m with registers := m.registers.boot origin, origin := some origin },
        { events := [.boot origin] }⟩) := by
  cases horigin : m.origin with
  | some origin => exact .inl ⟨origin, rfl, boot_of_origin horigin⟩
  | none =>
    right
    cases hfound : Memory.findSentinel m.memory with
    | none => exact .inl ⟨rfl, rfl, by simp [boot, horigin, hfound]⟩
    | some origin => exact .inr ⟨rfl, origin, rfl, by simp [boot, horigin, hfound]⟩

theorem step_of_located {origin : Address} (hboot : m.boot.result = .ok origin)
    (hrunning : m.isHalted = false) :
    m.step.result = m.boot.machine.execute.result ∧
      m.step.machine = m.boot.machine.execute.machine ∧
      m.step.trace = m.boot.trace ++ m.boot.machine.execute.trace := by
  rcases hturn : m.boot with ⟨result, next, journal⟩
  rw [hturn] at hboot
  subst hboot
  simp [step, hrunning, hturn]

theorem step_of_fault {fault : Fault} (hboot : m.boot.result = .error fault)
    (hrunning : m.isHalted = false) : m.step = ⟨.error fault, m.boot.machine, m.boot.trace⟩ := by
  rcases hturn : m.boot with ⟨result, next, journal⟩
  rw [hturn] at hboot
  subst hboot
  simp [step, hrunning, hturn]

/-- A step rests on a halted machine, misses the sentinel, or executes the
instruction at which the machine stands once it has booted. -/
theorem step_cases (m : Machine μ ι ο) :
    (m.isHalted = true ∧ m.step = ⟨.ok .halted, m, {}⟩) ∨
    (m.isHalted = false ∧ m.origin = none ∧ Memory.findSentinel m.memory = none ∧
      m.step = ⟨.error .missingSentinel, m, {}⟩) ∨
    (m.isHalted = false ∧ ∃ origin turn, m.boot.result = .ok origin ∧
      Outcome m.boot.machine turn ∧
      m.step = ⟨turn.result, turn.machine, m.boot.trace ++ turn.trace⟩) := by
  have hlocated {origin : Address} (hhalted : m.isHalted = false)
      (hboot : m.boot.result = .ok origin) :
      ∃ origin turn, m.boot.result = .ok origin ∧ Outcome m.boot.machine turn ∧
        m.step = ⟨turn.result, turn.machine, m.boot.trace ++ turn.trace⟩ := by
    refine ⟨origin, _, hboot, m.boot.machine.execute_outcome, ?_⟩
    obtain ⟨hresult, hmachine, htrace⟩ := step_of_located hboot hhalted
    rw [← hresult, ← hmachine, ← htrace]
  cases hhalted : m.isHalted with
  | true => exact .inl ⟨rfl, step_of_halted hhalted⟩
  | false =>
    right
    rcases m.boot_cases with
      ⟨origin, -, hboot⟩ | ⟨horigin, hmissing, hboot⟩ | ⟨-, origin, -, hboot⟩
    · exact .inr ⟨rfl, hlocated hhalted (congrArg Turn.result hboot)⟩
    · refine .inl ⟨rfl, horigin, hmissing, ?_⟩
      rw [step_of_fault (congrArg Turn.result hboot) hhalted, hboot]
    · exact .inr ⟨rfl, hlocated hhalted (congrArg Turn.result hboot)⟩

end Machine

end RingMachine

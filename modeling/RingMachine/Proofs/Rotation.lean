import Mathlib.Algebra.Group.Fin.Basic
import RingMachine.Proofs.StepLimits

/-!
# The ring has no seam

A machine that has located its program may be rotated: all cells move up by the same
distance, around the ring if need be, and the program counter and the data pointer move
with them. The rotated machine asks the same of its devices and ends the same way, and
names the same addresses, rotated. The origin plays no part once it is known, so it stays.
-/

namespace RingMachine

variable {ι ο : Type}

-- ---------------------------------------------------------------------------
-- What is rotated
-- ---------------------------------------------------------------------------

def Ram.Rotated (k : Address) (one two : Ram) : Prop :=
  ∀ a, two.get (a + k) = one.get a

def Fault.rotate (k : Address) : Fault → Fault
  | missingSentinel => missingSentinel
  | unmatchedBracket bracket => unmatchedBracket (bracket + k)

def Event.rotate (k : Address) : Event → Event
  | boot sentinel => boot sentinel
  | instruction pc byte => instruction (pc + k) byte
  | jump start landing => jump (start + k) (landing + k)
  | output byte => output byte
  | input byte => input byte
  | blocked port => blocked port
  | halt pc => halt (pc + k)

def Journal.rotate (k : Address) (journal : Journal) : Journal :=
  { journal with events := journal.events.map (Event.rotate k) }

def Cursor.rotate (k : Address) (cursor : Cursor) : Cursor :=
  { cursor with pos := cursor.pos + k }

def Registers.rotate (k : Address) (registers : Registers) : Registers :=
  { registers with pc := registers.pc + k, ptr := registers.ptr + k }

/-- Nothing differs but the memory and the two registers that point into it. -/
structure Machine.Rotated (k : Address) (m n : Machine Ram ι ο) : Prop where
  memory : m.memory.Rotated k n.memory
  others : n = { m with registers := m.registers.rotate k, memory := n.memory }

/-- The turns end alike; what was reported by the one is read by `report`. -/
structure Turn.Rotated {α τ σ : Type} (k : Address) (report : τ → σ) (one : Turn α τ Ram ι ο)
    (two : Turn α σ Ram ι ο) : Prop where
  result : two.result = one.result.mapError (Fault.rotate k)
  machine : one.machine.Rotated k two.machine
  trace : two.trace = report one.trace

-- ---------------------------------------------------------------------------
-- Scans
-- ---------------------------------------------------------------------------

theorem Address.next_add (a k : Address) : (a + k).next = a.next + k := by
  simp only [next_eq, add_right_comm]

theorem Address.prev_add (a k : Address) : (a + k).prev = a.prev + k := by
  simp only [prev_eq, add_sub_right_comm]

theorem Direction.move_add (direction : Direction) (a k : Address) :
    direction.move (a + k) = direction.move a + k := by
  cases direction with
  | forward => exact a.next_add k
  | backward => exact a.prev_add k

section
variable {k : Address} {one two : Ram}

theorem Ram.Rotated.set (h : one.Rotated k two) (a : Address) (byte : UInt8) :
    (one.set a byte).Rotated k (two.set (a + k) byte) := by
  intro b
  simp only [get_set, add_left_inj, h b]

theorem Ram.exists_rotated (k : Address) (one : Ram) : ∃ two, one.Rotated k two := by
  refine ⟨⟨Vector.ofFn fun a => one.get (a - k)⟩, fun a => ?_⟩
  simp [get]

theorem Ram.Rotated.unique {other : Ram} (h : one.Rotated k two) (h' : one.Rotated k other) :
    two = other := by
  ext a
  rw [← sub_add_cancel a k, h, h']

theorem Ram.Rotated.scanFrom (h : one.Rotated k two) (direction : Direction) (count : Nat)
    (pos : Address) (depth : UInt8) :
    scanFrom two direction count (pos + k) depth =
      (RingMachine.scanFrom one direction count pos depth).map (Cursor.rotate k) := by
  induction count generalizing pos depth with
  | zero => rfl
  | succ count ih =>
    simp only [RingMachine.scanFrom, direction.move_add, read_eq_get, h _, ih]
    split
    · split <;> rfl
    · split <;> rfl

end

-- ---------------------------------------------------------------------------
-- Instructions
-- ---------------------------------------------------------------------------

theorem mapError_eq_ok_iff {α ε δ : Type} {f : ε → δ} {result : Except ε α} {a : α} :
    result.mapError f = .ok a ↔ result = .ok a := by
  cases result <;> simp [Except.mapError]

theorem RunExit.ofStep?_mapError (f : Fault → Fault) (result : Except Fault Step) :
    ofStep? (result.mapError f) = (ofStep? result).map (Except.mapError f) := by
  rcases result with fault | op | port | _ <;> rfl

theorem Machine.origin_step {μ : Type} [Memory μ] [Input ι] [Output ο] {m : Machine μ ι ο}
    {origin : Address} (h : m.origin = some origin) : m.step.machine.origin = some origin := by
  rcases m.step_cases with ⟨-, hstep⟩ | ⟨-, -, -, hstep⟩ | ⟨-, _, turn, -, hturn, hstep⟩
  · rwa [hstep]
  · rwa [hstep]
  · rw [boot_of_origin h] at hturn
    rw [hstep]
    cases hturn <;> exact h

namespace Machine.Rotated

variable {k : Address} {m n : Machine Ram ι ο}

theorem exists_eq (h : m.Rotated k n) : ∃ memory, m.memory.Rotated k memory ∧
    n = { m with registers := m.registers.rotate k, memory } :=
  ⟨n.memory, h.memory, h.others⟩

theorem fetch (h : m.Rotated k n) : n.fetch = m.fetch := by
  obtain ⟨memory, hmemory, rfl⟩ := h.exists_eq
  exact hmemory m.registers.pc

theorem cell (h : m.Rotated k n) : n.cell = m.cell := by
  obtain ⟨memory, hmemory, rfl⟩ := h.exists_eq
  exact hmemory m.registers.ptr

theorem fetched (h : m.Rotated k n) : n.fetched = m.fetched.rotate k := by
  rw [Machine.fetched, h.fetch, h.others]
  rfl

theorem setCell (h : m.Rotated k n) (byte : UInt8) : (m.setCell byte).Rotated k (n.setCell byte) := by
  obtain ⟨memory, hmemory, rfl⟩ := h.exists_eq
  exact ⟨hmemory.set m.registers.ptr byte, rfl⟩

theorem advance (h : m.Rotated k n) : m.advance.Rotated k n.advance := by
  obtain ⟨memory, hmemory, rfl⟩ := h.exists_eq
  refine ⟨hmemory, ?_⟩
  simp only [Machine.advance, goTo, Registers.rotate, Address.next_add]

theorem withDevices (h : m.Rotated k n) (input : ι) (output : ο) :
    (m.withDevices input output).Rotated k (n.withDevices input output) := by
  obtain ⟨memory, hmemory, rfl⟩ := h.exists_eq
  exact ⟨hmemory, rfl⟩

theorem retire (h : m.Rotated k n) (op : Opcode) (event : Event) :
    (Machine.retire op event m).Rotated k (Journal.rotate k) (Machine.retire op (event.rotate k) n) :=
  ⟨rfl, h.advance, rfl⟩

theorem scan (h : m.Rotated k n) (direction : Direction) :
    RingMachine.scan n.memory direction n.registers.pc =
      (RingMachine.scan m.memory direction m.registers.pc).map (Cursor.rotate k) := by
  rw [h.others]
  exact h.memory.scanFrom direction memorySize m.registers.pc 0

theorem effect (h : m.Rotated k n) (op : Opcode) : (m.effect op).Rotated k (n.effect op) := by
  have hcell := h.cell
  have hset := h.setCell
  obtain ⟨memory, hmemory, rfl⟩ := h.exists_eq
  cases op with
  | incrementPointer =>
    refine ⟨hmemory, ?_⟩
    simp only [Machine.effect, setPtr, Registers.rotate, Address.next_add]
  | decrementPointer =>
    refine ⟨hmemory, ?_⟩
    simp only [Machine.effect, setPtr, Registers.rotate, Address.prev_add]
  | incrementCell | decrementCell =>
    simp only [Machine.effect, hcell]
    exact hset _
  | load => exact hset _
  | store =>
    simp only [Machine.effect, hcell]
    exact ⟨hmemory, rfl⟩
  | _ => exact ⟨hmemory, rfl⟩

section
variable [Input ι] [Output ο]

theorem outcome {turn : Turn Step Journal Ram ι ο} (h : m.Rotated k n) (hturn : Outcome m turn) :
    ∃ other, Outcome n other ∧ turn.Rotated k (Journal.rotate k) other := by
  have hfetch' {op : Opcode} (hfetch : Opcode.decode m.fetch = op) : Opcode.decode n.fetch = op :=
    h.fetch ▸ hfetch
  have hcell := h.cell
  have hfetched := h.fetched
  have hscans := h.scan
  have heffects := h.effect
  have hadvance := h.advance
  have hset (byte : UInt8) := (h.setCell byte).advance
  obtain ⟨memory, hmemory, rfl⟩ := h.exists_eq
  cases hturn with
  | @retires op _ _ _ hfetch hhalt houtput hinput hstays heffect =>
    refine ⟨_, .of_stays (hfetch' hfetch) hhalt houtput hinput (hcell ▸ hstays), ?_⟩
    rw [hfetched, ← heffect]
    exact (heffects op).retire _ _
  | @jumps direction partner hfetch hleaps hscan =>
    have hland := hscans direction
    rw [hscan] at hland
    refine ⟨_, .jumps (hfetch' hfetch) (hcell ▸ hleaps) hland, ?_⟩
    rw [hfetched, Address.next_add]
    exact ⟨rfl, ⟨hmemory, rfl⟩, rfl⟩
  | @fails direction hfetch hleaps hscan =>
    have hmiss := hscans direction
    rw [hscan] at hmiss
    refine ⟨_, .fails (hfetch' hfetch) (hcell ▸ hleaps) hmiss, ?_⟩
    rw [hfetched]
    exact ⟨rfl, ⟨hmemory, rfl⟩, rfl⟩
  | waitsForOutput hfetch hready =>
    exact ⟨_, .waitsForOutput (hfetch' hfetch) hready, ⟨rfl, ⟨hmemory, rfl⟩, rfl⟩⟩
  | writes hfetch hready =>
    refine ⟨_, .writes (hfetch' hfetch) hready, ?_⟩
    rw [hfetched, hcell]
    exact ⟨rfl, hadvance.withDevices _ _, rfl⟩
  | waitsForInput hfetch hbyte =>
    exact ⟨_, .waitsForInput (hfetch' hfetch) hbyte, ⟨rfl, ⟨hmemory, rfl⟩, rfl⟩⟩
  | takes hfetch hbyte htake =>
    refine ⟨_, .takes (hfetch' hfetch) hbyte htake, ?_⟩
    rw [hfetched]
    exact ⟨rfl, (hset _).withDevices _ _, rfl⟩
  | halts hfetch =>
    refine ⟨_, .halts (hfetch' hfetch), ?_⟩
    rw [hfetched]
    exact ⟨rfl, ⟨hmemory, rfl⟩, rfl⟩

theorem execute (h : m.Rotated k n) : m.execute.Rotated k (Journal.rotate k) n.execute := by
  obtain ⟨other, hother, hrotated⟩ := h.outcome m.execute_outcome
  rw [hother.execute_eq]
  exact hrotated

theorem step {origin : Address} (h : m.Rotated k n) (horigin : m.origin = some origin) :
    m.step.Rotated k (Journal.rotate k) n.step := by
  have horigin' : n.origin = some origin := by rw [h.others]; exact horigin
  have hhalted : n.isHalted = m.isHalted := by rw [h.others]; rfl
  cases hrunning : m.isHalted with
  | true =>
    rw [step_of_halted hrunning, step_of_halted (hhalted.trans hrunning)]
    exact ⟨rfl, h, rfl⟩
  | false =>
    rw [step_of_origin horigin hrunning, step_of_origin horigin' (hhalted.trans hrunning)]
    exact h.execute

-- ---------------------------------------------------------------------------
-- Runs
-- ---------------------------------------------------------------------------

theorem run {τ : Type} {origin : Address} (h : m.Rotated k n) (horigin : m.origin = some origin)
    (observe : τ → Journal → τ) (limit : Nat) (trace : τ) :
    (m.run (fun trace journal => observe trace (journal.rotate k)) limit trace).Rotated k id
      (n.run observe limit trace) := by
  induction limit generalizing m n trace with
  | zero => exact ⟨rfl, h, rfl⟩
  | succ limit ih =>
    have hstep := h.step horigin
    rw [run_succ_eq, run_succ_eq, hstep.result, RunExit.ofStep?_mapError, hstep.trace]
    cases RunExit.ofStep? m.step.result with
    | none => exact ih hstep.machine (origin_step horigin) _
    | some result => exact ⟨rfl, hstep.machine, rfl⟩

theorem runWithin {τ : Type} {origin : Address} (h : m.Rotated k n)
    (horigin : m.origin = some origin) (observe : τ → Journal → τ) (fuel : Nat)
    (limit : Option Nat) (trace : τ) :
    Option.Rel (Turn.Rotated k id)
      (m.runWithin (fun trace journal => observe trace (journal.rotate k)) fuel limit trace)
      (n.runWithin observe fuel limit trace) := by
  cases limit with
  | some limit => exact .some (h.run horigin observe limit trace)
  | none =>
    have hrun := h.run horigin observe fuel trace
    simp only [Machine.runWithin, runFreely_eq, hrun.result, mapError_eq_ok_iff]
    split
    · exact .none
    · exact .some hrun

end

end Machine.Rotated

namespace Machine

theorem existsUnique_rotated (k : Address) (m : Machine Ram ι ο) : ∃! n, m.Rotated k n := by
  obtain ⟨memory, hmemory⟩ := m.memory.exists_rotated k
  refine ⟨{ m with registers := m.registers.rotate k, memory }, ⟨hmemory, rfl⟩, ?_⟩
  rintro n ⟨hother, hothers⟩
  rw [hothers, hother.unique hmemory]

variable [Input ι] [Output ο]

/-- Rotation commutes with steps and runs, under any limit and under none, whoever
observes them. -/
theorem rotation_commutes {m : Machine Ram ι ο} {origin : Address} (k : Address)
    (hbooted : m.origin = some origin) :
    (∃! n, m.Rotated k n) ∧
    ∀ n, m.Rotated k n →
      m.step.Rotated k (Journal.rotate k) n.step ∧
      ∀ {τ : Type} (observe : τ → Journal → τ) (trace : τ),
        (∀ limit, (m.run (fun trace journal => observe trace (journal.rotate k)) limit trace).Rotated k
          id (n.run observe limit trace)) ∧
        ∀ fuel limit, Option.Rel (Turn.Rotated k id)
          (m.runWithin (fun trace journal => observe trace (journal.rotate k)) fuel limit trace)
          (n.runWithin observe fuel limit trace) := by
  refine ⟨m.existsUnique_rotated k, fun n h => ⟨h.step hbooted, fun observe trace => ?_⟩⟩
  exact ⟨fun limit => h.run hbooted observe limit trace,
    fun fuel limit => h.runWithin hbooted observe fuel limit trace⟩

def straddlingImage : Image where
  text := [0x5b, 0x2b, 0x5d]
  data := []
  checked := rfl
  fits := by decide

def straddlingMachine : Machine Ram NoInput BufferOutput :=
  (start straddlingImage.ram .closed {}).boot.machine

/-- The loop opens two cells below the top of the ring, and ends on its first cell. -/
theorem rotation_commutes_straddling :
    straddlingMachine.origin = some 3 ∧ ∃ n, straddlingMachine.Rotated 8190 n ∧
      n.step.result = .ok (.executed .loopOpen) ∧ n.step.machine.registers.pc = 1 ∧
      n.step.trace.events = [.instruction 8190 0x5b, .jump 8190 1] := by
  have hbooted : straddlingMachine.origin = some 3 := by decide +kernel
  have hresult : straddlingMachine.step.result = .ok (.executed .loopOpen) := by decide +kernel
  have hpc : straddlingMachine.step.machine.registers.pc = 3 := by decide +kernel
  have hevents : straddlingMachine.step.trace.events = [.instruction 0 0x5b, .jump 0 3] := by
    decide +kernel
  obtain ⟨⟨n, hn, -⟩, hcommutes⟩ := rotation_commutes 8190 hbooted
  have hstep := (hcommutes n hn).1
  refine ⟨hbooted, n, hn, ?_, ?_, ?_⟩
  · rw [hstep.result, hresult]
    rfl
  · rw [hstep.machine.others]
    show straddlingMachine.step.machine.registers.pc + 8190 = 1
    rw [hpc]
    decide
  · rw [hstep.trace, Journal.rotate, hevents]
    decide

end Machine

end RingMachine

import RingMachine.Proofs.StepLimits

/-!
# Machines in lockstep

A machine knows its devices by their answers. Two devices of which one simulates the
other give the same answers to all that a machine asks, in the order in which it asks,
so two machines that differ in such devices only do the same, step by step and run by
run, and report the same.
-/

namespace RingMachine

variable {μ ι κ ο ρ : Type}

-- ---------------------------------------------------------------------------
-- Devices
-- ---------------------------------------------------------------------------

/-- Related inputs answer alike. A byte is taken only where there is one. -/
structure InputSimulation [Input ι] [Input κ] (related : ι → κ → Prop) : Prop where
  asked : ∀ {a b}, related a b →
    (Input.hasByte a).1 = (Input.hasByte b).1 ∧ related (Input.hasByte a).2 (Input.hasByte b).2
  taken : ∀ {a b}, related a b → (Input.hasByte a).1 = true →
    (Input.takeByte (Input.hasByte a).2).1 = (Input.takeByte (Input.hasByte b).2).1 ∧
      related (Input.takeByte (Input.hasByte a).2).2 (Input.takeByte (Input.hasByte b).2).2

/-- Related outputs answer alike. A byte is written only to an output that is ready. -/
structure OutputSimulation [Output ο] [Output ρ] (related : ο → ρ → Prop) : Prop where
  asked : ∀ {a b}, related a b →
    (Output.isReady a).1 = (Output.isReady b).1 ∧ related (Output.isReady a).2 (Output.isReady b).2
  written : ∀ {a b}, related a b → (Output.isReady a).1 = true → ∀ byte,
    related (Output.write (Output.isReady a).2 byte) (Output.write (Output.isReady b).2 byte)
  flushed : ∀ {a b}, related a b → related (Output.flush a) (Output.flush b)

inductive Command
  | boot
  | step
  | run (limit : Nat)
  deriving DecidableEq, Repr

def Command.request : Command → Request ι ο
  | boot => .boot
  | step => .step
  | run limit => .run limit

/-- What shows of a turn if of the devices only the bytes of the output show. -/
def Turn.shown {α τ : Type} (bytes : ο → List UInt8) (turn : Turn α τ μ ι ο) :
    Turn α τ μ Unit (List UInt8) :=
  ⟨turn.result, ⟨turn.machine.registers, turn.machine.memory, (), bytes turn.machine.output,
    turn.machine.origin, turn.machine.steps⟩, turn.trace⟩

namespace Machine

structure Lockstep (inputs : ι → κ → Prop) (outputs : ο → ρ → Prop)
    (m : Machine μ ι ο) (n : Machine μ κ ρ) : Prop where
  core : m.core = n.core
  input : inputs m.input n.input
  output : outputs m.output n.output

structure Agree {α τ : Type} (inputs : ι → κ → Prop) (outputs : ο → ρ → Prop)
    (one : Turn α τ μ ι ο) (two : Turn α τ μ κ ρ) : Prop where
  result : one.result = two.result
  machine : Lockstep inputs outputs one.machine two.machine
  trace : one.trace = two.trace

section
variable {inputs : ι → κ → Prop} {outputs : ο → ρ → Prop}
variable {m : Machine μ ι ο} {n : Machine μ κ ρ}

theorem Lockstep.exists_eq (h : Lockstep inputs outputs m n) :
    ∃ registers memory origin steps input output input' output',
      m = ⟨registers, memory, input, output, origin, steps⟩ ∧
      n = ⟨registers, memory, input', output', origin, steps⟩ ∧
      inputs input input' ∧ outputs output output' := by
  obtain ⟨registers, memory, input, output, origin, steps⟩ := m
  obtain ⟨registers', memory', input', output', origin', steps'⟩ := n
  obtain ⟨hcore, hinput, houtput⟩ := h
  cases hcore
  exact ⟨registers, memory, origin, steps, input, output, input', output', rfl, rfl, hinput, houtput⟩

theorem Agree.map {α β τ : Type} {one : Turn α τ μ ι ο} {two : Turn α τ μ κ ρ}
    (h : Agree inputs outputs one two) (f : α → β) :
    Agree inputs outputs (one.map f) (two.map f) :=
  ⟨congrArg (Except.map f) h.result, h.machine, h.trace⟩

theorem Agree.shown {α τ : Type} {one : Turn α τ μ ι ο} {two : Turn α τ μ κ ρ}
    {bytes : ο → List UInt8} {others : ρ → List UInt8} (h : Agree inputs outputs one two)
    (hbytes : ∀ {a b}, outputs a b → bytes a = others b) : one.shown bytes = two.shown others := by
  obtain ⟨result, machine, trace⟩ := one
  obtain ⟨result', machine', trace'⟩ := two
  obtain ⟨hresult, hmachine, htrace⟩ := h
  obtain ⟨registers, memory, origin, steps, input, output, input', output', hone, htwo, -,
    houtput⟩ := hmachine.exists_eq
  cases hresult
  cases htrace
  cases hone
  cases htwo
  simp only [Turn.shown, hbytes houtput]

variable [Memory μ]

theorem Lockstep.boot (h : Lockstep inputs outputs m n) :
    Agree inputs outputs m.boot n.boot := by
  obtain ⟨registers, memory, origin, steps, input, output, input', output', rfl, rfl, hinput,
    houtput⟩ := h.exists_eq
  cases horigin : origin with
  | some found => exact ⟨rfl, ⟨rfl, hinput, houtput⟩, rfl⟩
  | none =>
    cases hfound : Memory.findSentinel memory with
    | none =>
      simp only [Machine.boot, hfound]
      exact ⟨rfl, ⟨rfl, hinput, houtput⟩, rfl⟩
    | some found =>
      simp only [Machine.boot, hfound]
      exact ⟨rfl, ⟨rfl, hinput, houtput⟩, rfl⟩

variable [Input ι] [Input κ] [Output ο] [Output ρ]

theorem Lockstep.outcome {turn : Turn Step Journal μ ι ο} (h : Lockstep inputs outputs m n)
    (hin : InputSimulation inputs) (hout : OutputSimulation outputs) (hturn : Outcome m turn) :
    ∃ other, Outcome n other ∧ Agree inputs outputs turn other := by
  obtain ⟨registers, memory, origin, steps, input, output, input', output', rfl, rfl, hinput,
    houtput⟩ := h.exists_eq
  cases hturn with
  | retires hfetch hhalt hnooutput hnoinput hstays heffect =>
    have heffect' := (effect_withDevices _ input' output' _).trans
      (congrArg (withDevices · input' output') heffect)
    exact ⟨_, .retires hfetch hhalt hnooutput hnoinput hstays heffect',
      ⟨rfl, ⟨rfl, hinput, houtput⟩, rfl⟩⟩
  | jumps hfetch hleaps hscan =>
    exact ⟨_, .jumps hfetch hleaps hscan, ⟨rfl, ⟨rfl, hinput, houtput⟩, rfl⟩⟩
  | fails hfetch hleaps hscan =>
    exact ⟨_, .fails hfetch hleaps hscan, ⟨rfl, ⟨rfl, hinput, houtput⟩, rfl⟩⟩
  | waitsForOutput hfetch hready =>
    obtain ⟨hsame, hasked⟩ := hout.asked houtput
    exact ⟨_, .waitsForOutput hfetch (hsame.symm.trans hready), ⟨rfl, ⟨rfl, hinput, hasked⟩, rfl⟩⟩
  | writes hfetch hready =>
    obtain ⟨hsame, -⟩ := hout.asked houtput
    exact ⟨_, .writes hfetch (hsame.symm.trans hready),
      ⟨rfl, ⟨rfl, hinput, hout.written houtput hready _⟩, rfl⟩⟩
  | waitsForInput hfetch hbyte =>
    obtain ⟨hsame, hasked⟩ := hin.asked hinput
    exact ⟨_, .waitsForInput hfetch (hsame.symm.trans hbyte),
      ⟨rfl, ⟨rfl, hasked, hout.flushed houtput⟩, rfl⟩⟩
  | takes hfetch hbyte htake =>
    obtain ⟨hsame, -⟩ := hin.asked hinput
    obtain ⟨htaken, hrest⟩ := hin.taken hinput hbyte
    rw [htake] at htaken hrest
    refine ⟨_, .takes hfetch (hsame.symm.trans hbyte) (Prod.ext htaken.symm rfl),
      ⟨rfl, ⟨rfl, hrest, hout.flushed houtput⟩, rfl⟩⟩
  | halts hfetch => exact ⟨_, .halts hfetch, ⟨rfl, ⟨rfl, hinput, houtput⟩, rfl⟩⟩

theorem Lockstep.execute (h : Lockstep inputs outputs m n) (hin : InputSimulation inputs)
    (hout : OutputSimulation outputs) : Agree inputs outputs m.execute n.execute := by
  obtain ⟨other, hother, hagree⟩ := h.outcome hin hout m.execute_outcome
  rw [hother.execute_eq]
  exact hagree

theorem Lockstep.step (h : Lockstep inputs outputs m n) (hin : InputSimulation inputs)
    (hout : OutputSimulation outputs) : Agree inputs outputs m.step n.step := by
  have hhalted : m.isHalted = n.isHalted := congrArg (fun s => s.isHalted) h.core
  cases hrunning : m.isHalted with
  | true =>
    rw [step_of_halted hrunning, step_of_halted (hhalted.symm.trans hrunning)]
    exact ⟨rfl, h, rfl⟩
  | false =>
    have hrunning' := hhalted.symm.trans hrunning
    have hboot := h.boot
    cases hresult : m.boot.result with
    | error fault =>
      rw [step_of_fault hresult hrunning,
        step_of_fault (hboot.result.symm.trans hresult) hrunning']
      exact ⟨rfl, hboot.machine, hboot.trace⟩
    | ok origin =>
      obtain ⟨hstep, hmachine, htrace⟩ := step_of_located hresult hrunning
      obtain ⟨hstep', hmachine', htrace'⟩ :=
        step_of_located (hboot.result.symm.trans hresult) hrunning'
      have hexecute := hboot.machine.execute hin hout
      refine ⟨?_, ?_, ?_⟩
      · rw [hstep, hstep']
        exact hexecute.result
      · rw [hmachine, hmachine']
        exact hexecute.machine
      · rw [htrace, htrace', hboot.trace, hexecute.trace]

-- ---------------------------------------------------------------------------
-- Runs and sessions
-- ---------------------------------------------------------------------------

theorem Lockstep.run {τ : Type} (h : Lockstep inputs outputs m n) (hin : InputSimulation inputs)
    (hout : OutputSimulation outputs) (observe : τ → Journal → τ) (limit : Nat) (trace : τ) :
    Agree inputs outputs (m.run observe limit trace) (n.run observe limit trace) := by
  induction limit generalizing m n trace with
  | zero => exact ⟨rfl, h, rfl⟩
  | succ limit ih =>
    have hstep := h.step hin hout
    rw [run_succ_eq, run_succ_eq, ← hstep.result, ← hstep.trace]
    cases RunExit.ofStep? m.step.result with
    | none => exact ih hstep.machine _
    | some result => exact ⟨rfl, hstep.machine, rfl⟩

theorem Lockstep.serve (h : Lockstep inputs outputs m n) (hin : InputSimulation inputs)
    (hout : OutputSimulation outputs) (command : Command) :
    Agree inputs outputs (m.serve command.request) (n.serve command.request) := by
  cases command with
  | boot => exact h.boot.map _
  | step => exact (h.step hin hout).map _
  | run limit => exact (h.run hin hout _ limit _).map _

theorem Lockstep.after (h : Lockstep inputs outputs m n) (hin : InputSimulation inputs)
    (hout : OutputSimulation outputs) (commands : List Command) :
    Lockstep inputs outputs (m.after (commands.map Command.request))
      (n.after (commands.map Command.request)) := by
  induction commands generalizing m n with
  | nil => exact h
  | cons command rest ih => exact ih (h.serve hin hout command).machine

section
variable {bytes : ο → List UInt8} {others : ρ → List UInt8}

theorem Lockstep.turns (h : Lockstep inputs outputs m n) (hin : InputSimulation inputs)
    (hout : OutputSimulation outputs) (hbytes : ∀ {a b}, outputs a b → bytes a = others b)
    (commands : List Command) :
    (m.turns (commands.map Command.request)).map (Turn.shown bytes) =
      (n.turns (commands.map Command.request)).map (Turn.shown others) := by
  induction commands generalizing m n with
  | nil => rfl
  | cons command rest ih =>
    have hserve := h.serve hin hout command
    simp only [List.map_cons, Machine.turns, hserve.shown hbytes, ih hserve.machine]

/-- Also a run without a limit ends on both machines or on neither. -/
theorem Lockstep.runWithin {τ : Type} (h : Lockstep inputs outputs m n)
    (hin : InputSimulation inputs) (hout : OutputSimulation outputs)
    (hbytes : ∀ {a b}, outputs a b → bytes a = others b) (observe : τ → Journal → τ) (fuel : Nat)
    (limit : Option Nat) (trace : τ) :
    (m.runWithin observe fuel limit trace).map (Turn.shown bytes) =
      (n.runWithin observe fuel limit trace).map (Turn.shown others) := by
  cases limit with
  | some limit => exact congrArg some ((h.run hin hout observe limit trace).shown hbytes)
  | none =>
    have hrun := h.run hin hout observe fuel trace
    simp only [Machine.runWithin, runFreely_eq, ← hrun.result]
    split
    · rfl
    · exact congrArg some (hrun.shown hbytes)

end

end

end Machine

end RingMachine

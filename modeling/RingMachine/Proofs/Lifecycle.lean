import RingMachine.Proofs.Layout
import RingMachine.Proofs.Session

/-!
# The life of a machine

A machine is fresh until it has located its program, runs until it executes a
halt instruction, and rests from then on. `Lifecycle` says what is true at every
point of that, by the memory on which the machine was started; a program may write
to any cell, the sentinel's included, and the origin stays what it was.
-/

namespace RingMachine

/-- Whether the host asks something of the machine itself, and not of the devices. -/
def Request.asks {ι ο : Type} : Request ι ο → Bool
  | adjust _ _ => false
  | _ => true

namespace Machine

variable {μ ι ο : Type} [Memory μ] {initial : μ} {m : Machine μ ι ο}

structure Lifecycle (initial : μ) (m : Machine μ ι ο) : Prop where
  depth : m.registers.depth = 0
  ready_iff : m.isReady = true ↔ ∃ origin, m.origin = some origin
  lowest : ∀ origin, m.origin = some origin →
    Memory.read initial origin = sentinel ∧ ∀ b < origin, Memory.read initial b ≠ sentinel
  fresh : m.isReady = false → m.registers = {} ∧ m.steps = 0 ∧ m.memory = initial
  halted : m.isHalted = true → m.isReady = true ∧ 1 ≤ m.steps ∧ m.fetch = sentinel

-- ---------------------------------------------------------------------------
-- What lasts
-- ---------------------------------------------------------------------------

theorem lifecycle_start (initial : μ) (input : ι) (output : ο) :
    Lifecycle initial (start initial input output) where
  depth := rfl
  ready_iff := by simp [isReady, start]
  lowest := by simp [start]
  fresh := fun _ => ⟨rfl, rfl, rfl⟩
  halted := by simp [isHalted, start]

theorem Lifecycle.not_ready (h : Lifecycle initial m) (horigin : m.origin = none) :
    m.isReady = false := by
  rw [Bool.eq_false_iff, ne_eq, h.ready_iff, horigin]
  simp

theorem Lifecycle.boot (h : Lifecycle initial m) : Lifecycle initial m.boot.machine := by
  rcases m.boot_cases with ⟨_, -, hboot⟩ | ⟨-, -, hboot⟩ | ⟨horigin, origin, hfound, hboot⟩
  · rw [hboot]
    exact h
  · rw [hboot]
    exact h
  · have hready := h.not_ready horigin
    obtain ⟨-, -, hmemory⟩ := h.fresh hready
    rw [hmemory, Memory.findSentinel_eq_some_iff] at hfound
    rw [hboot]
    constructor
    · rfl
    · simp [isReady, Registers.boot]
    · intro found hlocated
      cases hlocated
      exact hfound
    · simp [isReady, Registers.boot]
    · intro hhalted
      obtain ⟨hcontra, -⟩ := h.halted hhalted
      rw [hready] at hcontra
      cases hcontra

theorem isReady_boot (h : m.isReady = true) : m.boot.machine.isReady = true := by
  rcases m.boot_cases with ⟨_, -, hboot⟩ | ⟨-, -, hboot⟩ | ⟨-, _, -, hboot⟩
  · rwa [hboot]
  · rwa [hboot]
  · rw [hboot]
    rfl

theorem Lifecycle.adjust (h : Lifecycle initial m) (input : ι → ι) (output : ο → ο) :
    Lifecycle initial (m.adjust input output) :=
  ⟨h.depth, h.ready_iff, h.lowest, h.fresh, h.halted⟩

theorem Lifecycle.goesOn {next : Machine μ ι ο} {origin : Address} (h : Lifecycle initial m)
    (horigin : m.origin = some origin) (hrunning : m.isHalted = false)
    (hdepth : next.registers.depth = 0) (hstatus : next.registers.status = m.registers.status)
    (hkept : next.origin = m.origin) : Lifecycle initial next := by
  have hready : next.isReady = true := by
    rw [isReady, hstatus]
    exact h.ready_iff.mpr ⟨origin, horigin⟩
  constructor
  · exact hdepth
  · rw [hkept, hready, horigin]
    simp
  · rw [hkept]
    exact h.lowest
  · rw [hready]
    simp
  · rw [isHalted, hstatus]
    intro hhalted
    rw [isHalted, hhalted] at hrunning
    cases hrunning

variable [Input ι] [Output ο]

theorem Lifecycle.outcome {turn : Turn Step Journal μ ι ο} {origin : Address}
    (h : Lifecycle initial m) (horigin : m.origin = some origin) (hrunning : m.isHalted = false)
    (hturn : Outcome m turn) : Lifecycle initial turn.machine := by
  -- Only a halt sets a flag; a jump and a failure clear the depth of their scan.
  cases hturn with
  | halts hfetch =>
    have hready := h.ready_iff.mpr ⟨origin, horigin⟩
    constructor
    · exact h.depth
    · exact h.ready_iff
    · exact h.lowest
    · intro hfresh
      rw [show m.stop.isReady = m.isReady from rfl, hready] at hfresh
      cases hfresh
    · exact fun _ => ⟨hready, Nat.le_add_left 1 m.steps, (Opcode.decode_eq_halt _).mp hfetch⟩
  | jumps => exact h.goesOn horigin hrunning rfl rfl rfl
  | fails => exact h.goesOn horigin hrunning rfl rfl rfl
  | _ => exact h.goesOn horigin hrunning h.depth rfl rfl

theorem Lifecycle.step (h : Lifecycle initial m) : Lifecycle initial m.step.machine := by
  rcases m.step_cases with
    ⟨-, hstep⟩ | ⟨-, -, -, hstep⟩ | ⟨hrunning, origin, turn, hboot, hturn, hstep⟩
  · rw [hstep]
    exact h
  · rw [hstep]
    exact h
  · rw [hstep]
    show Lifecycle initial turn.machine
    exact h.boot.outcome (origin_boot hboot) (isHalted_boot.trans hrunning) hturn

theorem Lifecycle.after (h : Lifecycle initial m) (requests : List (Request ι ο)) :
    Lifecycle initial (m.after requests) :=
  after_induction requests h (fun _ h => h.boot) (fun _ input output h => h.adjust input output)
    fun _ h => h.step

-- ---------------------------------------------------------------------------
-- Flags
-- ---------------------------------------------------------------------------

theorem isReady_step (h : m.isReady = true) : m.step.machine.isReady = true := by
  rcases m.step_cases with ⟨-, hstep⟩ | ⟨-, -, -, hstep⟩ | ⟨-, -, turn, -, hturn, hstep⟩
  · rwa [hstep]
  · rwa [hstep]
  · rw [hstep]
    have hbooted := isReady_boot h
    cases hturn <;> exact hbooted

theorem isReady_after (h : m.isReady = true) (requests : List (Request ι ο)) :
    (m.after requests).isReady = true :=
  after_induction (P := fun s => s.isReady = true) requests h (fun _ => isReady_boot)
    (fun _ _ _ h => h) fun _ => isReady_step

theorem serve_of_halted {origin : Address} (hhalted : m.isHalted = true)
    (horigin : m.origin = some origin) {request : Request ι ο} (hasks : request.asks = true) :
    (m.serve request).machine = m ∧ (m.serve request).trace = {} := by
  cases request with
  | boot => simp [serve, Turn.map, boot_of_origin horigin]
  | step => simp [serve, Turn.map, step_of_halted hhalted]
  | run limit => cases limit <;> simp [serve, Turn.map, run, step_of_halted hhalted]
  | adjust => cases hasks

theorem session_of_halted {origin : Address} (hhalted : m.isHalted = true)
    (horigin : m.origin = some origin) (requests : List (Request ι ο)) :
    (m.after requests).core = m.core ∧ m.journal requests = {} := by
  have hlasting : Lasting fun (s : Machine μ ι ο) journal _ => s.core = m.core ∧ journal = {} := by
    constructor
    · rintro s journal earlier ⟨hcore, rfl⟩
      rw [boot_of_origin ((origin_of_core hcore).trans horigin)]
      exact ⟨hcore, rfl⟩
    · exact fun _ _ h => h
    · rintro s journal earlier ⟨hcore, rfl⟩
      rw [step_of_halted ((isHalted_of_core hcore).trans hhalted)]
      exact ⟨hcore, rfl⟩
  exact history_induction hlasting requests ⟨rfl, rfl⟩

-- ---------------------------------------------------------------------------
-- Reachable machines
-- ---------------------------------------------------------------------------

def Reached (initial : μ) (m : Machine μ ι ο) : Prop :=
  ∃ input output requests, (start initial input output).after requests = m

theorem Reached.lifecycle (h : Reached initial m) : Lifecycle initial m := by
  obtain ⟨input, output, requests, rfl⟩ := h
  exact (lifecycle_start initial input output).after requests

theorem Reached.serve (h : Reached initial m) (request : Request ι ο) :
    Reached initial (m.serve request).machine := by
  obtain ⟨input, output, requests, rfl⟩ := h
  exact ⟨input, output, requests ++ [request], after_append _ requests [request]⟩

theorem Reached.runWithin {fuel : Nat} {limit : Option Nat} {turn : Turn RunExit Journal μ ι ο}
    (h : Reached initial m) (hrun : m.runWithin (· ++ ·) fuel limit {} = some turn) :
    Reached initial turn.machine := by
  obtain ⟨n, hserve⟩ := serve_of_runWithin hrun
  have hserved := h.serve (.run n)
  rw [hserve] at hserved
  exact hserved

/-- Wherever a session stands, the machine is at one point of its life, and it does
not go back: the flags stay set, and a halted machine is not changed by anything it
is asked to do, calls no device and reports nothing. A run without a limit does not
leave what sessions reach. -/
theorem lifecycle_of_reached (h : Reached initial m) :
    Lifecycle initial m ∧
    (∀ fuel limit turn, m.runWithin (· ++ ·) fuel limit {} = some turn →
      Reached initial turn.machine) ∧
    ∀ later : List (Request ι ο),
      (m.isReady = true → (m.after later).isReady = true) ∧
      (m.isHalted = true →
        (m.after later).isHalted = true ∧ (m.after later).core = m.core ∧ m.journal later = {} ∧
        ∀ request : Request ι ο, request.asks = true →
          ((m.after later).serve request).machine = m.after later ∧
          ((m.after later).serve request).trace = {}) := by
  have hlife := h.lifecycle
  refine ⟨hlife, fun _ _ _ hrun => h.runWithin hrun, fun later => ?_⟩
  refine ⟨fun hready => isReady_after hready later, fun hhalted => ?_⟩
  obtain ⟨hready, -⟩ := hlife.halted hhalted
  obtain ⟨origin, horigin⟩ := hlife.ready_iff.mp hready
  obtain ⟨hcore, hjournal⟩ := session_of_halted hhalted horigin later
  have hrests := (isHalted_of_core hcore).trans hhalted
  have hlocated := (origin_of_core hcore).trans horigin
  exact ⟨hrests, hcore, hjournal, fun request hasks => serve_of_halted hrests hlocated hasks⟩

/-- A program that writes over its sentinel and halts on a byte of its data. -/
def erasingImage : Image where
  text := [0x3c, 0x2d]
  data := [0x40]
  checked := rfl
  fits := by decide

def erasedMachine : Machine Ram NoInput BufferOutput :=
  (start erasingImage.ram .closed {}).after [.boot, .run 2, .adjust id (·.setBusy true), .run 9]

theorem lifecycle_of_reached_erased :
    Reached erasingImage.ram erasedMachine ∧ erasedMachine.isHalted = true ∧
      erasedMachine.origin = some 2 ∧ erasedMachine.memory.get 2 ≠ sentinel ∧
      erasingImage.ram.get 2 = sentinel ∧
      (erasedMachine.after [.step, .boot, .run 5]).core = erasedMachine.core := by
  have hreached : Reached erasingImage.ram erasedMachine := ⟨_, _, _, rfl⟩
  have hhalted : erasedMachine.isHalted = true := by decide +kernel
  have horigin : erasedMachine.origin = some 2 := by decide +kernel
  obtain ⟨hlife, -, hlater⟩ := lifecycle_of_reached hreached
  obtain ⟨-, hrests⟩ := hlater [.step, .boot, .run 5]
  obtain ⟨-, hcore, -⟩ := hrests hhalted
  exact ⟨hreached, hhalted, horigin, by decide +kernel, (hlife.lowest 2 horigin).1, hcore⟩

end Machine

end RingMachine

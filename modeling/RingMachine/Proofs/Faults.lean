import RingMachine.Proofs.DeviceCalls

/-!
# Steps that execute nothing

A step that waits for a port or does not find what it scans for leaves the machine
where it stood once it had booted, however far the scan had gone. A fault is also
final: the machine is `Stuck`, and whatever the host does, every step meets the same
fault again and changes nothing.
-/

namespace RingMachine

theorem scanFrom_eq_none {μ : Type} [Memory μ] {memory : μ} {direction : Direction} {count : Nat}
    {pos : Address} {depth : UInt8}
    (h : ∀ a, Opcode.decode (Memory.read memory a) ≠ direction.partner) :
    scanFrom memory direction count pos depth = none := by
  induction count generalizing pos depth with
  | zero => rfl
  | succ count ih =>
    rw [scanFrom, if_neg (h _)]
    split
    · exact ih
    · exact ih

namespace Machine

variable {μ ι ο : Type} [Memory μ] {initial : μ} {m : Machine μ ι ο} {fault : Fault}

/-- The machine stands where a step can only fail: it misses the sentinel, or it
stands at a bracket without the partner it has to jump to. -/
inductive Stuck (m : Machine μ ι ο) : Fault → Prop
  | unlocated (hrunning : m.isHalted = false) (horigin : m.origin = none)
      (hmissing : Memory.findSentinel m.memory = none) : Stuck m .missingSentinel
  | unmatched {origin : Address} {direction : Direction} (hrunning : m.isHalted = false)
      (horigin : m.origin = some origin) (hdepth : m.registers.depth = 0)
      (hfetch : Opcode.decode m.fetch = direction.nest) (hleaps : direction.Leaps m.cell)
      (hscan : scan m.memory direction m.registers.pc = none) :
      Stuck m (.unmatchedBracket m.registers.pc)

theorem Stuck.boot (h : Stuck m fault) : m.boot.machine = m := by
  cases h with
  | unlocated _ horigin hmissing => simp [Machine.boot, horigin, hmissing]
  | unmatched _ horigin => rw [boot_of_origin horigin]

theorem Stuck.adjust (h : Stuck m fault) (input : ι → ι) (output : ο → ο) :
    Stuck (m.adjust input output) fault := by
  cases h with
  | unlocated hrunning horigin hmissing => exact .unlocated hrunning horigin hmissing
  | unmatched hrunning horigin hdepth hfetch hleaps hscan =>
    exact .unmatched hrunning horigin hdepth hfetch hleaps hscan

omit [Memory μ] in
theorem setDepth_of_depth (h : m.registers.depth = 0) : m.setDepth 0 = m := by
  rw [← h]
  rfl

theorem bracket_of_leaps {direction : Direction} (hfetch : Opcode.decode m.fetch = direction.nest)
    (hleaps : direction.Leaps m.cell) :
    m.fetch = 0x5b ∧ m.cell = 0 ∨ m.fetch = 0x5d ∧ m.cell ≠ 0 := by
  cases direction with
  | forward => exact .inl ⟨(Opcode.decode_eq_loopOpen _).mp hfetch, hleaps⟩
  | backward => exact .inr ⟨(Opcode.decode_eq_loopClose _).mp hfetch, hleaps⟩

theorem Lifecycle.stuck_of_boot (h : Lifecycle initial m) (hfault : m.boot.result = .error fault) :
    m.boot.machine = m ∧ Stuck m fault := by
  rcases m.boot_cases with ⟨_, -, hboot⟩ | ⟨horigin, hmissing, hboot⟩ | ⟨-, _, -, hboot⟩
  · rw [hboot] at hfault
    cases hfault
  · have hrunning : m.isHalted = false := by
      obtain ⟨hregisters, -, -⟩ := h.fresh (h.not_ready horigin)
      simp [isHalted, hregisters]
    rw [hboot] at hfault ⊢
    cases hfault
    exact ⟨rfl, .unlocated hrunning horigin hmissing⟩
  · rw [hboot] at hfault
    cases hfault

-- ---------------------------------------------------------------------------
-- Steps of a stuck machine
-- ---------------------------------------------------------------------------

variable [Input ι] [Output ο]

theorem Stuck.step (h : Stuck m fault) : ∃ events, m.step = ⟨.error fault, m, { events }⟩ := by
  cases h with
  | unlocated hrunning horigin hmissing =>
    exact ⟨[], by simp [Machine.step, hrunning, Machine.boot, horigin, hmissing]⟩
  | unmatched hrunning horigin hdepth hfetch hleaps hscan =>
    refine ⟨[m.fetched], ?_⟩
    rw [step_of_origin horigin hrunning, (Outcome.fails hfetch hleaps hscan).execute_eq]
    simp only [setDepth_of_depth hdepth]

theorem Stuck.after (h : Stuck m fault) (requests : List (Request ι ο)) :
    Stuck (m.after requests) fault ∧ (m.after requests).core = m.core := by
  refine after_induction (P := fun s => Stuck s fault ∧ s.core = m.core) requests ⟨h, rfl⟩ ?_ ?_ ?_
  · rintro s ⟨hstuck, hcore⟩
    rw [hstuck.boot]
    exact ⟨hstuck, hcore⟩
  · rintro s input output ⟨hstuck, hcore⟩
    exact ⟨hstuck.adjust input output, hcore⟩
  · rintro s ⟨hstuck, hcore⟩
    obtain ⟨events, hstep⟩ := hstuck.step
    rw [hstep]
    exact ⟨hstuck, hcore⟩

theorem Stuck.runWithin {τ : Type} {observe : τ → Journal → τ} {trace : τ} {fuel : Nat}
    {limit : Option Nat} (h : Stuck m fault) (hfuel : fuel ≠ 0) (hlimit : limit ≠ some 0) :
    ∃ turn, m.runWithin observe fuel limit trace = some turn ∧ turn.result = .error fault ∧
      turn.machine = m := by
  obtain ⟨events, hstep⟩ := h.step
  have hrun (n : Nat) (hn : n ≠ 0) :
      m.run observe n trace = ⟨.error fault, m, observe trace { events }⟩ := by
    cases n with
    | zero => exact absurd rfl hn
    | succ n => rw [run, hstep]
  refine ⟨⟨.error fault, m, observe trace { events }⟩, ?_, rfl, rfl⟩
  cases limit with
  | none => simp only [Machine.runWithin, runFreely, hrun fuel hfuel]
  | some n => exact congrArg some (hrun n fun hn => hlimit (congrArg some hn))

-- ---------------------------------------------------------------------------
-- Faults get a machine stuck
-- ---------------------------------------------------------------------------

theorem step_of_missingSentinel (hfault : m.step.result = .error .missingSentinel) :
    m.step = ⟨.error .missingSentinel, m, {}⟩ := by
  rcases m.step_cases with ⟨-, hstep⟩ | ⟨-, -, -, hstep⟩ | ⟨-, _, turn, -, hturn, hstep⟩
  · rw [hstep] at hfault
    cases hfault
  · exact hstep
  · rw [hstep] at hfault
    cases hturn <;> cases hfault

/-- A step that fails leaves the machine where it has booted, and stuck. -/
theorem Lifecycle.stuck_of_step (h : Lifecycle initial m) (hfault : m.step.result = .error fault) :
    m.step.machine = m.boot.machine ∧ m.step.trace.calls = [] ∧ Stuck m.boot.machine fault := by
  rcases m.step_cases with
    ⟨-, hstep⟩ | ⟨hrunning, horigin, hmissing, hstep⟩ | ⟨hrunning, _, turn, hboot, hturn, hstep⟩
  · rw [hstep] at hfault
    cases hfault
  · have hstuck : Stuck m .missingSentinel := .unlocated hrunning horigin hmissing
    rw [hstep] at hfault ⊢
    cases hfault
    rw [hstuck.boot]
    exact ⟨rfl, rfl, hstuck⟩
  · have hdepth := h.boot.depth
    have hcalls := m.calls_boot
    rw [hstep] at hfault ⊢
    cases hturn with
    | fails hfetch hleaps hscan =>
      cases hfault
      rw [Journal.calls_append, hcalls]
      refine ⟨setDepth_of_depth hdepth, rfl, ?_⟩
      exact .unmatched (isHalted_boot.trans hrunning) (origin_boot hboot) hdepth hfetch hleaps hscan
    | _ => cases hfault

theorem Lifecycle.stuck_of_run {τ : Type} {observe : τ → Journal → τ} {limit : Nat} {trace : τ}
    (h : Lifecycle initial m) (hfault : (m.run observe limit trace).result = .error fault) :
    Stuck (m.run observe limit trace).machine fault := by
  induction limit generalizing m trace with
  | zero => cases hfault
  | succ limit ih =>
    rcases m.run_succ observe limit trace with ⟨op, -, hrun, -⟩ | ⟨result, hrun, hfails, -, -⟩
    · rw [hrun] at hfault ⊢
      exact ih h.step hfault
    · rw [hrun] at hfault ⊢
      obtain ⟨hmachine, -, hstuck⟩ := h.stuck_of_step (hfails fault hfault)
      show Stuck m.step.machine fault
      rw [hmachine]
      exact hstuck

theorem Lifecycle.stuck_of_serve {request : Request ι ο} (h : Lifecycle initial m)
    (hfault : (m.serve request).result = .error fault) :
    Stuck (m.serve request).machine fault := by
  cases request with
  | boot =>
    obtain ⟨hmachine, hstuck⟩ := h.stuck_of_boot (Turn.fault_of_map hfault)
    rw [serve, Turn.map, hmachine]
    exact hstuck
  | step =>
    obtain ⟨hmachine, -, hstuck⟩ := h.stuck_of_step (Turn.fault_of_map hfault)
    rw [serve, Turn.map, hmachine]
    exact hstuck
  | run limit => exact h.stuck_of_run (Turn.fault_of_map hfault)
  | adjust input output => cases hfault

-- ---------------------------------------------------------------------------
-- Waits
-- ---------------------------------------------------------------------------

/-- A step that waits for a port leaves all but the devices where they were once the
machine had booted, and has neither written nor taken a byte. -/
theorem core_of_blocked {port : Port} (h : m.step.result = .ok (.blocked port)) :
    m.step.machine.core = m.boot.machine.core ∧ m.step.trace.written = [] ∧
      m.step.trace.taken = [] := by
  have hcalls := m.calls_boot
  rcases m.step_cases with ⟨-, hstep⟩ | ⟨-, -, -, hstep⟩ | ⟨-, _, turn, -, hturn, hstep⟩
  · rw [hstep] at h
    cases h
  · rw [hstep] at h
    cases h
  · rw [hstep] at h ⊢
    cases hturn with
    | waitsForInput | waitsForOutput =>
      simp [Journal.written, Journal.taken, hcalls, Call.written, Call.taken, core]
    | _ => cases h

/-- A step that misses the sentinel changes nothing at all; one that misses the
partner of a bracket, or waits for a port, leaves the machine where it has booted, and
no byte is written or taken. After a fault every step, and every run that is allowed
a step, meets the same fault again, and nothing but the devices ever changes. -/
theorem atomic_of_reached (h : Reached initial m) :
    (m.step.result = .error .missingSentinel →
      m.step.machine = m ∧ m.step.trace.calls = []) ∧
    (∀ bracket, m.step.result = .error (.unmatchedBracket bracket) →
      m.step.machine = m.boot.machine ∧ m.step.trace.calls = [] ∧
      bracket = m.step.machine.registers.pc ∧
      (Memory.read m.step.machine.memory bracket = 0x5b ∧ m.step.machine.cell = 0 ∨
        Memory.read m.step.machine.memory bracket = 0x5d ∧ m.step.machine.cell ≠ 0)) ∧
    (∀ port, m.step.result = .ok (.blocked port) →
      m.step.machine.core = m.boot.machine.core ∧ m.step.trace.written = [] ∧
      m.step.trace.taken = [] ∧
      Call.Made m.step.trace.calls m.devices m.step.machine.devices) ∧
    ∀ (request : Request ι ο) fault, (m.serve request).result = .error fault →
      ∀ later : List (Request ι ο),
        ((m.serve request).machine.after later).core = (m.serve request).machine.core ∧
        ((m.serve request).machine.after later).step.result = .error fault ∧
        ∀ fuel limit, fuel ≠ 0 → limit ≠ some 0 →
          ∃ turn, ((m.serve request).machine.after later).runWithin (· ++ ·) fuel limit {} =
            some turn ∧ turn.result = .error fault := by
  have hlife := h.lifecycle
  refine ⟨fun hfault => ?_, fun bracket hfault => ?_, fun port hblocked => ?_, ?_⟩
  · rw [step_of_missingSentinel hfault]
    exact ⟨rfl, rfl⟩
  · obtain ⟨hmachine, hcalls, hstuck⟩ := hlife.stuck_of_step hfault
    rw [hmachine]
    cases hstuck with
    | unmatched _ _ _ hfetch hleaps _ =>
      exact ⟨rfl, hcalls, rfl, bracket_of_leaps hfetch hleaps⟩
  · obtain ⟨hcore, hwritten, htaken⟩ := core_of_blocked hblocked
    exact ⟨hcore, hwritten, htaken, m.step_made⟩
  · intro request fault hfault later
    obtain ⟨hstuck, hcore⟩ := (hlife.stuck_of_serve hfault).after later
    obtain ⟨events, hstep⟩ := hstuck.step
    refine ⟨hcore, by rw [hstep], fun fuel limit hfuel hlimit => ?_⟩
    obtain ⟨turn, hturn, hresult, -⟩ := hstuck.runWithin hfuel hlimit
    exact ⟨turn, hturn, hresult⟩

/-- An opening bracket, the sentinel, and no closing bracket anywhere. -/
def strandedRam : Ram :=
  (Ram.zero.set 0 0x5b).set 1 sentinel

def strandedMachine : Machine Ram NoInput BufferOutput :=
  (start strandedRam .closed {}).after [.boot]

theorem stuck_stranded : Stuck strandedMachine (.unmatchedBracket 0) := by
  have hmemory : strandedMachine.memory = strandedRam := by
    simp only [strandedMachine, after, serve, Turn.map, memory_boot, start]
  have hpc : strandedMachine.registers.pc = 0 := by decide +kernel
  have hnowhere (a : Address) : Opcode.decode (strandedRam.get a) ≠ .loopClose := by
    rw [ne_eq, Opcode.decode_eq_loopClose, strandedRam, Ram.get_set, Ram.get_set, Ram.get_zero]
    split
    · decide
    · split <;> decide
  have hcell : strandedMachine.cell = 0 := by decide +kernel
  have hscan : scan strandedMachine.memory .forward strandedMachine.registers.pc = none := by
    rw [hmemory]
    exact scanFrom_eq_none hnowhere
  have horigin : strandedMachine.origin = some 1 := by decide +kernel
  have hfetch : Opcode.decode strandedMachine.fetch = Direction.forward.nest := by decide +kernel
  rw [← hpc]
  exact .unmatched (by decide +kernel) horigin (by decide +kernel) hfetch hcell hscan

theorem atomic_of_reached_stranded :
    Reached strandedRam strandedMachine ∧
      strandedMachine.step.result = .error (.unmatchedBracket 0) ∧
      strandedMachine.step.machine = strandedMachine.boot.machine ∧
      ((strandedMachine.serve .step).machine.after
        [.adjust id (·.setBusy true), .boot, .run 5]).step.result =
          .error (.unmatchedBracket 0) := by
  have hreached : Reached strandedRam strandedMachine := ⟨_, _, _, rfl⟩
  obtain ⟨events, hstep⟩ := stuck_stranded.step
  have hresult : strandedMachine.step.result = .error (.unmatchedBracket 0) := by rw [hstep]
  obtain ⟨-, hunmatched, -, hfinal⟩ := atomic_of_reached hreached
  obtain ⟨hmachine, -⟩ := hunmatched 0 hresult
  have hserved : (strandedMachine.serve .step).result = .error (.unmatchedBracket 0) := by
    rw [serve, Turn.map, hresult]
    rfl
  obtain ⟨-, hagain, -⟩ :=
    hfinal .step _ hserved [.adjust id (·.setBusy true), .boot, .run 5]
  exact ⟨hreached, hresult, hmachine, hagain⟩

end Machine

end RingMachine

import RingMachine.Program
import RingMachine.Proofs.Session

/-!
# Step limits

A limit only cuts a run short. A run that is stopped at its limit has executed as
many instructions as it was allowed, and goes on as if it had not been stopped; one
that ends before its limit ends so under every higher limit, and without one. `Ends`
is the run without a limit: it counts nothing, and is left only when a step executes
no instruction.
-/

namespace RingMachine

/-- How a run ends at a step, by the step's result; it goes on behind an instruction. -/
def RunExit.ofStep? : Except Fault Step → Option (Except Fault RunExit)
  | .error fault => some (.error fault)
  | .ok (.executed _) => none
  | .ok (.blocked port) => some (.ok (.blocked port))
  | .ok .halted => some (.ok .halted)

theorem RunExit.ofStep?_eq_none_iff {result : Except Fault Step} :
    ofStep? result = none ↔ ∃ op, result = .ok (.executed op) := by
  rcases result with fault | op | port | _ <;> simp [ofStep?]

theorem RunExit.ofStep?_ne_stepLimit {result : Except Fault Step} :
    ofStep? result ≠ some (.ok .stepLimit) := by
  rcases result with fault | op | port | _ <;> simp [ofStep?]

namespace Machine

variable {μ ι ο τ : Type} [Memory μ]

-- ---------------------------------------------------------------------------
-- Instructions counted
-- ---------------------------------------------------------------------------

theorem steps_boot (m : Machine μ ι ο) : m.boot.machine.steps = m.steps := by
  rcases m.boot_cases with ⟨_, -, hboot⟩ | ⟨-, -, hboot⟩ | ⟨-, _, -, hboot⟩ <;> rw [hboot]

variable [Input ι] [Output ο] {m : Machine μ ι ο}

theorem Outcome.steps {turn : Turn Step Journal μ ι ο} (h : Outcome m turn) :
    turn.machine.steps = m.steps + 1 ∨
      turn.machine.steps = m.steps ∧ ∀ op, turn.result ≠ .ok (.executed op) := by
  cases h with
  | retires | jumps | writes | takes | halts => exact .inl rfl
  | fails | waitsForOutput | waitsForInput => exact .inr ⟨rfl, by simp⟩

theorem step_steps (m : Machine μ ι ο) :
    m.step.machine.steps = m.steps + 1 ∨
      m.step.machine.steps = m.steps ∧ ∀ op, m.step.result ≠ .ok (.executed op) := by
  rcases m.step_cases with ⟨-, hstep⟩ | ⟨-, -, -, hstep⟩ | ⟨-, _, turn, -, hturn, hstep⟩
  · rw [hstep]
    exact .inr ⟨rfl, by simp⟩
  · rw [hstep]
    exact .inr ⟨rfl, by simp⟩
  · rw [hstep, ← m.steps_boot]
    exact hturn.steps

theorem steps_of_executed {op : Opcode} (hop : m.step.result = .ok (.executed op)) :
    m.step.machine.steps = m.steps + 1 := by
  rcases m.step_steps with hsteps | ⟨-, hother⟩
  · exact hsteps
  · exact absurd hop (hother op)

-- ---------------------------------------------------------------------------
-- One step of a run
-- ---------------------------------------------------------------------------

theorem run_succ_eq (observe : τ → Journal → τ) (limit : Nat) (trace : τ) (m : Machine μ ι ο) :
    m.run observe (limit + 1) trace =
      match RunExit.ofStep? m.step.result with
      | none => m.step.machine.run observe limit (observe trace m.step.trace)
      | some result => ⟨result, m.step.machine, observe trace m.step.trace⟩ := by
  rw [run]
  rcases m.step with ⟨fault | op | port | _, next, journal⟩ <;> rfl

theorem steps_run (observe : τ → Journal → τ) (limit : Nat) (trace : τ) (m : Machine μ ι ο) :
    m.steps ≤ (m.run observe limit trace).machine.steps ∧
      (m.run observe limit trace).machine.steps ≤ m.steps + limit ∧
      ((m.run observe limit trace).result = .ok .stepLimit →
        (m.run observe limit trace).machine.steps = m.steps + limit) := by
  induction limit generalizing m trace with
  | zero => exact ⟨Nat.le_refl _, Nat.le_refl _, fun _ => rfl⟩
  | succ limit ih =>
    cases hexit : RunExit.ofStep? m.step.result with
    | none =>
      obtain ⟨op, hop⟩ := RunExit.ofStep?_eq_none_iff.mp hexit
      have hsteps := steps_of_executed hop
      obtain ⟨hlow, hhigh, hlimit⟩ := ih (observe trace m.step.trace) m.step.machine
      simp only [run_succ_eq, hexit]
      refine ⟨by omega, by omega, fun hresult => ?_⟩
      rw [hlimit hresult, hsteps]
      omega
    | some result =>
      have hsteps : m.step.machine.steps = m.steps + 1 ∨ m.step.machine.steps = m.steps :=
        m.step_steps.imp_right And.left
      simp only [run_succ_eq, hexit]
      refine ⟨by omega, by omega, ?_⟩
      rintro rfl
      exact absurd hexit RunExit.ofStep?_ne_stepLimit

-- ---------------------------------------------------------------------------
-- One limit behind another
-- ---------------------------------------------------------------------------

theorem run_add_of_stepLimit {observe : τ → Journal → τ} {a : Nat} {trace : τ}
    (h : (m.run observe a trace).result = .ok .stepLimit) (b : Nat) :
    m.run observe (a + b) trace =
      (m.run observe a trace).machine.run observe b (m.run observe a trace).trace := by
  induction a generalizing m trace with
  | zero => rw [Nat.zero_add, run_zero]
  | succ a ih =>
    rw [Nat.add_right_comm, run_succ_eq, run_succ_eq]
    rw [run_succ_eq] at h
    cases hexit : RunExit.ofStep? m.step.result with
    | none =>
      rw [hexit] at h
      exact ih h
    | some result =>
      rw [hexit] at h
      rw [show result = .ok .stepLimit from h] at hexit
      exact absurd hexit RunExit.ofStep?_ne_stepLimit

theorem run_add_of_ended {observe : τ → Journal → τ} {a : Nat} {trace : τ}
    (h : (m.run observe a trace).result ≠ .ok .stepLimit) (b : Nat) :
    m.run observe (a + b) trace = m.run observe a trace := by
  induction a generalizing m trace with
  | zero => exact absurd rfl h
  | succ a ih =>
    rw [Nat.add_right_comm, run_succ_eq, run_succ_eq]
    rw [run_succ_eq] at h
    cases hexit : RunExit.ofStep? m.step.result with
    | none =>
      rw [hexit] at h
      exact ih h
    | some result => rfl

theorem run_eq_of_ended {observe : τ → Journal → τ} {a b : Nat} {trace : τ}
    (ha : (m.run observe a trace).result ≠ .ok .stepLimit)
    (hb : (m.run observe b trace).result ≠ .ok .stepLimit) :
    m.run observe a trace = m.run observe b trace := by
  rcases Nat.le_total a b with hle | hle
  · obtain ⟨more, rfl⟩ := Nat.exists_eq_add_of_le hle
    exact (run_add_of_ended ha more).symm
  · obtain ⟨more, rfl⟩ := Nat.exists_eq_add_of_le hle
    exact run_add_of_ended hb more

/-- What a run does is no matter of who observes it. -/
theorem run_observers {σ : Type} (observe : τ → Journal → τ) (other : σ → Journal → σ)
    (limit : Nat) (trace : τ) (begun : σ) (m : Machine μ ι ο) :
    (m.run observe limit trace).result = (m.run other limit begun).result ∧
      (m.run observe limit trace).machine = (m.run other limit begun).machine := by
  induction limit generalizing m trace begun with
  | zero => exact ⟨rfl, rfl⟩
  | succ limit ih =>
    rw [run_succ_eq, run_succ_eq]
    cases RunExit.ofStep? m.step.result with
    | none => exact ih _ _ _
    | some result => exact ⟨rfl, rfl⟩

theorem run_journal (limit : Nat) (earlier : Journal) (m : Machine μ ι ο) :
    m.run (· ++ ·) limit earlier =
      ⟨(m.run (· ++ ·) limit ({} : Journal)).result, (m.run (· ++ ·) limit ({} : Journal)).machine,
        earlier ++ (m.run (· ++ ·) limit ({} : Journal)).trace⟩ := by
  obtain ⟨hresult, -⟩ := m.run_observers (· ++ ·) (· ++ ·) limit earlier ({} : Journal)
  obtain ⟨hmachine, htrace⟩ := m.run_append limit earlier {}
  rw [Journal.append_nil] at hmachine htrace
  rw [← hresult, ← hmachine, ← htrace]

-- ---------------------------------------------------------------------------
-- No limit
-- ---------------------------------------------------------------------------

/-- A run without a limit ends: its steps execute an instruction each, up to one that
does not and says how the run ends. -/
inductive Ends (observe : τ → Journal → τ) : τ → Machine μ ι ο → Turn RunExit τ μ ι ο → Prop
  | last {trace m result} (hexit : RunExit.ofStep? m.step.result = some result) :
      Ends observe trace m ⟨result, m.step.machine, observe trace m.step.trace⟩
  | goesOn {trace m turn} (hexit : RunExit.ofStep? m.step.result = none)
      (hrest : Ends observe (observe trace m.step.trace) m.step.machine turn) :
      Ends observe trace m turn

section
variable {observe : τ → Journal → τ} {trace : τ} {turn : Turn RunExit τ μ ι ο}

theorem Ends.exists_limit (h : Ends observe trace m turn) :
    turn.result ≠ .ok .stepLimit ∧ ∃ limit, m.run observe limit trace = turn := by
  induction h with
  | @last trace m result hexit =>
    refine ⟨?_, 1, ?_⟩
    · rintro rfl
      exact RunExit.ofStep?_ne_stepLimit hexit
    · rw [run_succ_eq, hexit]
  | @goesOn trace m turn hexit _ ih =>
    obtain ⟨hended, limit, hrun⟩ := ih
    refine ⟨hended, limit + 1, ?_⟩
    rw [run_succ_eq, hexit]
    exact hrun

theorem ends_run {limit : Nat} (h : (m.run observe limit trace).result ≠ .ok .stepLimit) :
    Ends observe trace m (m.run observe limit trace) := by
  induction limit generalizing m trace with
  | zero => exact absurd rfl h
  | succ limit ih =>
    rw [run_succ_eq] at h ⊢
    cases hexit : RunExit.ofStep? m.step.result with
    | none =>
      rw [hexit] at h
      exact .goesOn hexit (ih h)
    | some result => exact .last hexit

theorem ends_iff_of_ended {limit : Nat} (h : (m.run observe limit trace).result ≠ .ok .stepLimit) :
    Ends observe trace m turn ↔ turn = m.run observe limit trace := by
  constructor
  · intro hends
    obtain ⟨hended, other, rfl⟩ := hends.exists_limit
    exact run_eq_of_ended hended h
  · rintro rfl
    exact ends_run h

theorem runFreely_eq (observe : τ → Journal → τ) (fuel : Nat) (trace : τ) (m : Machine μ ι ο) :
    m.runFreely observe fuel trace =
      if (m.run observe fuel trace).result = .ok .stepLimit then none
      else some (m.run observe fuel trace) := by
  unfold runFreely
  rcases m.run observe fuel trace with ⟨fault | _ | port | _, next, reported⟩ <;> simp

theorem runFreely_eq_some_iff {fuel : Nat} :
    m.runFreely observe fuel trace = some turn ↔
      m.run observe fuel trace = turn ∧ turn.result ≠ .ok .stepLimit := by
  rw [runFreely_eq]
  constructor
  · intro h
    split at h
    · cases h
    · rename_i hended
      cases h
      exact ⟨rfl, hended⟩
  · rintro ⟨rfl, hended⟩
    rw [if_neg hended]

theorem run_of_runWithin {fuel : Nat} {limit : Option Nat}
    (h : m.runWithin observe fuel limit trace = some turn) :
    ∃ n, m.run observe n trace = turn := by
  cases limit with
  | some limit => exact ⟨limit, Option.some.inj h⟩
  | none => exact ⟨fuel, (runFreely_eq_some_iff.mp h).1⟩

theorem runWithin_observers {σ : Type} (observe : τ → Journal → τ) (other : σ → Journal → σ)
    (fuel : Nat) (limit : Option Nat) (trace : τ) (begun : σ) (m : Machine μ ι ο) :
    Option.Rel (fun one two => one.result = two.result ∧ one.machine = two.machine)
      (m.runWithin observe fuel limit trace) (m.runWithin other fuel limit begun) := by
  cases limit with
  | some limit => exact .some (m.run_observers observe other limit trace begun)
  | none =>
    have hsame := m.run_observers observe other fuel trace begun
    simp only [runWithin, runFreely_eq, hsame.1]
    split
    · exact .none
    · exact .some hsame

/-- The run without a limit that ends is the one that enough fuel computes, and the one
under a limit that it does not reach. -/
theorem ends_iff_runWithin :
    (Ends observe trace m turn ↔ ∃ fuel, m.runWithin observe fuel none trace = some turn) ∧
    (Ends observe trace m turn ↔ turn.result ≠ .ok .stepLimit ∧
      ∃ limit, ∀ fuel, m.runWithin observe fuel (some limit) trace = some turn) := by
  constructor
  · constructor
    · intro h
      obtain ⟨hended, limit, hrun⟩ := h.exists_limit
      exact ⟨limit, runFreely_eq_some_iff.mpr ⟨hrun, hended⟩⟩
    · rintro ⟨fuel, hfuel⟩
      obtain ⟨rfl, hended⟩ := runFreely_eq_some_iff.mp hfuel
      exact ends_run hended
  · constructor
    · intro h
      obtain ⟨hended, limit, rfl⟩ := h.exists_limit
      exact ⟨hended, limit, fun _ => rfl⟩
    · rintro ⟨hended, limit, hrun⟩
      obtain rfl : m.run observe limit trace = turn := Option.some.inj (hrun 0)
      exact ends_run hended

end

/-- Limits compose. A run counts no more instructions than its limit. If it is stopped
there it has counted as many, and a second run does what one run under both limits would
still have done. If it ends otherwise, it ends so under a higher limit and without one; and
a run without a limit ends only as it does under some limit. -/
theorem run_limits_compose (m : Machine μ ι ο) (a b : Nat) :
    let first := m.run (· ++ ·) a ({} : Journal)
    let second := first.machine.run (· ++ ·) b ({} : Journal)
    let whole := m.run (· ++ ·) (a + b) ({} : Journal)
    (m.steps ≤ first.machine.steps ∧ first.machine.steps ≤ m.steps + a) ∧
    (first.result = .ok .stepLimit → first.machine.steps = m.steps + a ∧
      whole = ⟨second.result, second.machine, first.trace ++ second.trace⟩) ∧
    (first.result ≠ .ok .stepLimit →
      whole = first ∧ ∀ turn, Ends (· ++ ·) ({} : Journal) m turn ↔ turn = first) ∧
    ∀ turn, (Ends (· ++ ·) ({} : Journal) m turn ↔
        ∃ fuel, m.runWithin (· ++ ·) fuel none {} = some turn) ∧
      (Ends (· ++ ·) ({} : Journal) m turn ↔ turn.result ≠ .ok .stepLimit ∧
        ∃ limit, ∀ fuel, m.runWithin (· ++ ·) fuel (some limit) {} = some turn) := by
  intro first second whole
  obtain ⟨hlow, hhigh, hlimit⟩ := m.steps_run (· ++ ·) a ({} : Journal)
  refine ⟨⟨hlow, hhigh⟩, fun hstopped => ⟨hlimit hstopped, ?_⟩, fun hended => ?_, fun turn => ?_⟩
  · rw [← run_journal]
    exact run_add_of_stepLimit hstopped b
  · exact ⟨run_add_of_ended hended b, fun turn => ends_iff_of_ended hended⟩
  · exact ends_iff_runWithin

/-- One move of the pointer, which counts one step, and the halt behind it, which counts
another. -/
def countedImage : Image where
  text := [0x3e]
  data := []
  checked := rfl
  fits := by decide

def countedMachine : Machine Ram NoInput BufferOutput :=
  start countedImage.ram .closed {}

/-- Stopped before the halt, and halted by the last step that is allowed. -/
theorem run_limits_compose_counted :
    ((countedMachine.run (· ++ ·) 1 ({} : Journal)).result = .ok .stepLimit ∧
      (countedMachine.run (· ++ ·) 1 ({} : Journal)).machine.steps = countedMachine.steps + 1) ∧
    (countedMachine.run (· ++ ·) 2 ({} : Journal)).result = .ok .halted ∧
      countedMachine.run (· ++ ·) (2 + 7) ({} : Journal) =
        countedMachine.run (· ++ ·) 2 ({} : Journal) := by
  have hstopped : (countedMachine.run (· ++ ·) 1 ({} : Journal)).result = .ok .stepLimit := by
    decide +kernel
  have hhalted : (countedMachine.run (· ++ ·) 2 ({} : Journal)).result = .ok .halted := by
    decide +kernel
  obtain ⟨-, hlimit, -⟩ := countedMachine.run_limits_compose 1 1
  obtain ⟨-, -, hended, -⟩ := countedMachine.run_limits_compose 2 7
  refine ⟨⟨hstopped, (hlimit hstopped).1⟩, hhalted, (hended ?_).1⟩
  rw [hhalted]
  simp

end Machine

end RingMachine

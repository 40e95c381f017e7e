import RingMachine.Proofs.Step

/-!
# Sessions

A host drives a machine by requests: it boots it, steps it, runs it, and does to
its devices what it likes in between. A session serves one request after another,
whatever the ones before it returned. A run is a sequence of steps, so what every
step preserves holds all along a session.
-/

namespace RingMachine

/-- What a host asks of a machine. A run without a limit that ends is a run with
a limit that it does not reach, so every run has one here. -/
inductive Request (ι ο : Type)
  | boot
  | step
  | run (limit : Nat)
  /-- Anything that the host itself does to the devices. -/
  | adjust (input : ι → ι) (output : ο → ο)

inductive Answer
  | located (origin : Address)
  | stepped (step : Step)
  | stopped (exit : RunExit)
  | adjusted
  deriving DecidableEq, Repr

def Turn.map {α β τ μ ι ο : Type} (f : α → β) (turn : Turn α τ μ ι ο) : Turn β τ μ ι ο :=
  ⟨turn.result.map f, turn.machine, turn.trace⟩

theorem Turn.fault_of_map {α β τ μ ι ο : Type} {f : α → β} {turn : Turn α τ μ ι ο} {fault : Fault}
    (h : (turn.map f).result = .error fault) : turn.result = .error fault := by
  rcases turn with ⟨found | a, next, trace⟩
  · simpa [Turn.map, Except.map] using h
  · cases h

namespace Machine

variable {μ ι ο : Type}

def adjust (m : Machine μ ι ο) (input : ι → ι) (output : ο → ο) : Machine μ ι ο :=
  { m with input := input m.input, output := output m.output }

variable [Memory μ] [Input ι] [Output ο]

def serve (m : Machine μ ι ο) : Request ι ο → Turn Answer Journal μ ι ο
  | .boot => m.boot.map .located
  | .step => m.step.map .stepped
  | .run limit => (m.run (· ++ ·) limit {}).map .stopped
  | .adjust input output => ⟨.ok .adjusted, m.adjust input output, {}⟩

def turns (m : Machine μ ι ο) : List (Request ι ο) → List (Turn Answer Journal μ ι ο)
  | [] => []
  | request :: rest => m.serve request :: (m.serve request).machine.turns rest

def after (m : Machine μ ι ο) : List (Request ι ο) → Machine μ ι ο
  | [] => m
  | request :: rest => (m.serve request).machine.after rest

def journal (m : Machine μ ι ο) : List (Request ι ο) → Journal
  | [] => {}
  | request :: rest => (m.serve request).trace ++ (m.serve request).machine.journal rest

-- ---------------------------------------------------------------------------
-- Where steps start
-- ---------------------------------------------------------------------------

def runStarts : Nat → Machine μ ι ο → List (Machine μ ι ο)
  | 0, _ => []
  | limit + 1, m =>
    match m.step with
    | ⟨.ok (.executed _), next, _⟩ => m :: runStarts limit next
    | _ => [m]

def starts (m : Machine μ ι ο) : Request ι ο → List (Machine μ ι ο)
  | .boot => []
  | .step => [m]
  | .run limit => m.runStarts limit
  | .adjust _ _ => []

def sessionStarts (m : Machine μ ι ο) : List (Request ι ο) → List (Machine μ ι ο)
  | [] => []
  | request :: rest => m.starts request ++ (m.serve request).machine.sessionStarts rest

-- ---------------------------------------------------------------------------
-- Runs
-- ---------------------------------------------------------------------------

section
variable {τ : Type} {m : Machine μ ι ο} {limit : Nat}

theorem run_step (observe : τ → Journal → τ) (limit : Nat) (trace : τ) {op : Opcode}
    (hop : m.step.result = .ok (.executed op)) :
    m.run observe (limit + 1) trace =
        m.step.machine.run observe limit (observe trace m.step.trace) ∧
      m.runStarts (limit + 1) = m :: m.step.machine.runStarts limit := by
  simp only [run, runStarts]
  rcases hstep : m.step with ⟨result, next, journal⟩
  rw [hstep] at hop
  subst hop
  exact ⟨rfl, rfl⟩

/-- A run goes on behind an instruction that was executed, and otherwise ends
where the step ended, with its fault if it had one, and halted if it was. -/
theorem run_succ (observe : τ → Journal → τ) (limit : Nat) (trace : τ) (m : Machine μ ι ο) :
    (∃ op, m.step.result = .ok (.executed op) ∧
      m.run observe (limit + 1) trace =
        m.step.machine.run observe limit (observe trace m.step.trace) ∧
      m.runStarts (limit + 1) = m :: m.step.machine.runStarts limit) ∨
    (∃ result, m.run observe (limit + 1) trace =
        ⟨result, m.step.machine, observe trace m.step.trace⟩ ∧
      (∀ fault, result = .error fault → m.step.result = .error fault) ∧
      (result = .ok .halted ↔ m.step.result = .ok .halted) ∧
      m.runStarts (limit + 1) = [m]) := by
  simp only [run, runStarts]
  rcases m.step with ⟨fault | op | port | _, next, journal⟩
  · exact .inr ⟨_, rfl, by simp, by simp, rfl⟩
  · exact .inl ⟨op, rfl, rfl, rfl⟩
  · exact .inr ⟨_, rfl, by simp, by simp, rfl⟩
  · exact .inr ⟨_, rfl, by simp, by simp, rfl⟩

theorem run_induction {P : Machine μ ι ο → τ → Prop} {observe : τ → Journal → τ} {trace : τ}
    (h : P m trace)
    (hstep : ∀ s ∈ m.runStarts limit, ∀ t, P s t → P s.step.machine (observe t s.step.trace)) :
    P (m.run observe limit trace).machine (m.run observe limit trace).trace := by
  induction limit generalizing m trace with
  | zero => exact h
  | succ limit ih =>
    rcases m.run_succ observe limit trace with ⟨op, -, hrun, hstarts⟩ | ⟨result, hrun, -, -, hstarts⟩
    · rw [hstarts] at hstep
      rw [hrun]
      exact ih (hstep m (by simp) trace h) fun s hs => hstep s (by simp [hs])
    · rw [hstarts] at hstep
      rw [hrun]
      exact hstep m (by simp) trace h

theorem runStarts_induction {P : Machine μ ι ο → Prop} (h : P m)
    (hstep : ∀ s ∈ m.runStarts limit, P s → P s.step.machine) : ∀ s ∈ m.runStarts limit, P s := by
  induction limit generalizing m with
  | zero => simp [runStarts]
  | succ limit ih =>
    rcases m.run_succ (fun _ _ => ()) limit () with ⟨op, -, -, hstarts⟩ | ⟨result, -, -, -, hstarts⟩
    · rw [hstarts] at hstep ⊢
      have hnext := ih (hstep m (by simp) h) fun s hs => hstep s (by simp [hs])
      simpa using ⟨h, hnext⟩
    · rw [hstarts]
      simpa using h

theorem fault_of_run {observe : τ → Journal → τ} {trace : τ} {fault : Fault}
    (h : (m.run observe limit trace).result = .error fault) :
    ∃ s ∈ m.runStarts limit, s.step.result = .error fault := by
  induction limit generalizing m trace with
  | zero => cases h
  | succ limit ih =>
    rcases m.run_succ observe limit trace with
      ⟨op, -, hrun, hstarts⟩ | ⟨result, hrun, hfault, -, hstarts⟩
    · rw [hrun] at h
      rw [hstarts]
      obtain ⟨s, hs, hresult⟩ := ih h
      exact ⟨s, by simp [hs], hresult⟩
    · rw [hrun] at h
      rw [hstarts]
      exact ⟨m, by simp, hfault fault h⟩

end

-- ---------------------------------------------------------------------------
-- Requests
-- ---------------------------------------------------------------------------

section
variable {P : Machine μ ι ο → Prop} {m : Machine μ ι ο}

theorem serve_induction {request : Request ι ο} (h : P m)
    (hboot : ∀ s, P s → P s.boot.machine) (hadjust : ∀ s input output, P s → P (s.adjust input output))
    (hstep : ∀ s ∈ m.starts request, P s → P s.step.machine) :
    P (m.serve request).machine ∧ ∀ s ∈ m.starts request, P s := by
  cases request with
  | boot => exact ⟨hboot m h, by simp [starts]⟩
  | step => exact ⟨hstep m (by simp [starts]) h, by simpa [starts] using h⟩
  | run limit =>
    refine ⟨?_, runStarts_induction h hstep⟩
    exact run_induction (P := fun s (_ : Journal) => P s) h fun s hs _ => hstep s hs
  | adjust input output => exact ⟨hadjust m input output h, by simp [starts]⟩

theorem fault_of_serve {request : Request ι ο} {fault : Fault}
    (h : (m.serve request).result = .error fault) :
    m.boot.result = .error fault ∨ ∃ s ∈ m.starts request, s.step.result = .error fault := by
  cases request with
  | boot => exact .inl (Turn.fault_of_map h)
  | step => exact .inr ⟨m, by simp [starts], Turn.fault_of_map h⟩
  | run limit => exact .inr (fault_of_run (Turn.fault_of_map h))
  | adjust input output => cases h

/-- A run that ends is one that a request asks for, also if it had no limit. -/
theorem serve_of_runWithin {fuel : Nat} {limit : Option Nat} {turn : Turn RunExit Journal μ ι ο}
    (h : m.runWithin (· ++ ·) fuel limit {} = some turn) :
    ∃ n, m.serve (.run n) = turn.map .stopped := by
  cases limit with
  | some limit =>
    cases h
    exact ⟨limit, rfl⟩
  | none =>
    refine ⟨fuel, ?_⟩
    rw [runWithin, runFreely] at h
    split at h
    · cases h
    · cases h
      rfl

theorem session_induction {requests : List (Request ι ο)} (h : P m)
    (hboot : ∀ s, P s → P s.boot.machine) (hadjust : ∀ s input output, P s → P (s.adjust input output))
    (hstep : ∀ s ∈ m.sessionStarts requests, P s → P s.step.machine) :
    (∀ s ∈ m.sessionStarts requests, P s) ∧ ∀ turn ∈ m.turns requests, P turn.machine := by
  induction requests generalizing m with
  | nil => simp [sessionStarts, turns]
  | cons request rest ih =>
    have hfirst : ∀ s ∈ m.starts request, P s → P s.step.machine :=
      fun s hs => hstep s (by simp [sessionStarts, hs])
    obtain ⟨hserved, hstarts⟩ := serve_induction h hboot hadjust hfirst
    obtain ⟨hrest, hturns⟩ := ih hserved fun s hs => hstep s (by simp [sessionStarts, hs])
    constructor
    · intro s hs
      rcases List.mem_append.mp hs with hs | hs
      · exact hstarts s hs
      · exact hrest s hs
    · intro turn hturn
      rcases List.mem_cons.mp hturn with rfl | hturn
      · exact hserved
      · exact hturns turn hturn

theorem session_answers {requests : List (Request ι ο)} (h : P m)
    (hboot : ∀ s, P s → P s.boot.machine ∧ ∃ origin, s.boot.result = .ok origin)
    (hadjust : ∀ s input output, P s → P (s.adjust input output))
    (hstep : ∀ s ∈ m.sessionStarts requests, P s →
      P s.step.machine ∧ ∃ step, s.step.result = .ok step) :
    ∀ turn ∈ m.turns requests, ∃ answer, turn.result = .ok answer := by
  induction requests generalizing m with
  | nil => simp [turns]
  | cons request rest ih =>
    have hfirst : ∀ s ∈ m.starts request, P s → P s.step.machine ∧ ∃ step, s.step.result = .ok step :=
      fun s hs => hstep s (by simp [sessionStarts, hs])
    obtain ⟨hserved, hstarts⟩ :=
      serve_induction h (fun s hs => (hboot s hs).1) hadjust fun s hs hP => (hfirst s hs hP).1
    intro turn hturn
    rcases List.mem_cons.mp hturn with rfl | hturn
    · cases hresult : (m.serve request).result with
      | ok answer => exact ⟨answer, rfl⟩
      | error fault =>
        exfalso
        rcases fault_of_serve hresult with hfault | ⟨s, hs, hfault⟩
        · obtain ⟨origin, hok⟩ := (hboot m h).2
          rw [hfault] at hok
          cases hok
        · obtain ⟨step, hok⟩ := (hfirst s hs (hstarts s hs)).2
          rw [hfault] at hok
          cases hok
    · exact ih hserved (fun s hs => hstep s (by simp [sessionStarts, hs])) turn hturn

end

-- ---------------------------------------------------------------------------
-- Histories
-- ---------------------------------------------------------------------------

/-- A property of a machine, of all it has reported so far and of the machines at
which its steps started, that is preserved by locating the program, by what the
host does and by every step. -/
structure Lasting (P : Machine μ ι ο → Journal → List (Machine μ ι ο) → Prop) : Prop where
  boot : ∀ {s journal earlier}, P s journal earlier →
    P s.boot.machine (journal ++ s.boot.trace) earlier
  adjust : ∀ {s journal earlier} input output, P s journal earlier →
    P (s.adjust input output) journal earlier
  step : ∀ {s journal earlier}, P s journal earlier →
    P s.step.machine (journal ++ s.step.trace) (earlier ++ [s])

theorem run_append (limit : Nat) (first second : Journal) (m : Machine μ ι ο) :
    (m.run (· ++ ·) limit (first ++ second)).machine = (m.run (· ++ ·) limit second).machine ∧
      (m.run (· ++ ·) limit (first ++ second)).trace =
        first ++ (m.run (· ++ ·) limit second).trace := by
  induction limit generalizing m second with
  | zero => exact ⟨rfl, rfl⟩
  | succ limit ih =>
    simp only [run]
    rcases m.step with ⟨fault | op | port | _, next, reported⟩
    · exact ⟨rfl, Journal.append_assoc _ _ _⟩
    · simp only [Journal.append_assoc]
      exact ih (second ++ reported) next
    · exact ⟨rfl, Journal.append_assoc _ _ _⟩
    · exact ⟨rfl, Journal.append_assoc _ _ _⟩

section
variable {P : Machine μ ι ο → Journal → List (Machine μ ι ο) → Prop} {m : Machine μ ι ο}
variable {journal : Journal} {earlier : List (Machine μ ι ο)}

theorem Lasting.run (hP : Lasting P) (limit : Nat) (h : P m journal earlier) :
    P (m.run (· ++ ·) limit journal).machine (m.run (· ++ ·) limit journal).trace
      (earlier ++ m.runStarts limit) := by
  induction limit generalizing m journal earlier with
  | zero => simpa [runStarts] using h
  | succ limit ih =>
    have hnext := hP.step h
    rcases m.run_succ (· ++ ·) limit journal with
      ⟨op, -, hrun, hstarts⟩ | ⟨result, hrun, -, -, hstarts⟩
    · rw [hrun, hstarts, List.append_cons]
      exact ih hnext
    · rw [hrun, hstarts]
      exact hnext

theorem Lasting.serve (hP : Lasting P) (request : Request ι ο) (h : P m journal earlier) :
    P (m.serve request).machine (journal ++ (m.serve request).trace)
      (earlier ++ m.starts request) := by
  cases request with
  | boot =>
    rw [starts, List.append_nil]
    exact hP.boot h
  | step => exact hP.step h
  | run limit =>
    have hrun := hP.run limit h
    obtain ⟨hmachine, htrace⟩ := m.run_append limit journal {}
    rw [Journal.append_nil] at hmachine htrace
    rw [hmachine, htrace] at hrun
    exact hrun
  | adjust input output =>
    rw [starts, List.append_nil, Machine.serve, Journal.append_nil]
    exact hP.adjust input output h

theorem Lasting.session (hP : Lasting P) (requests : List (Request ι ο)) (h : P m journal earlier) :
    P (m.after requests) (journal ++ m.journal requests) (earlier ++ m.sessionStarts requests) := by
  induction requests generalizing m journal earlier with
  | nil =>
    rw [Machine.journal, Journal.append_nil, sessionStarts, List.append_nil]
    exact h
  | cons request rest ih =>
    have hrest := ih (hP.serve request h)
    rwa [Journal.append_assoc, List.append_assoc] at hrest

theorem history_induction (hP : Lasting P) (requests : List (Request ι ο)) (h : P m {} []) :
    P (m.after requests) (m.journal requests) (m.sessionStarts requests) :=
  hP.session requests h

/-- What holds at first and lasts holds wherever a step of a session starts, of the
machine and of the steps before. -/
theorem history_split {requests : List (Request ι ο)} {before later : List (Machine μ ι ο)}
    {s : Machine μ ι ο} (hP : Lasting P) (h : P m {} [])
    (hsplit : m.sessionStarts requests = before ++ s :: later) : ∃ journal, P s journal before := by
  -- The starts of steps are added at the end, so a later one leaves an earlier split alone.
  have hlasting : Lasting fun (u : Machine μ ι ο) journal earlier => P u journal earlier ∧
      ∀ before s later, earlier = before ++ s :: later → ∃ journal, P s journal before := by
    constructor
    · exact fun h => ⟨hP.boot h.1, h.2⟩
    · exact fun input output h => ⟨hP.adjust input output h.1, h.2⟩
    · rintro u journal earlier ⟨hu, hearlier⟩
      refine ⟨hP.step hu, fun before s later heq => ?_⟩
      rcases List.eq_nil_or_concat later with rfl | ⟨rest, last, rfl⟩
      · obtain ⟨rfl, hlast⟩ := List.append_inj' heq rfl
        cases hlast
        exact ⟨journal, hu⟩
      · rw [List.concat_eq_append, ← List.cons_append, ← List.append_assoc] at heq
        exact hearlier before s rest (List.append_inj' heq rfl).1
  exact (history_induction hlasting requests ⟨h, by simp⟩).2 before s later hsplit

end

theorem after_append (m : Machine μ ι ο) (first second : List (Request ι ο)) :
    m.after (first ++ second) = (m.after first).after second := by
  induction first generalizing m with
  | nil => rfl
  | cons request rest ih => exact ih _

theorem after_induction {P : Machine μ ι ο → Prop} {m : Machine μ ι ο}
    (requests : List (Request ι ο)) (h : P m) (hboot : ∀ s, P s → P s.boot.machine)
    (hadjust : ∀ s input output, P s → P (s.adjust input output))
    (hstep : ∀ s, P s → P s.step.machine) : P (m.after requests) :=
  history_induction (P := fun s _ _ => P s) ⟨hboot _, hadjust _, hstep _⟩ requests h

end Machine

end RingMachine

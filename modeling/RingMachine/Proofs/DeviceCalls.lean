import Mathlib.Data.List.Chain
import RingMachine.Proofs.Lifecycle
import RingMachine.Proofs.Stalls

/-!
# Calls to the devices

What a machine asks of its devices comes in exchanges, of four kinds, each made by
one step. An exchange decides what the step does, and a step without one asks
nothing. So a byte is taken only from an input that has just said it has one, a
byte is written only to an output that has just said it is ready, and nothing that
was written is held back when the machine looks for input.
-/

namespace RingMachine

-- ---------------------------------------------------------------------------
-- Cues
-- ---------------------------------------------------------------------------

/-- Every element of a list that needs a cue has one directly before it. -/
structure Cued {α : Type} (needs : α → Prop) (cue : α → α → Prop) (l : List α) : Prop where
  head : ∀ x ∈ l.head?, ¬ needs x
  chain : l.IsChain fun d x => needs x → cue d x

namespace Cued

variable {α β : Type} {needs : α → Prop} {cue : α → α → Prop}

theorem append {first second : List α} (h : Cued needs cue first) (h' : Cued needs cue second) :
    Cued needs cue (first ++ second) := by
  constructor
  · cases first with
    | nil => exact h'.head
    | cons x rest => exact h.head
  · exact h.chain.append h'.chain fun d _ x hx hneeds => absurd hneeds (h'.head x hx)

theorem flatMap {l : List β} {f : β → List α} (h : ∀ x ∈ l, Cued needs cue (f x)) :
    Cued needs cue (l.flatMap f) := by
  induction l with
  | nil => exact ⟨by simp, .nil⟩
  | cons x rest ih =>
    rw [List.flatMap_cons]
    exact (h x (by simp)).append (ih fun y hy => h y (by simp [hy]))

theorem before {earlier later : List α} {x : α} (h : Cued needs cue (earlier ++ x :: later))
    (hneeds : needs x) : ∃ start d, earlier = start ++ [d] ∧ cue d x := by
  rcases List.eq_nil_or_concat earlier with rfl | ⟨start, d, rfl⟩
  · exact absurd hneeds (h.head x rfl)
  · have hchain := h.chain
    rw [List.concat_eq_append, List.append_assoc] at hchain
    exact ⟨start, d, List.concat_eq_append, (List.isChain_append_cons_cons.mp hchain).2.1 hneeds⟩

end Cued

-- ---------------------------------------------------------------------------
-- Calls on devices
-- ---------------------------------------------------------------------------

namespace Call

variable {ι ο : Type} [Input ι] [Output ο]

/-- Makes a call of the same kind: the call with the answer it got, and the devices
afterwards. -/
def make : Call → ι × ο → Call × ι × ο
  | isReady _, (input, output) =>
    (isReady (Output.isReady output).1, input, (Output.isReady output).2)
  | write byte, (input, output) => (write byte, input, Output.write output byte)
  | flush, (input, output) => (flush, input, Output.flush output)
  | hasByte _, (input, output) =>
    (hasByte (Input.hasByte input).1, (Input.hasByte input).2, output)
  | takeByte _, (input, output) =>
    (takeByte (Input.takeByte input).1, (Input.takeByte input).2, output)

inductive Made : List Call → ι × ο → ι × ο → Prop
  | nil (devices : ι × ο) : Made [] devices devices
  | cons {call : Call} {rest : List Call} {before between after : ι × ο}
      (hcall : call.make before = (call, between)) (hrest : Made rest between after) :
      Made (call :: rest) before after

theorem Made.append {first second : List Call} {before between after : ι × ο}
    (h : Made first before between) (h' : Made second between after) :
    Made (first ++ second) before after := by
  induction h with
  | nil => exact h'
  | cons hcall _ ih => exact .cons hcall (ih h')

def written : Call → Option UInt8
  | write byte => some byte
  | _ => none

def holdBack (held : List UInt8) : Call → List UInt8
  | write byte => held ++ [byte]
  | flush => []
  | _ => held

def unflushed (calls : List Call) : List UInt8 :=
  calls.foldl holdBack []

theorem unflushed_flush (calls : List Call) : unflushed (calls ++ [flush]) = [] := by
  rw [unflushed, List.foldl_append]
  rfl

/-- The call that has to come directly before a call. -/
def cue : Call → Option Call
  | takeByte _ => some (hasByte true)
  | write _ => some (isReady true)
  | hasByte _ => some flush
  | _ => none

end Call

def Journal.written (journal : Journal) : List UInt8 :=
  journal.calls.filterMap Call.written

@[simp] theorem Journal.written_append (first second : Journal) :
    (first ++ second).written = first.written ++ second.written := by
  simp [written]

/-- What a step may settle with the devices. -/
inductive Exchange
  | inputMissing
  | inputTaken (byte : UInt8)
  | outputBusy
  | outputWritten (byte : UInt8)
  deriving DecidableEq, Repr

namespace Exchange

def calls : Exchange → List Call
  | inputMissing => [.flush, .hasByte false]
  | inputTaken byte => [.flush, .hasByte true, .takeByte byte]
  | outputBusy => [.isReady false]
  | outputWritten byte => [.isReady true, .write byte]

def opcode : Exchange → Opcode
  | inputMissing | inputTaken _ => .input
  | outputBusy | outputWritten _ => .output

def step : Exchange → Step
  | inputMissing => .blocked .input
  | inputTaken _ => .executed .input
  | outputBusy => .blocked .output
  | outputWritten _ => .executed .output

theorem cued (exchange : Exchange) :
    Cued (fun call : Call => call.cue ≠ none) (fun d call => call.cue = some d) exchange.calls := by
  cases exchange <;> constructor <;> simp [calls, Call.cue]

end Exchange

namespace Machine

variable {μ ι ο : Type}

def devices (m : Machine μ ι ο) : ι × ο :=
  (m.input, m.output)

variable [Memory μ]

theorem devices_boot (m : Machine μ ι ο) : m.boot.machine.devices = m.devices := by
  rcases m.boot_cases with ⟨_, -, hboot⟩ | ⟨-, -, hboot⟩ | ⟨-, _, -, hboot⟩
  · rw [hboot]
  · rw [hboot]
  · rw [hboot]
    rfl

theorem calls_boot (m : Machine μ ι ο) : m.boot.trace.calls = [] := by
  rcases m.boot_cases with ⟨_, -, hboot⟩ | ⟨-, -, hboot⟩ | ⟨-, _, -, hboot⟩ <;> rw [hboot]

-- ---------------------------------------------------------------------------
-- Steps
-- ---------------------------------------------------------------------------

variable [Input ι] [Output ο] {m : Machine μ ι ο}

theorem Outcome.made {turn : Turn Step Journal μ ι ο} (h : Outcome m turn) :
    Call.Made turn.trace.calls m.devices turn.machine.devices := by
  cases h with
  | waitsForOutput _ hready =>
    refine .cons ?_ (.nil _)
    simp [Call.make, devices, hready]
  | writes _ hready =>
    have hask : (Call.isReady true).make m.devices =
        (.isReady true, m.input, (Output.isReady m.output).2) := by
      simp [Call.make, devices, hready]
    exact .cons hask (.cons rfl (.nil _))
  | waitsForInput _ hbyte =>
    refine .cons rfl (.cons ?_ (.nil _))
    simp [Call.make, devices, hbyte]
  | takes _ hbyte htake =>
    have hask : (Call.hasByte true).make (m.input, Output.flush m.output) =
        (.hasByte true, (Input.hasByte m.input).2, Output.flush m.output) := by
      simp [Call.make, hbyte]
    refine .cons rfl (.cons hask (.cons ?_ (.nil _)))
    simp [Call.make, devices, htake]
  | _ => exact .nil _

theorem step_made (m : Machine μ ι ο) :
    Call.Made m.step.trace.calls m.devices m.step.machine.devices := by
  rcases m.step_cases with ⟨-, hstep⟩ | ⟨-, -, -, hstep⟩ | ⟨-, _, turn, -, hturn, hstep⟩
  · rw [hstep]
    exact .nil _
  · rw [hstep]
    exact .nil _
  · rw [hstep, Journal.calls_append, calls_boot, ← devices_boot]
    exact hturn.made

/-- The next step makes an exchange: it has no other calls, ends as the exchange says,
stores what it takes under the data pointer and writes what it finds there. -/
structure Talks (m : Machine μ ι ο) (exchange : Exchange) : Prop where
  fetched : Opcode.decode m.boot.machine.fetch = exchange.opcode
  result : m.step.result = .ok exchange.step
  calls : m.step.trace.calls = exchange.calls
  taken : ∀ byte, exchange = .inputTaken byte →
    m.step.machine.memory = Memory.write m.memory m.boot.machine.registers.ptr byte
  written : ∀ byte, exchange = .outputWritten byte → byte = m.boot.machine.cell

/-- The next step calls no device, and does not end as one that makes an exchange. -/
structure Silent (m : Machine μ ι ο) : Prop where
  calls : m.step.trace.calls = []
  result : ∀ exchange : Exchange, m.step.result ≠ .ok exchange.step

theorem step_talks (m : Machine μ ι ο) : (∃ exchange, Talks m exchange) ∨ Silent m := by
  rcases m.step_cases with ⟨-, hstep⟩ | ⟨-, -, -, hstep⟩ | ⟨-, _, turn, -, hturn, hstep⟩
  · right
    constructor
    · rw [hstep]
    · rw [hstep]
      rintro (_ | _ | _ | _) <;> simp [Exchange.step]
  · right
    constructor <;> simp [hstep]
  · have hcalls : m.step.trace.calls = turn.trace.calls := by
      rw [hstep, Journal.calls_append, calls_boot, List.nil_append]
    have hresult : m.step.result = turn.result := by rw [hstep]
    have hmachine : m.step.machine = turn.machine := by rw [hstep]
    cases hturn with
    | waitsForInput hfetch _ =>
      exact .inl ⟨.inputMissing, hfetch, hresult, hcalls, by simp, by simp⟩
    | @takes byte _ hfetch _ _ =>
      refine .inl ⟨.inputTaken byte, hfetch, hresult, hcalls, ?_, by simp⟩
      rintro _ ⟨⟩
      rw [hmachine, ← memory_boot (m := m)]
      rfl
    | waitsForOutput hfetch _ =>
      exact .inl ⟨.outputBusy, hfetch, hresult, hcalls, by simp, by simp⟩
    | writes hfetch _ =>
      refine .inl ⟨.outputWritten m.boot.machine.cell, hfetch, hresult, hcalls, by simp, ?_⟩
      rintro _ ⟨⟩
      rfl
    | retires hfetch _ houtput hinput =>
      refine .inr ⟨hcalls, ?_⟩
      rw [hresult]
      rintro (_ | _ | _ | _) <;> simp [Exchange.step, retire, houtput, hinput]
    | @jumps direction _ _ _ _ =>
      refine .inr ⟨hcalls, ?_⟩
      rw [hresult]
      rintro (_ | _ | _ | _) <;> cases direction <;> simp [Exchange.step, Direction.nest]
    | fails =>
      refine .inr ⟨hcalls, ?_⟩
      rw [hresult]
      simp
    | halts =>
      refine .inr ⟨hcalls, ?_⟩
      rw [hresult]
      rintro (_ | _ | _ | _) <;> simp [Exchange.step]

theorem cued_step (m : Machine μ ι ο) :
    Cued (fun call : Call => call.cue ≠ none) (fun d call => call.cue = some d)
      m.step.trace.calls := by
  rcases m.step_talks with ⟨exchange, htalks⟩ | hsilent
  · rw [htalks.calls]
    exact exchange.cued
  · rw [hsilent.calls]
    exact ⟨by simp, .nil⟩

-- ---------------------------------------------------------------------------
-- Sessions
-- ---------------------------------------------------------------------------

theorem calls_journal (m : Machine μ ι ο) (requests : List (Request ι ο)) :
    (m.journal requests).calls = (m.sessionStarts requests).flatMap (·.step.trace.calls) := by
  have hlasting : Lasting fun (_ : Machine μ ι ο) journal earlier =>
      journal.calls = earlier.flatMap (·.step.trace.calls) := by
    constructor
    · intro s journal earlier h
      rw [Journal.calls_append, calls_boot, List.append_nil, h]
    · exact fun _ _ h => h
    · intro s journal earlier h
      rw [Journal.calls_append, h, List.flatMap_append, List.flatMap_singleton]
  exact history_induction hlasting requests rfl

theorem serve_made {request : Request ι ο} (hasks : request.asks = true) :
    Call.Made (m.serve request).trace.calls m.devices (m.serve request).machine.devices := by
  cases request with
  | boot =>
    rw [serve, Turn.map, calls_boot, devices_boot]
    exact .nil _
  | step => exact m.step_made
  | run limit =>
    refine run_induction (P := fun (s : Machine μ ι ο) (journal : Journal) =>
      Call.Made journal.calls m.devices s.devices) (.nil _) ?_
    intro s _ journal h
    exact h.append s.step_made
  | adjust => cases hasks

/-- If the host leaves the devices alone, they are as the machine's calls leave them. -/
theorem session_made {requests : List (Request ι ο)}
    (hasks : ∀ request ∈ requests, request.asks = true) :
    Call.Made (m.journal requests).calls m.devices (m.after requests).devices := by
  induction requests generalizing m with
  | nil => exact .nil _
  | cons request rest ih =>
    have hfirst := serve_made (m := m) (hasks request (by simp))
    exact hfirst.append (ih fun other h => hasks other (by simp [h]))

/-- The calls of a session are the exchanges of its steps, one after another, and no
step calls a device otherwise. A byte is taken only directly after the input has said
that it has one, written only directly after the output has said that it is ready, and
when the input is asked every byte written has been flushed. -/
theorem session_exchanges (m : Machine μ ι ο) (requests : List (Request ι ο)) :
    (m.journal requests).calls = (m.sessionStarts requests).flatMap (·.step.trace.calls) ∧
    (∀ s ∈ m.sessionStarts requests, (∃ exchange, Talks s exchange) ∨ Silent s) ∧
    (∀ s ∈ m.sessionStarts requests,
      Call.Made s.step.trace.calls s.devices s.step.machine.devices) ∧
    ((∀ request ∈ requests, request.asks = true) →
      Call.Made (m.journal requests).calls m.devices (m.after requests).devices) ∧
    ∀ before call after, (m.journal requests).calls = before ++ call :: after →
      (∀ byte, call = .takeByte byte → ∃ earlier, before = earlier ++ [.hasByte true]) ∧
      (∀ byte, call = .write byte → ∃ earlier, before = earlier ++ [.isReady true]) ∧
      (∀ answer, call = .hasByte answer → Call.unflushed before = []) := by
  refine ⟨m.calls_journal requests, fun s _ => s.step_talks, fun s _ => s.step_made,
    session_made, fun before call after hsplit => ?_⟩
  -- An exchange starts with a call that needs no cue, so no cue is missing between steps.
  have hcued : Cued (fun call : Call => call.cue ≠ none) (fun d call => call.cue = some d)
      (before ++ call :: after) := by
    rw [← hsplit, calls_journal]
    exact .flatMap fun s _ => s.cued_step
  have hbefore {d : Call} (hcue : call.cue = some d) : ∃ earlier, before = earlier ++ [d] := by
    obtain ⟨earlier, found, hearlier, hfound⟩ := hcued.before (by simp [hcue])
    rw [hcue] at hfound
    cases hfound
    exact ⟨earlier, hearlier⟩
  refine ⟨?_, ?_, ?_⟩
  · rintro byte rfl
    exact hbefore rfl
  · rintro byte rfl
    exact hbefore rfl
  · rintro answer rfl
    obtain ⟨earlier, rfl⟩ := hbefore rfl
    exact Call.unflushed_flush earlier

def promptImage : Image where
  text := [0x2e, 0x2c]
  data := [0x3f]
  checked := rfl
  fits := by decide

def promptMachine : Machine Ram QueueInput BufferOutput :=
  start promptImage.ram ⟨[0x41]⟩ {}

theorem session_exchanges_prompt :
    (promptMachine.journal [.run 9]).calls =
        [.isReady true, .write 0x3f, .flush, .hasByte true, .takeByte 0x41] ∧
      Call.unflushed [.isReady true, .write 0x3f, .flush] = [] ∧
      Call.Made (promptMachine.journal [.run 9]).calls promptMachine.devices
        (promptMachine.after [.run 9]).devices := by
  have hcalls : (promptMachine.journal [.run 9]).calls =
      [.isReady true, .write 0x3f, .flush] ++ .hasByte true :: [.takeByte 0x41] := by decide +kernel
  obtain ⟨-, -, -, hmade, hcues⟩ := session_exchanges promptMachine [.run 9]
  obtain ⟨-, -, hflushed⟩ := hcues _ _ _ hcalls
  exact ⟨hcalls, hflushed true rfl, hmade (by simp [Request.asks])⟩

end Machine

end RingMachine

import RingMachine.Proofs.Evaluation
import RingMachine.Proofs.TextSafety

/-!
# Structured runs

A machine that is started on an image halts, without having written over its text,
exactly if the loop tree of the text has an evaluation, and in the state where that
ends. Forwards by induction over the evaluation, backwards over the number of steps.
-/

namespace RingMachine

namespace Machine

-- ---------------------------------------------------------------------------
-- Executed steps
-- ---------------------------------------------------------------------------

section
variable {μ ι ο : Type} [Memory μ] [Input ι] [Output ο]

/-- A number of steps that each execute an instruction and write to none but the
given cells. -/
inductive Executes (writable : Address → Prop) : Nat → Machine μ ι ο → Machine μ ι ο → Prop
  | refl {m} : Executes writable 0 m m
  | step {n op m last} (hop : m.step.result = .ok (.executed op))
      (hwritable : ∀ a, m.Overwrites a → writable a)
      (hnext : Executes writable n m.step.machine last) : Executes writable (n + 1) m last

variable {writable : Address → Prop} {n : Nat} {m last : Machine μ ι ο}

theorem Executes.trans {k : Nat} {between : Machine μ ι ο} (h : Executes writable n m between)
    (hnext : Executes writable k between last) : ∃ total, Executes writable total m last := by
  induction h with
  | refl => exact ⟨k, hnext⟩
  | step hop hwritable _ ih =>
    obtain ⟨total, hall⟩ := ih hnext
    exact ⟨total + 1, .step hop hwritable hall⟩

theorem Executes.tail {op : Opcode} (h : Executes writable n m last)
    (hhalts : last.step.result = .ok .halted) (hop : m.step.result = .ok (.executed op)) :
    ∃ k < n, (∀ a, m.Overwrites a → writable a) ∧ Executes writable k m.step.machine last := by
  cases h with
  | refl => simp [hhalts] at hop
  | step _ hwritable hnext => exact ⟨_, Nat.lt_succ_self _, hwritable, hnext⟩

theorem run_halted_iff {τ : Type} {observe : τ → Journal → τ} {trace : τ}
    {P : Machine μ ι ο → Prop} :
    (∃ limit, (m.run observe limit trace).result = .ok .halted ∧
      P (m.run observe limit trace).machine ∧
      ∀ s ∈ m.runStarts limit, ∀ a, s.Overwrites a → writable a) ↔
    ∃ n last, Executes writable n m last ∧ last.step.result = .ok .halted ∧
      P last.step.machine := by
  constructor
  · rintro ⟨limit, hresult, hmachine, hwritable⟩
    induction limit generalizing m trace with
    | zero => cases hresult
    | succ limit ih =>
      rcases m.run_succ observe limit trace with
        ⟨op, hop, hrun, hstarts⟩ | ⟨result, hrun, -, hhalted, -⟩
      · rw [hrun] at hresult hmachine
        rw [hstarts] at hwritable
        obtain ⟨n, last, hexecutes, hends⟩ := ih hresult hmachine fun s hs => hwritable s (by simp [hs])
        exact ⟨n + 1, last, .step hop (hwritable m (by simp)) hexecutes, hends⟩
      · rw [hrun] at hresult hmachine
        exact ⟨0, m, .refl, hhalted.mp hresult, hmachine⟩
  · rintro ⟨n, last, hexecutes, hhalts, hfinal⟩
    induction hexecutes generalizing trace with
    | @refl m =>
      rcases m.run_succ observe 0 trace with ⟨op, hop, -⟩ | ⟨result, hrun, -, hhalted, hstarts⟩
      · simp [hhalts] at hop
      · refine ⟨1, by rw [hrun, hhalted.mpr hhalts], by rwa [hrun], ?_⟩
        rw [hstarts]
        rintro s hs a ⟨op, hop, -⟩
        obtain rfl := List.mem_singleton.mp hs
        simp [hhalts] at hop
    | @step n op m last hop hwritable _ ih =>
      obtain ⟨limit, hresult, hmachine, hrest⟩ := ih hhalts hfinal
      obtain ⟨hrun, hstarts⟩ := run_step observe limit trace hop
      refine ⟨limit + 1, by rw [hrun, hresult], by rwa [hrun], ?_⟩
      rw [hstarts]
      simpa using ⟨hwritable, hrest⟩

end

-- ---------------------------------------------------------------------------
-- Steps of a machine in its text
-- ---------------------------------------------------------------------------

section
variable {image : Image} {p k : Nat} {block body next : Block} {s t : State}
variable {m last : Machine Ram QueueInput BufferOutput}

def view (m : Machine Ram QueueInput BufferOutput) : State :=
  ⟨m.memory, m.registers.ptr, m.registers.tmp, m.input.pending, m.output.bytes.toList⟩

/-- Once it has booted, the machine is about to execute the instruction at an
offset of an intact text, in a state, and its output is ready. -/
structure Stands (image : Image) (k : Nat) (s : State)
    (m : Machine Ram QueueInput BufferOutput) : Prop where
  located : m.boot.result = .ok image.origin
  running : m.isHalted = false
  intact : image.Intact m.memory
  pc : m.boot.machine.registers.pc = .ofIndex k
  ready : m.boot.machine.output.busy = false
  view : m.boot.machine.view = s

theorem Stands.of_origin (horigin : m.origin = some image.origin) (hrunning : m.isHalted = false)
    (hintact : image.Intact m.memory) (hpc : m.registers.pc = .ofIndex k)
    (hready : m.output.busy = false) (hview : m.view = s) : Stands image k s m := by
  have hboot := boot_of_origin horigin
  constructor <;> simp [*]

theorem Stands.cell (h : Stands image k s m) : m.boot.machine.cell = s.cell := by
  rw [← h.view]
  rfl

theorem Stands.fetch (h : Stands image k s m) {op : Opcode}
    (hop : (image.text.map Opcode.decode)[k]? = some op) :
    Opcode.decode m.boot.machine.fetch = op := by
  rw [Machine.fetch, h.pc, memory_boot]
  exact h.intact.decode hop

theorem execute_perform {action : Action} (hfetch : Opcode.decode m.fetch = action.opcode)
    (hready : m.output.busy = false) (hperform : action.perform m.view = some t) :
    m.execute.result = .ok (.executed action.opcode) ∧ m.execute.machine.view = t ∧
      m.execute.machine.output.busy = false := by
  cases action with
  | output =>
    rw [execute_output hfetch, emit_of_ready hready]
    cases hperform
    refine ⟨rfl, ?_, hready⟩
    simp [view, advance, goTo, BufferOutput.write, State.cell, Machine.cell]
  | input =>
    rw [execute_input hfetch]
    simp only [Action.perform, view] at hperform
    split at hperform
    · cases hperform
    · rename_i byte rest hpending
      cases hperform
      rw [accept_of_cons hpending]
      exact ⟨rfl, rfl, hready⟩
  | _ =>
    cases hperform
    simp [execute, hfetch, Action.opcode, retire, advance, goTo, setPtr, setCell, setTmp, view,
      Machine.cell, State.setCell, State.cell, Address.next_eq, Address.prev_eq, hready]

/-- Only an input can be without effect, and then the machine waits for it. -/
theorem execute_wait {action : Action} (hfetch : Opcode.decode m.fetch = action.opcode)
    (hperform : action.perform m.view = none) : m.execute.result = .ok (.blocked .input) := by
  cases action with
  | input =>
    rw [execute_input hfetch]
    simp only [Action.perform, view] at hperform
    split at hperform
    · rename_i hpending
      rw [accept_of_nil hpending]
    · cases hperform
  | _ => cases hperform

theorem Stands.act {action : Action} (h : Stands image k s m)
    (hop : (image.text.map Opcode.decode)[k]? = some action.opcode)
    (hperform : action.perform s = some t) :
    m.step.result = .ok (.executed action.opcode) ∧
      (∀ a, m.Overwrites a ↔ action.opcode.writes = true ∧ s.ptr = a) ∧
      ((∀ a, m.Overwrites a → image.origin < a) → Stands image (k + 1) t m.step.machine) := by
  have hfetch := h.fetch hop
  obtain ⟨hresult, hmachine, -⟩ := step_of_located h.located h.running
  rw [← h.view] at hperform
  obtain ⟨hexecuted, rfl, hready⟩ := execute_perform hfetch h.ready hperform
  rw [← hresult] at hexecuted
  refine ⟨hexecuted, fun a => ?_, fun hsafe => ?_⟩
  · rw [overwrites_iff hexecuted, ← h.view]
    rfl
  · have hintact := intact_step h.intact fun a ha hover => absurd (hsafe a hover) (Fin.not_lt.mpr ha)
    rcases execute_action hfetch with ⟨port, hwaits⟩ | hpasses
    · rw [hresult, hwaits.result] at hexecuted
      cases hexecuted
    · rw [hmachine] at hintact ⊢
      have hrunning := h.running
      rw [← isHalted_boot, isHalted, ← hpasses.status] at hrunning
      refine .of_origin (hpasses.origin.trans (origin_boot h.located)) hrunning hintact ?_ hready rfl
      rw [hpasses.pc, h.pc, Address.next_ofIndex]

theorem Stands.wait {action : Action} (h : Stands image k s m)
    (hop : (image.text.map Opcode.decode)[k]? = some action.opcode)
    (hperform : action.perform s = none) : m.step.result = .ok (.blocked .input) := by
  obtain ⟨hresult, -⟩ := step_of_located h.located h.running
  rw [← h.view] at hperform
  rw [hresult, execute_wait (h.fetch hop) hperform]

theorem Stands.loopEnd (h : Stands image k s m)
    (hloop : Block.LoopAt (image.text.map Opcode.decode) p body) (hdepth : body.depth ≤ maxNesting)
    (hends : k = p ∨ k = p + body.size + 1) :
    ∃ op, m.step.result = .ok (.executed op) ∧ (∀ a, ¬ m.Overwrites a) ∧
      Stands image (if s.cell = 0 then p + body.size + 2 else p + 1) s m.step.machine := by
  obtain ⟨hresult, hmachine, -⟩ := step_of_located h.located h.running
  have hintact := h.intact
  rw [← memory_boot] at hintact
  have hpc : m.boot.machine.registers.pc = .ofIndex p ∨
      m.boot.machine.registers.pc = .ofIndex (p + body.size + 1) := by
    rw [h.pc]
    exact hends.imp (congrArg _) (congrArg _)
  obtain ⟨op, depth, hwrites, hexecuted, hnext⟩ := execute_bracket hintact hloop hdepth hpc
  rw [← hresult] at hexecuted
  refine ⟨op, hexecuted, ?_, ?_⟩
  · intro a
    rw [overwrites_iff hexecuted, hwrites]
    simp
  · rw [hmachine, hnext, h.cell]
    have hrunning := h.running
    rw [← isHalted_boot] at hrunning
    exact .of_origin (origin_boot h.located) hrunning hintact rfl h.ready h.view

theorem Stands.bracket (h : Stands image k s m) (hplaces : image.Places p (.loop body next))
    (hentry : Entry p (.loop body next) k) :
    ∃ op, m.step.result = .ok (.executed op) ∧ (∀ a, ¬ m.Overwrites a) ∧
      Stands image (if s.cell = 0 then p + body.size + 2 else p + 1) s m.step.machine := by
  obtain ⟨hloop, hdepth⟩ := hplaces.loopAt
  refine h.loopEnd hloop hdepth ?_
  cases hentry with
  | start => exact .inl rfl
  | close => exact .inr rfl

theorem Stands.halt (h : Stands image image.text.length s m) :
    m.step.result = .ok .halted ∧ m.step.machine.view = s := by
  obtain ⟨hresult, hmachine, -⟩ := step_of_located h.located h.running
  have hfetch : Opcode.decode m.boot.machine.fetch = .halt := by
    rw [Machine.fetch, h.pc, memory_boot, Opcode.decode_eq_halt]
    exact h.intact.read_origin
  rw [hresult, hmachine, execute_halt hfetch]
  exact ⟨rfl, h.view⟩

-- ---------------------------------------------------------------------------
-- The two directions
-- ---------------------------------------------------------------------------

theorem exists_executes (h : Evaluates (image.origin < ·) block s t) (hplaces : image.Places p block)
    (hentry : Entry p block k) (hm : Stands image k s m) :
    ∃ n last, Executes (image.origin < ·) n m last ∧ Stands image (p + block.size) t last := by
  induction h generalizing p k m with
  | done =>
    cases hentry
    exact ⟨0, m, .refl, hm⟩
  | act hperform hwritable _ ih =>
    cases hentry
    obtain ⟨hop, hover, hnext⟩ := hm.act hplaces.opcode hperform
    have hsafe : ∀ a, m.Overwrites a → image.origin < a := by
      intro a ha
      obtain ⟨hwrites, rfl⟩ := (hover a).mp ha
      exact hwritable hwrites
    obtain ⟨n, last, hexecutes, hlast⟩ := ih hplaces.act_next .start (hnext hsafe)
    rw [Block.add_size_act] at hlast
    exact ⟨n + 1, last, .step hop hsafe hexecutes, hlast⟩
  | skip hcell _ ih =>
    obtain ⟨op, hop, hover, hnext⟩ := hm.bracket hplaces hentry
    rw [if_pos hcell] at hnext
    obtain ⟨n, last, hexecutes, hlast⟩ := ih hplaces.loop_next .start hnext
    rw [Block.add_size_loop] at hlast
    exact ⟨n + 1, last, .step hop (fun a ha => absurd ha (hover a)) hexecutes, hlast⟩
  | again hcell _ _ ihb ihl =>
    obtain ⟨op, hop, hover, hnext⟩ := hm.bracket hplaces hentry
    rw [if_neg hcell] at hnext
    obtain ⟨n, mid, hbody, hmid⟩ := ihb hplaces.loop_body .start hnext
    -- Behind the body stands the closing bracket, the other way into the loop.
    rw [Nat.add_right_comm] at hmid
    obtain ⟨k, last, hloop, hlast⟩ := ihl hplaces .close hmid
    obtain ⟨total, hall⟩ := hbody.trans hloop
    exact ⟨total + 1, last, .step hop (fun a ha => absurd ha (hover a)) hall, hlast⟩

/-- The steps that lead to a halt begin with those of an evaluation of the block
at which the machine stands. -/
theorem exists_evaluates {n : Nat} (hplaces : image.Places p block) (hentry : Entry p block k)
    (hm : Stands image k s m) (h : Executes (image.origin < ·) n m last)
    (hhalts : last.step.result = .ok .halted) :
    ∃ j ≤ n, ∃ t mid, Evaluates (image.origin < ·) block s t ∧
      Stands image (p + block.size) t mid ∧ Executes (image.origin < ·) j mid last := by
  -- Every case executes an instruction first, so the number of steps goes down; the tree need not,
  -- since a loop is evaluated again behind its body.
  induction n using Nat.strong_induction_on generalizing block p k s m with
  | _ n ih =>
    cases block with
    | done =>
      cases hentry
      exact ⟨n, le_rfl, s, m, .done, hm, h⟩
    | act action next =>
      cases hentry
      cases hperform : action.perform s with
      | none =>
        have hwait := hm.wait hplaces.opcode hperform
        cases h with
        | refl => simp [hwait] at hhalts
        | step hop => simp [hwait] at hop
      | some between =>
        obtain ⟨hop, hover, hnext⟩ := hm.act hplaces.opcode hperform
        obtain ⟨j, hj, hsafe, htail⟩ := h.tail hhalts hop
        obtain ⟨i, hi, t, mid, hevaluates, hmid, hrest⟩ :=
          ih j hj hplaces.act_next .start (hnext hsafe) htail
        rw [Block.add_size_act] at hmid
        have hwritable (hwrites : action.opcode.writes = true) : image.origin < s.ptr :=
          hsafe _ ((hover _).mpr ⟨hwrites, rfl⟩)
        exact ⟨i, by omega, t, mid, .act hperform hwritable hevaluates, hmid, hrest⟩
    | loop body next =>
      obtain ⟨op, hop, -, hnext⟩ := hm.bracket hplaces hentry
      obtain ⟨j, hj, -, htail⟩ := h.tail hhalts hop
      by_cases hcell : s.cell = 0
      · rw [if_pos hcell] at hnext
        obtain ⟨i, hi, t, mid, hevaluates, hmid, hrest⟩ :=
          ih j hj hplaces.loop_next .start hnext htail
        rw [Block.add_size_loop] at hmid
        exact ⟨i, by omega, t, mid, .skip hcell hevaluates, hmid, hrest⟩
      · rw [if_neg hcell] at hnext
        obtain ⟨i, hi, between, turn, hbody, hturn, hagain⟩ :=
          ih j hj hplaces.loop_body .start hnext htail
        rw [Nat.add_right_comm] at hturn
        obtain ⟨i', hi', t, mid, hloop, hmid, hrest⟩ := ih i (by omega) hplaces .close hturn hagain
        exact ⟨i', by omega, t, mid, .again hcell hbody hloop, hmid, hrest⟩

end

end Machine

namespace Image

variable (image : Image) (input : List UInt8)

/-- A machine whose memory holds the image and no more, with its input at hand
and an output that is never busy. -/
def machine : Machine Ram QueueInput BufferOutput :=
  .start image.ram ⟨input⟩ {}

def entry : State :=
  ⟨image.ram, image.dataStart, 0, input, []⟩

theorem stands_machine : (image.machine input).Stands image 0 (image.entry input) := by
  have horigin : (image.machine input).origin = none := rfl
  have hintact : image.Intact (image.machine input).memory := image.intact_ram
  have hboot := Machine.boot_of_intact horigin hintact
  constructor
  · rw [hboot]
  · rfl
  · exact hintact
  · rw [hboot]
    rfl
  · rw [hboot]
    rfl
  · rw [hboot]
    rfl

end Image

/-- Looking for brackets implements loops: the text of an image is a loop tree, and
a machine that is started on the image halts, without having written to the text
or the sentinel, exactly if the tree has an evaluation that does not, and in the
state where the evaluation ends. -/
theorem Image.run_halted_iff_evaluates (image : Image) (input : List UInt8) {τ : Type}
    (observe : τ → Journal → τ) (trace : τ) :
    ∃ block, Block.parse image.text = some block ∧ block.opcodes = image.text.map Opcode.decode ∧
      ∀ final, Evaluates (image.origin < ·) block (image.entry input) final ↔
        ∃ limit, ((image.machine input).run observe limit trace).result = .ok .halted ∧
          ((image.machine input).run observe limit trace).machine.view = final ∧
          ∀ s ∈ (image.machine input).runStarts limit, ∀ a, s.Overwrites a → image.origin < a := by
  obtain ⟨block, hparse, hops, hdepth⟩ := image.exists_block
  have hplaces : image.Places 0 block := ⟨hdepth, [], [], by simp [hops], rfl⟩
  have hsize : 0 + block.size = image.text.length := by simp [Block.size, hops]
  have hmachine := image.stands_machine input
  refine ⟨block, hparse, hops, fun final => ?_⟩
  rw [Machine.run_halted_iff (P := fun m => m.view = final)]
  constructor
  · intro hevaluates
    obtain ⟨n, last, hexecutes, hlast⟩ := Machine.exists_executes hevaluates hplaces .start hmachine
    rw [hsize] at hlast
    exact ⟨n, last, hexecutes, hlast.halt⟩
  · rintro ⟨n, last, hexecutes, hhalts, hview⟩
    obtain ⟨j, -, t, mid, hevaluates, hmid, hrest⟩ :=
      Machine.exists_evaluates hplaces .start hmachine hexecutes hhalts
    rw [hsize] at hmid
    obtain ⟨hhalted, hend⟩ := hmid.halt
    -- Behind the text the machine halts, so no step is left.
    cases hrest with
    | refl =>
      rw [hend] at hview
      exact hview ▸ hevaluates
    | step hop => simp [hhalted] at hop

end RingMachine

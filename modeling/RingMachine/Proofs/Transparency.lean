import RingMachine.Proofs.Comments
import RingMachine.Proofs.StepLimits
import RingMachine.Proofs.StructuredRun

/-!
# Comments are transparent

A program does the same with and without its comments, as long as it keeps to its data.
Without them the text is shorter, so the origin and all the data stand lower, and every
jump leads elsewhere; but at the same offset from the origin stands the same. The machine
without comments waits while the other passes over one, and does otherwise what the other
does, instruction by instruction.
-/

namespace RingMachine

-- ---------------------------------------------------------------------------
-- Data at another origin
-- ---------------------------------------------------------------------------

namespace Address

variable {a b c d origin other : Address}

theorem eq_of_offset (h : b - other = a - origin) (h' : d - other = c - origin) :
    b = d ↔ a = c := by
  have hval := congrArg Fin.val h
  have hval' := congrArg Fin.val h'
  simp only [Fin.val_sub] at hval hval'
  rw [Fin.ext_iff, Fin.ext_iff]
  omega

theorem offset_add_one (h : b - other = a - origin) : b + 1 - other = a + 1 - origin := by
  have hval := congrArg Fin.val h
  apply Fin.ext
  simp only [Fin.val_sub, Fin.val_add] at hval ⊢
  omega

theorem offset_sub_one (h : b - other = a - origin) : b - 1 - other = a - 1 - origin := by
  have hval := congrArg Fin.val h
  apply Fin.ext
  simp only [Fin.val_sub] at hval ⊢
  omega

theorem lt_of_offset (hle : other ≤ origin) (hlt : origin < a) (h : b - other = a - origin) :
    other < b := by
  have hval := congrArg Fin.val h
  simp only [Fin.val_sub] at hval
  rw [Fin.le_def] at hle
  rw [Fin.lt_def] at hlt ⊢
  omega

end Address

namespace State

/-- The states are the same but for where their data begin: behind one origin or behind
the other. All cells behind the first origin count as data. -/
structure Shifted (origin other : Address) (s t : State) : Prop where
  memory : ∀ a b, origin < a → b - other = a - origin → t.memory.get b = s.memory.get a
  ptr : t.ptr - other = s.ptr - origin
  tmp : t.tmp = s.tmp
  input : t.input = s.input
  output : t.output = s.output

namespace Shifted

variable {origin other : Address} {s t : State}

theorem cell (h : Shifted origin other s t) (hptr : origin < s.ptr) : t.cell = s.cell :=
  h.memory s.ptr t.ptr hptr h.ptr

theorem setCell (h : Shifted origin other s t) (byte : UInt8) :
    Shifted origin other (s.setCell byte) (t.setCell byte) := by
  refine ⟨fun a b ha hab => ?_, h.ptr, h.tmp, h.input, h.output⟩
  simp only [State.setCell, Ram.get_set, Address.eq_of_offset hab h.ptr, h.memory a b ha hab]

/-- An action that looks at nothing but data has the same effect on both, or none. -/
theorem perform (h : Shifted origin other s t) (hptr : origin < s.ptr) (action : Action) :
    (action.perform s = none ∧ action.perform t = none) ∨
    ∃ s' t', action.perform s = some s' ∧ action.perform t = some t' ∧
      Shifted origin other s' t' := by
  have hcell := h.cell hptr
  cases action with
  | incrementPointer =>
    exact .inr ⟨_, _, rfl, rfl, h.memory, Address.offset_add_one h.ptr, h.tmp, h.input, h.output⟩
  | decrementPointer =>
    exact .inr ⟨_, _, rfl, rfl, h.memory, Address.offset_sub_one h.ptr, h.tmp, h.input, h.output⟩
  | incrementCell =>
    refine .inr ⟨_, _, rfl, rfl, ?_⟩
    rw [hcell]
    exact h.setCell _
  | decrementCell =>
    refine .inr ⟨_, _, rfl, rfl, ?_⟩
    rw [hcell]
    exact h.setCell _
  | store => exact .inr ⟨_, _, rfl, rfl, h.memory, h.ptr, hcell, h.input, h.output⟩
  | load =>
    refine .inr ⟨_, _, rfl, rfl, ?_⟩
    rw [h.tmp]
    exact h.setCell _
  | output =>
    refine .inr ⟨_, _, rfl, rfl, h.memory, h.ptr, h.tmp, h.input, ?_⟩
    rw [h.output, hcell]
  | input =>
    have hinput := h.input
    cases hbytes : s.input with
    | nil => exact .inl ⟨by simp [Action.perform, hbytes], by simp [Action.perform, hinput, hbytes]⟩
    | cons byte rest =>
      have hset := h.setCell byte
      refine .inr ⟨{ s.setCell byte with input := rest }, { t.setCell byte with input := rest },
        by simp [Action.perform, hbytes], by simp [Action.perform, hinput, hbytes], ?_⟩
      exact ⟨hset.memory, hset.ptr, hset.tmp, rfl, hset.output⟩
  | nop => exact .inr ⟨s, t, rfl, rfl, h⟩

end Shifted

end State

theorem Image.shifted_entry (image : Image) (input : List UInt8) :
    State.Shifted image.origin image.uncommented.origin (image.entry input)
      (image.uncommented.entry input) := by
  refine ⟨fun a b ha hab => ?_, ?_, rfl, rfl, rfl⟩
  · have hb := Address.lt_of_offset image.origin_uncommented_le ha hab
    have hval := congrArg Fin.val hab
    simp only [Fin.val_sub, Fin.lt_def, val_origin] at ha hb hval
    obtain ⟨i, hi⟩ := Nat.exists_eq_add_of_le (Nat.succ_le_of_lt ha)
    obtain ⟨j, hj⟩ := Nat.exists_eq_add_of_le (Nat.succ_le_of_lt hb)
    obtain rfl : i = j := by omega
    have hcell := image.get_ram_data (i := i) (by omega)
    have hother := image.uncommented.get_ram_data (i := i) (by omega)
    rw [← Nat.succ_eq_add_one, ← hi, Address.ofIndex_val] at hcell
    rw [← Nat.succ_eq_add_one, ← hj, Address.ofIndex_val] at hother
    exact hother.trans hcell.symm
  · show image.uncommented.origin.next - image.uncommented.origin = image.origin.next - image.origin
    rw [Address.next_eq, Address.next_eq]
    exact Address.offset_add_one (by rw [Fin.sub_self, Fin.sub_self])

-- ---------------------------------------------------------------------------
-- Instructions reported
-- ---------------------------------------------------------------------------

def Event.opcode? : Event → Option Opcode
  | instruction _ byte => some (Opcode.decode byte)
  | _ => none

def Journal.opcodes (journal : Journal) : List Opcode :=
  journal.events.filterMap Event.opcode?

@[simp] theorem Journal.opcodes_append (first second : Journal) :
    (first ++ second).opcodes = first.opcodes ++ second.opcodes := by
  simp [opcodes]

def Step.opcodes : Step → List Opcode
  | executed op => [op]
  | blocked _ => []
  | halted => [.halt]

theorem Step.nop_notMem_opcodes {op : Opcode} (h : op ≠ .nop) : .nop ∉ (executed op).opcodes := by
  simpa [opcodes] using h.symm

namespace Machine

section
variable {μ ι ο : Type} [Memory μ]

theorem opcodes_boot (m : Machine μ ι ο) : m.boot.trace.opcodes = [] := by
  rcases m.boot_cases with ⟨_, -, hboot⟩ | ⟨-, -, hboot⟩ | ⟨-, _, -, hboot⟩ <;> rw [hboot] <;> rfl

variable [Input ι] [Output ο] {m : Machine μ ι ο} {step : Step}

theorem Outcome.tally {turn : Turn Step Journal μ ι ο} (h : Outcome m turn)
    (hresult : turn.result = .ok step) :
    turn.trace.opcodes = step.opcodes ∧ turn.machine.steps = m.steps + step.opcodes.length ∧
      turn.machine.origin = m.origin := by
  cases h with
  | retires hfetch | jumps hfetch | writes hfetch | takes hfetch | halts hfetch =>
    cases hresult
    exact ⟨congrArg (· :: []) hfetch, rfl, rfl⟩
  | fails => cases hresult
  | waitsForOutput | waitsForInput =>
    cases hresult
    exact ⟨rfl, rfl, rfl⟩

theorem step_tally {origin : Address} (hboot : m.boot.result = .ok origin)
    (hrunning : m.isHalted = false) (hresult : m.step.result = .ok step) :
    m.step.trace.opcodes = step.opcodes ∧ m.step.machine.steps = m.steps + step.opcodes.length ∧
      m.step.machine.origin = some origin := by
  obtain ⟨hexecuted, hmachine, htrace⟩ := step_of_located hboot hrunning
  obtain ⟨hopcodes, hsteps, horigin⟩ :=
    m.boot.machine.execute_outcome.tally (hexecuted.symm.trans hresult)
  rw [hmachine, htrace, Journal.opcodes_append, opcodes_boot, ← m.steps_boot]
  exact ⟨hopcodes, hsteps, horigin.trans (origin_boot hboot)⟩

theorem machine_of_blocked {m : Machine μ QueueInput BufferOutput} {port : Port}
    (h : m.step.result = .ok (.blocked port)) : m.step.machine = m.boot.machine := by
  rcases m.step_cases with ⟨-, hstep⟩ | ⟨-, -, -, hstep⟩ | ⟨-, _, turn, -, hturn, hstep⟩
  · rw [hstep] at h
    cases h
  · rw [hstep] at h
    cases h
  · rw [hstep] at h ⊢
    cases hturn with
    | waitsForInput | waitsForOutput => rfl
    | _ => cases h

end

-- ---------------------------------------------------------------------------
-- Steps with and without comments
-- ---------------------------------------------------------------------------

section
variable {image : Image} {k : Nat} {m n : Machine Ram QueueInput BufferOutput}
variable {journal other : Journal}

/-- The first machine stands in the text of an image and the second at the same place in
the text without its comments, with the same data. -/
structure Mirrors (image : Image) (k : Nat) (m n : Machine Ram QueueInput BufferOutput) : Prop where
  bound : k ≤ image.text.length
  one : Stands image k m.boot.machine.view m
  two : Stands image.uncommented (image.rank k) n.boot.machine.view n
  view : State.Shifted image.origin image.uncommented.origin m.boot.machine.view
    n.boot.machine.view

theorem Mirrors.of_stands {s t : State} (hbound : k ≤ image.text.length) (hone : Stands image k s m)
    (htwo : Stands image.uncommented (image.rank k) t n)
    (hview : State.Shifted image.origin image.uncommented.origin s t) : Mirrors image k m n := by
  obtain rfl := hone.view
  obtain rfl := htwo.view
  exact ⟨hbound, hone, htwo, hview⟩

theorem mirrors_machine (image : Image) (input : List UInt8) :
    Mirrors image 0 (image.machine input) (image.uncommented.machine input) :=
  .of_stands (Nat.zero_le _) (image.stands_machine input) (image.uncommented.stands_machine input)
    (image.shifted_entry input)

/-- What the second machine does when the first does a step: it waits for a comment, it
executes the same operation, or it ends in the same way. -/
inductive Matched (image : Image) (k : Nat) (m n : Machine Ram QueueInput BufferOutput) : Prop
  | comment (hone : m.step.result = .ok (.executed .nop))
      (hnext : Mirrors image (k + 1) m.step.machine n) : Matched image k m n
  | operation {op : Opcode} {next : Nat} (hop : op ≠ .nop)
      (hone : m.step.result = .ok (.executed op)) (htwo : n.step.result = .ok (.executed op))
      (hnext : Mirrors image next m.step.machine n.step.machine) : Matched image k m n
  | last {step : Step} (hend : step = .halted ∨ step = .blocked .input)
      (hone : m.step.result = .ok step) (htwo : n.step.result = .ok step)
      (hview : State.Shifted image.origin image.uncommented.origin m.step.machine.view
        n.step.machine.view) : Matched image k m n

theorem Stands.opcode {s : State} {op found : Opcode} (h : Stands image k s m)
    (hop : (image.text.map Opcode.decode)[k]? = some op)
    (hresult : m.step.result = .ok (.executed found)) : found = op := by
  obtain ⟨hexecuted, -⟩ := step_of_located h.located h.running
  have hfetch := m.boot.machine.execute_outcome.opcode (hexecuted.symm.trans hresult)
  exact hfetch.symm.trans (h.fetch hop)

theorem Mirrors.act {action : Action} (h : Mirrors image k m n)
    (hptr : image.origin < m.boot.machine.registers.ptr)
    (hop : (image.text.map Opcode.decode)[k]? = some action.opcode) : Matched image k m n := by
  have hlt : k < image.text.length := by
    obtain ⟨hlt, -⟩ := List.getElem?_eq_some_iff.mp hop
    simpa using hlt
  have hrank (hne : action.opcode ≠ .nop) :
      (image.uncommented.text.map Opcode.decode)[image.rank k]? = some action.opcode := by
    rw [image.decode_uncommented]
    exact Opcode.getElem?_rank hop hne
  rcases h.view.perform hptr action with ⟨hnone, hnone'⟩ | ⟨s, t, hs, ht, hnext⟩
  · have hne : action.opcode ≠ .nop := by
      cases action with
      | nop => cases hnone
      | _ => decide
    have hone := h.one.wait hop hnone
    have htwo := h.two.wait (hrank hne) hnone'
    refine .last (.inr rfl) hone htwo ?_
    rw [machine_of_blocked hone, machine_of_blocked htwo]
    exact h.view
  · obtain ⟨hone, hover, hstands⟩ := h.one.act hop hs
    have hstands := hstands fun a ha => ((hover a).mp ha).2 ▸ hptr
    by_cases hne : action.opcode = .nop
    · obtain rfl : action = .nop := by
        cases action with
        | nop => rfl
        | _ => cases hne
      cases hs
      refine .comment hone (.of_stands hlt hstands ?_ h.view)
      rw [Image.rank, Opcode.rank_comment hop]
      exact h.two
    · obtain ⟨htwo, hover', hstands'⟩ := h.two.act (hrank hne) ht
      have hptr' := Address.lt_of_offset image.origin_uncommented_le hptr h.view.ptr
      have hstands' := hstands' fun a ha => ((hover' a).mp ha).2 ▸ hptr'
      refine .operation hne hone htwo (.of_stands hlt hstands ?_ hnext)
      rw [Image.rank, Opcode.rank_succ hop hne]
      exact hstands'

theorem Mirrors.loopEnd {start : Nat} {body : Block} (h : Mirrors image k m n)
    (hptr : image.origin < m.boot.machine.registers.ptr)
    (hloop : Block.LoopAt (image.text.map Opcode.decode) start body)
    (hdepth : body.depth ≤ maxNesting) (hends : k = start ∨ k = start + body.size + 1) :
    Matched image k m n := by
  obtain ⟨hbare, hopen, hclose, hbehind⟩ := hloop.uncommented
  have hlast := hloop.lt_length
  obtain ⟨hfirst, hsecond⟩ := hloop.ends
  obtain ⟨hfirst', hsecond'⟩ := hbare.ends
  rw [← image.decode_uncommented] at hbare hfirst' hsecond'
  rw [List.length_map] at hlast
  have hends' : image.rank k = Opcode.rank (image.text.map Opcode.decode) start ∨
      image.rank k = Opcode.rank (image.text.map Opcode.decode) start + body.uncommented.size + 1 := by
    rcases hends with rfl | rfl
    · exact .inl rfl
    · exact .inr hclose
  obtain ⟨op, hone, -, hstands⟩ := h.one.loopEnd hloop hdepth hends
  obtain ⟨op', htwo, -, hstands'⟩ :=
    h.two.loopEnd hbare (body.depth_uncommented.trans_le hdepth) hends'
  have hsame : op' = op ∧ op ≠ .nop := by
    rcases hends with rfl | rfl
    · obtain rfl := h.one.opcode hfirst hone
      exact ⟨h.two.opcode hfirst' htwo, by decide⟩
    · obtain rfl := h.one.opcode hsecond hone
      rw [← hclose] at hsecond'
      exact ⟨h.two.opcode hsecond' htwo, by decide⟩
  obtain ⟨rfl, hne⟩ := hsame
  rw [h.view.cell hptr] at hstands'
  by_cases hcell : m.boot.machine.view.cell = 0
  · rw [if_pos hcell] at hstands hstands'
    refine .operation hne hone htwo (.of_stands (Nat.succ_le_of_lt hlast) hstands ?_ h.view)
    rw [Image.rank, hbehind]
    exact hstands'
  · rw [if_neg hcell] at hstands hstands'
    refine .operation hne hone htwo (.of_stands (by omega) hstands ?_ h.view)
    rw [Image.rank, hopen]
    exact hstands'

theorem Mirrors.halt (h : Mirrors image image.text.length m n) :
    Matched image image.text.length m n := by
  obtain ⟨hone, hview⟩ := h.one.halt
  have htwo := h.two
  rw [image.rank_length] at htwo
  obtain ⟨htwo, hview'⟩ := htwo.halt
  refine .last (.inl rfl) hone htwo ?_
  rw [hview, hview']
  exact h.view

theorem Mirrors.step (h : Mirrors image k m n)
    (hptr : image.origin < m.boot.machine.registers.ptr) : Matched image k m n := by
  rcases Nat.lt_or_eq_of_le h.bound with hlt | rfl
  · rcases image.text_cases hlt with ⟨action, hop⟩ | ⟨start, body, hloop, hdepth, hends⟩
    · exact h.act hptr hop
    · exact h.loopEnd hptr hloop hdepth hends
  · exact h.halt

-- ---------------------------------------------------------------------------
-- Runs with and without comments
-- ---------------------------------------------------------------------------

/-- The second machine has reported the operations that the first has, and has counted
only those. -/
structure Tallies (m n : Machine Ram QueueInput BufferOutput) (journal other : Journal) : Prop where
  opcodes : other.opcodes = Opcode.operations journal.opcodes
  steps : m.steps = n.steps + journal.opcodes.count .nop

/-- The turns end alike, with the same data, after the same operations. A run that was
stopped at once, or on comments only, may not have booted yet; one that ended has. -/
structure Agrees (image : Image) (one two : Turn RunExit Journal Ram QueueInput BufferOutput) :
    Prop where
  result : two.result = one.result
  tallies : Tallies one.machine two.machine one.trace two.trace
  view : State.Shifted image.origin image.uncommented.origin one.machine.boot.machine.view
    two.machine.boot.machine.view
  ended : one.result ≠ .ok .stepLimit →
    one.machine.origin = some image.origin ∧
      two.machine.origin = some image.uncommented.origin ∧
      State.Shifted image.origin image.uncommented.origin one.machine.view two.machine.view

theorem Mirrors.tallies_comment (h : Mirrors image k m n) (ht : Tallies m n journal other)
    (hone : m.step.result = .ok (.executed .nop)) :
    Tallies m.step.machine n (journal ++ m.step.trace) other := by
  obtain ⟨hopcodes, hsteps, -⟩ := step_tally h.one.located h.one.running hone
  constructor
  · simp [hopcodes, ht.opcodes, Opcode.operations, Step.opcodes]
  · simp [hopcodes, hsteps, ht.steps, Step.opcodes]
    omega

theorem Mirrors.tallies_step {step : Step} (h : Mirrors image k m n) (ht : Tallies m n journal other)
    (hop : .nop ∉ step.opcodes) (hone : m.step.result = .ok step) (htwo : n.step.result = .ok step) :
    Tallies m.step.machine n.step.machine (journal ++ m.step.trace) (other ++ n.step.trace) := by
  obtain ⟨hopcodes, hsteps, -⟩ := step_tally h.one.located h.one.running hone
  obtain ⟨hopcodes', hsteps', -⟩ := step_tally h.two.located h.two.running htwo
  have hall : Opcode.operations step.opcodes = step.opcodes := by
    rw [Opcode.operations, List.filter_eq_self]
    intro op hmem
    simpa using ne_of_mem_of_not_mem hmem hop
  constructor
  · simp [hopcodes, hopcodes', ht.opcodes, hall]
  · rw [hsteps, hsteps', ht.steps, Journal.opcodes_append, hopcodes, List.count_append,
      List.count_eq_zero.mpr hop]
    omega

def KeepsToData (image : Image) (m : Machine Ram QueueInput BufferOutput) (limit : Nat) : Prop :=
  ∀ s ∈ m.runStarts limit, image.origin < s.boot.machine.registers.ptr

theorem KeepsToData.first {limit : Nat} (h : KeepsToData image m (limit + 1)) :
    image.origin < m.boot.machine.registers.ptr := by
  apply h m
  rcases m.run_succ (fun _ _ => ()) limit () with ⟨_, -, -, hstarts⟩ | ⟨_, -, -, -, hstarts⟩
  · simp [hstarts]
  · simp [hstarts]

theorem KeepsToData.next {limit : Nat} {op : Opcode} (h : KeepsToData image m (limit + 1))
    (hop : m.step.result = .ok (.executed op)) : KeepsToData image m.step.machine limit := by
  intro s hs
  apply h s
  rw [(run_step (fun _ _ => ()) limit () hop).2]
  exact List.mem_cons_of_mem m hs

theorem Mirrors.agrees_last {step : Step} (h : Mirrors image k m n) (ht : Tallies m n journal other)
    (hend : step = .halted ∨ step = .blocked .input) (hone : m.step.result = .ok step)
    (htwo : n.step.result = .ok step)
    (hview : State.Shifted image.origin image.uncommented.origin m.step.machine.view
      n.step.machine.view) (limit limit' : Nat) :
    Agrees image (m.run (· ++ ·) (limit + 1) journal) (n.run (· ++ ·) (limit' + 1) other) := by
  have hop : .nop ∉ step.opcodes := by rcases hend with rfl | rfl <;> decide
  obtain ⟨-, -, horigin⟩ := step_tally h.one.located h.one.running hone
  obtain ⟨-, -, horigin'⟩ := step_tally h.two.located h.two.running htwo
  have hexit : ∃ result, RunExit.ofStep? (.ok step) = some result := by
    rcases hend with rfl | rfl <;> exact ⟨_, rfl⟩
  obtain ⟨result, hexit⟩ := hexit
  rw [run_succ_eq, run_succ_eq, hone, htwo, hexit]
  refine ⟨rfl, h.tallies_step ht hop hone htwo, ?_, fun _ => ⟨horigin, horigin', hview⟩⟩
  show State.Shifted _ _ m.step.machine.boot.machine.view n.step.machine.boot.machine.view
  rw [boot_of_origin horigin, boot_of_origin horigin']
  exact hview

theorem Mirrors.run (h : Mirrors image k m n) (ht : Tallies m n journal other) {limit : Nat}
    (hdata : KeepsToData image m limit) :
    ∃ limit', Agrees image (m.run (· ++ ·) limit journal) (n.run (· ++ ·) limit' other) := by
  induction limit generalizing k m n journal other with
  | zero => exact ⟨0, rfl, ht, h.view, fun hne => absurd rfl hne⟩
  | succ limit ih =>
    cases h.step hdata.first with
    | comment hone hnext =>
      rw [(run_step (· ++ ·) limit journal hone).1]
      exact ih hnext (h.tallies_comment ht hone) (hdata.next hone)
    | operation hop hone htwo hnext =>
      have htallies := h.tallies_step ht (Step.nop_notMem_opcodes hop) hone htwo
      obtain ⟨limit', hagrees⟩ := ih hnext htallies (hdata.next hone)
      refine ⟨limit' + 1, ?_⟩
      rw [(run_step (· ++ ·) limit journal hone).1, (run_step (· ++ ·) limit' other htwo).1]
      exact hagrees
    | last hend hone htwo hview => exact ⟨1, h.agrees_last ht hend hone htwo hview limit 0⟩

theorem Mirrors.run_back (h : Mirrors image k m n) (ht : Tallies m n journal other)
    (hdata : ∀ limit, KeepsToData image m limit) (limit' : Nat) :
    ∃ limit, Agrees image (m.run (· ++ ·) limit journal) (n.run (· ++ ·) limit' other) := by
  induction limit' generalizing k m n journal other with
  | zero => exact ⟨0, rfl, ht, h.view, fun hne => absurd rfl hne⟩
  | succ limit' ih =>
    -- Comments bring the first machine forward in its text, so there is an end to them.
    induction hgap : image.text.length - k using Nat.strong_induction_on generalizing k m journal with
    | _ gap skip =>
      cases h.step (hdata 1).first with
      | comment hone hnext =>
        have hbound := hnext.bound
        obtain ⟨limit, hagrees⟩ := skip _ (by omega) hnext (h.tallies_comment ht hone)
          (fun limit => (hdata (limit + 1)).next hone) rfl
        refine ⟨limit + 1, ?_⟩
        rw [(run_step (· ++ ·) limit journal hone).1]
        exact hagrees
      | operation hop hone htwo hnext =>
        have htallies := h.tallies_step ht (Step.nop_notMem_opcodes hop) hone htwo
        obtain ⟨limit, hagrees⟩ := ih hnext htallies fun limit => (hdata (limit + 1)).next hone
        refine ⟨limit + 1, ?_⟩
        rw [(run_step (· ++ ·) limit journal hone).1, (run_step (· ++ ·) limit' other htwo).1]
        exact hagrees
      | last hend hone htwo hview => exact ⟨1, h.agrees_last ht hend hone htwo hview 0 limit'⟩

end

end Machine

/-- Comments make no difference. If a text and its data make an image, so do the text
without its comments and the same data. As long as the program keeps to its data, runs of
the two images correspond, both ways: they end alike, having executed the same operations,
with the same input left, the same output and the same data at the same offsets from the
origin, and the number of steps differs by the comments that were passed over. A run
without a limit ends with comments if and only if it does so without them. -/
theorem Image.comments_transparent {text data : List UInt8} {plain image : Image}
    (htext : ofText text = .ok plain) (hdata : plain.withData data = .ok image) :
    ∃ bare, ofText (Program.uncommented text) = .ok bare ∧
      bare.withData data = .ok image.uncommented ∧
      ∀ input : List UInt8,
        (∀ limit, (image.machine input).KeepsToData image limit →
          ∃ limit', Machine.Agrees image ((image.machine input).run (· ++ ·) limit {})
            ((image.uncommented.machine input).run (· ++ ·) limit' {})) ∧
        ((∀ limit, (image.machine input).KeepsToData image limit) →
          (∀ limit', ∃ limit, Machine.Agrees image ((image.machine input).run (· ++ ·) limit {})
            ((image.uncommented.machine input).run (· ++ ·) limit' {})) ∧
          (∀ one, Machine.Ends (· ++ ·) {} (image.machine input) one →
            ∃ two, Machine.Ends (· ++ ·) {} (image.uncommented.machine input) two ∧
              Machine.Agrees image one two) ∧
          ∀ two, Machine.Ends (· ++ ·) {} (image.uncommented.machine input) two →
            ∃ one, Machine.Ends (· ++ ·) {} (image.machine input) one ∧
              Machine.Agrees image one two) := by
  obtain ⟨bare, hbare, hbareData⟩ := uncommented_of_loaded htext hdata
  refine ⟨bare, hbare, hbareData, fun input => ?_⟩
  have hmirrors := Machine.mirrors_machine image input
  have htallies : Machine.Tallies (image.machine input) (image.uncommented.machine input) {} {} :=
    ⟨rfl, rfl⟩
  refine ⟨fun limit hkeeps => hmirrors.run htallies hkeeps, fun hkeeps => ⟨?_, ?_, ?_⟩⟩
  · exact hmirrors.run_back htallies hkeeps
  · intro one hone
    obtain ⟨hended, limit, rfl⟩ := hone.exists_limit
    obtain ⟨limit', hagrees⟩ := hmirrors.run htallies (hkeeps limit)
    rw [← hagrees.result] at hended
    exact ⟨_, Machine.ends_run hended, hagrees⟩
  · intro two htwo
    obtain ⟨hended, limit', rfl⟩ := htwo.exists_limit
    obtain ⟨limit, hagrees⟩ := hmirrors.run_back htallies hkeeps limit'
    rw [hagrees.result] at hended
    exact ⟨_, Machine.ends_run hended, hagrees⟩

/-- Counts a byte down to zero, with a comment before the loop and one in it. -/
def countdownImage : Image where
  text := [0x2c, 0x20, 0x5b, 0x23, 0x2e, 0x2d, 0x5d]
  data := []
  checked := rfl
  fits := by decide

def countdownRun : Turn RunExit Journal Ram QueueInput BufferOutput :=
  (countdownImage.machine [2]).run (· ++ ·) 20 {}

/-- Of twelve steps, three pass over comments. -/
theorem Image.comments_transparent_countdown :
    (countdownImage.machine [2]).KeepsToData countdownImage 20 ∧
      countdownRun.result = .ok .halted ∧ countdownRun.machine.steps = 12 ∧
      ∃ limit', ((countdownImage.uncommented.machine [2]).run (· ++ ·) limit'
          ({} : Journal)).result = .ok .halted ∧
        ((countdownImage.uncommented.machine [2]).run (· ++ ·) limit'
          ({} : Journal)).machine.steps = 9 ∧
        ((countdownImage.uncommented.machine [2]).run (· ++ ·) limit'
          ({} : Journal)).machine.output.bytes.toList = [2, 1] := by
  have hkeeps : (countdownImage.machine [2]).KeepsToData countdownImage 20 := by
    unfold Machine.KeepsToData
    decide +kernel
  have hhalted : countdownRun.result = .ok .halted := by decide +kernel
  have hsteps : countdownRun.machine.steps = 12 := by decide +kernel
  have hnops : countdownRun.trace.opcodes.count .nop = 3 := by decide +kernel
  have hload : Image.ofText countdownImage.text = .ok countdownImage :=
    ofText_eq_ok_iff.mpr ⟨rfl, rfl⟩
  have hdata : countdownImage.withData [] = .ok countdownImage :=
    withData_eq_ok_iff.mpr ⟨rfl, rfl⟩
  obtain ⟨-, -, -, hruns⟩ := Image.comments_transparent hload hdata
  obtain ⟨limit', hagrees⟩ : ∃ limit', Machine.Agrees countdownImage countdownRun
      ((countdownImage.uncommented.machine [2]).run (· ++ ·) limit' {}) := (hruns [2]).1 20 hkeeps
  have hended := hagrees.ended (by rw [hhalted]; simp)
  have htotal := hagrees.tallies.steps
  have houtput : countdownRun.machine.view.output = [2, 1] := by decide +kernel
  rw [hsteps, hnops] at htotal
  refine ⟨hkeeps, hhalted, hsteps, limit', hagrees.result.trans hhalted, by omega, ?_⟩
  exact hended.2.2.output.trans houtput

end RingMachine

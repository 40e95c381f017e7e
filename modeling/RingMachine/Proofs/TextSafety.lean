import RingMachine.Proofs.BracketScan
import RingMachine.Proofs.Session

/-!
# A checked program stays in its text

As long as the text of an image and its sentinel are intact at the start of every
step, a machine that was started on the image neither fails nor leaves its text,
whatever its devices and its host do, and if it halts it does so on the sentinel.
On plain memory they are intact unless an instruction has written over them.
-/

namespace RingMachine

theorem Block.ne_halt_of_mem {block : Block} {op : Opcode} (h : op ∈ block.opcodes) :
    op ≠ .halt := by
  induction block with
  | done => simp [opcodes] at h
  | act action next ih =>
    rcases List.mem_cons.mp h with rfl | h
    · cases action <;> decide
    · exact ih h
  | loop body next ihb ihn =>
    simp only [opcodes, List.mem_cons, List.mem_append] at h
    rcases h with rfl | h | rfl | h
    · decide
    · exact ihb h
    · decide
    · exact ihn h

-- ---------------------------------------------------------------------------
-- Intact text
-- ---------------------------------------------------------------------------

namespace Image

theorem exists_block (image : Image) : ∃ block, Block.parse image.text = some block ∧
    block.opcodes = image.text.map Opcode.decode ∧ block.depth ≤ maxNesting := by
  obtain ⟨block, hparse, hdepth⟩ := Program.parse_of_check image.checked
  exact ⟨block, hparse, Block.parse_eq_some_iff.mp hparse, hdepth⟩

theorem text_cases (image : Image) {k : Nat} (hk : k < image.text.length) :
    (∃ action : Action, (image.text.map Opcode.decode)[k]? = some action.opcode) ∨
    ∃ start body, Block.LoopAt (image.text.map Opcode.decode) start body ∧
      body.depth ≤ maxNesting ∧ (k = start ∨ k = start + body.size + 1) := by
  obtain ⟨block, -, hops, hdepth⟩ := image.exists_block
  have hlt : k < block.opcodes.length := by simpa [hops] using hk
  have hop := List.getElem?_eq_getElem hlt
  rw [← hops]
  have hbracket (hbracket : block.opcodes[k] = .loopOpen ∨ block.opcodes[k] = .loopClose) :
      ∃ start body, Block.LoopAt block.opcodes start body ∧
        body.depth ≤ maxNesting ∧ (k = start ∨ k = start + body.size + 1) := by
    obtain ⟨start, body, hloop, hbody, hends⟩ := Block.loopAt_of_bracket hop hbracket
    exact ⟨start, body, hloop, by omega, hends.imp And.right And.right⟩
  rcases (block.opcodes[k]).role_cases with hrole | hrole | hrole | ⟨action, hrole⟩
  · exact absurd hrole (Block.ne_halt_of_mem (List.getElem_mem hlt))
  · exact .inr (hbracket (.inl hrole))
  · exact .inr (hbracket (.inr hrole))
  · exact .inl ⟨action, by rw [hop, hrole]⟩

theorem ofIndex_le_origin {image : Image} {k : Nat} (h : k ≤ image.text.length) :
    Address.ofIndex k ≤ image.origin := by
  have := image.length_lt
  rw [Fin.le_def, val_origin, Address.val_ofIndex_of_lt (by omega)]
  exact h

variable {μ : Type} [Memory μ] {image : Image} {memory : μ}

theorem Intact.stored (h : image.Intact memory) : Stored memory 0 image.text :=
  h.append_left

theorem Intact.decode (h : image.Intact memory) {k : Nat} {op : Opcode}
    (hop : (image.text.map Opcode.decode)[k]? = some op) :
    Opcode.decode (Memory.read memory (.ofIndex k)) = op := by
  rw [List.getElem?_map, Option.map_eq_some_iff] at hop
  obtain ⟨byte, hbyte, rfl⟩ := hop
  rw [← Nat.zero_add k, h.stored k byte hbyte]

theorem Intact.read_origin (h : image.Intact memory) :
    Memory.read memory image.origin = sentinel := by
  have := Stored.read h
  rwa [Nat.zero_add] at this

theorem Intact.findSentinel (h : image.Intact memory) :
    Memory.findSentinel memory = some image.origin := by
  rw [Memory.findSentinel_eq_some_iff]
  refine ⟨h.read_origin, fun b hb hsentinel => ?_⟩
  obtain ⟨block, -, hops, -⟩ := image.exists_block
  rw [Fin.lt_def, val_origin] at hb
  have hlt : b.val < (image.text.map Opcode.decode).length := by simpa using hb
  have hop := h.decode (List.getElem?_eq_getElem hlt)
  rw [Address.ofIndex_val, hsentinel] at hop
  have hmem := List.getElem_mem hlt
  rw [← hop, ← hops] at hmem
  exact Block.ne_halt_of_mem hmem rfl

end Image

namespace Machine

variable {μ ι ο : Type} [Memory μ] {m : Machine μ ι ο} {image : Image}

structure Within (image : Image) (m : Machine μ ι ο) : Prop where
  pc_le : m.registers.pc ≤ image.origin
  pc_of_halted : m.isHalted = true → m.registers.pc = image.origin

/-- What a session preserves: the machine has not begun and the image is intact,
or it has located the program of the image and has not left it. -/
def Confined (image : Image) (m : Machine μ ι ο) : Prop :=
  (m.origin = none ∧ m.registers = {} ∧ image.Intact m.memory) ∨
    (m.origin = some image.origin ∧ Within image m)

theorem Confined.within (h : Confined image m) : Within image m := by
  rcases h with ⟨-, hregisters, -⟩ | ⟨-, hwithin⟩
  · constructor
    · rw [hregisters]
      exact Fin.zero_le _
    · intro hhalted
      simp [isHalted, hregisters] at hhalted
  · exact hwithin

theorem boot_of_intact (horigin : m.origin = none) (hintact : image.Intact m.memory) :
    m.boot = ⟨.ok image.origin,
      { m with registers := m.registers.boot image.origin, origin := some image.origin },
      { events := [.boot image.origin] }⟩ := by
  simp [boot, horigin, hintact.findSentinel]

theorem Confined.boot (h : Confined image m) :
    m.boot.result = .ok image.origin ∧ m.boot.machine.origin = some image.origin ∧
      Within image m.boot.machine := by
  rcases h with ⟨horigin, hregisters, hintact⟩ | ⟨horigin, hwithin⟩
  · rw [boot_of_intact horigin hintact, hregisters]
    refine ⟨rfl, rfl, Fin.zero_le _, ?_⟩
    simp [isHalted, Registers.boot]
  · rw [boot_of_origin horigin]
    exact ⟨rfl, horigin, hwithin⟩

theorem Confined.adjust (h : Confined image m) (input : ι → ι) (output : ο → ο) :
    Confined image (m.adjust input output) :=
  h.imp id (And.imp_right fun hwithin => ⟨hwithin.pc_le, hwithin.pc_of_halted⟩)

-- ---------------------------------------------------------------------------
-- Steps
-- ---------------------------------------------------------------------------

variable [Input ι] [Output ο]

/-- Whichever end of a loop a machine stands at, it goes on behind the loop if the
cell is zero, and at the body otherwise. -/
theorem execute_bracket {start : Nat} {body : Block} (hintact : image.Intact m.memory)
    (hloop : Block.LoopAt (image.text.map Opcode.decode) start body) (hdepth : body.depth ≤ maxNesting)
    (hpc : m.registers.pc = .ofIndex start ∨ m.registers.pc = .ofIndex (start + body.size + 1)) :
    ∃ op depth, op.writes = false ∧ m.execute.result = .ok (.executed op) ∧
      m.execute.machine = (m.setDepth depth).goTo
        (.ofIndex (if m.cell = 0 then start + body.size + 2 else start + 1)) := by
  obtain ⟨hopen, -, hclose⟩ := hloop.holds hintact.stored
  obtain ⟨hforward, hbackward⟩ := hloop.finds hdepth image.length_lt.le hintact.stored
  rcases hpc with hpc | hpc
  · rw [← hpc] at hopen hforward
    rw [execute_loopOpen hopen]
    split
    · rw [leap_of_finds _ hforward, Address.next_ofIndex]
      exact ⟨_, 0, rfl, rfl, rfl⟩
    · refine ⟨_, m.registers.depth, rfl, rfl, ?_⟩
      simp only [retire, advance, hpc, Address.next_ofIndex]
      rfl
  · rw [← hpc] at hclose hbackward
    rw [execute_loopClose hclose]
    split
    · refine ⟨_, m.registers.depth, rfl, rfl, ?_⟩
      simp only [retire, advance, hpc, Address.next_ofIndex]
      rfl
    · rw [leap_of_finds _ hbackward, Address.next_ofIndex]
      exact ⟨_, 0, rfl, rfl, rfl⟩

theorem execute_of_intact (hintact : image.Intact m.memory) (hpc : m.registers.pc ≤ image.origin)
    (hrunning : m.isHalted = false) :
    Within image m.execute.machine ∧ m.execute.machine.origin = m.origin ∧
      ∃ step, m.execute.result = .ok step := by
  -- Unless the machine halts, it is enough to know where it goes on.
  have hmoves {next : Machine μ ι ο} {k : Nat} (hk : k ≤ image.text.length)
      (hnext : next.registers.pc = .ofIndex k)
      (hstatus : next.registers.status = m.registers.status) : Within image next := by
    constructor
    · rw [hnext]
      exact Image.ofIndex_le_origin hk
    · intro hhalted
      rw [isHalted, hstatus] at hhalted
      rw [isHalted, hhalted] at hrunning
      cases hrunning
  generalize hk : m.registers.pc.val = k at *
  have hindex : m.registers.pc = .ofIndex k := by rw [← hk, Address.ofIndex_val]
  rw [Fin.le_def, hk, Image.val_origin] at hpc
  rcases Nat.lt_or_eq_of_le hpc with hlt | rfl
  · rcases image.text_cases hlt with ⟨action, haction⟩ | ⟨start, body, hloop, hdepth, hends⟩
    · have hfetch : Opcode.decode m.fetch = action.opcode := by
        rw [fetch, hindex]
        exact hintact.decode haction
      rcases execute_action hfetch with ⟨port, hwaits⟩ | hpasses
      · refine ⟨hmoves hpc ?_ ?_, hwaits.origin, _, hwaits.result⟩
        · rw [hwaits.registers, hindex]
        · rw [hwaits.registers]
      · refine ⟨hmoves hlt ?_ hpasses.status, hpasses.origin, _, hpasses.result⟩
        rw [hpasses.pc, hindex, Address.next_ofIndex]
    · have hlast := hloop.lt_length
      rw [List.length_map] at hlast
      have hpc : m.registers.pc = .ofIndex start ∨
          m.registers.pc = .ofIndex (start + body.size + 1) := by
        rw [hindex]
        exact hends.imp (congrArg _) (congrArg _)
      obtain ⟨op, depth, -, hresult, hmachine⟩ := execute_bracket hintact hloop hdepth hpc
      rw [hmachine, hresult]
      refine ⟨hmoves ?_ rfl rfl, rfl, _, rfl⟩
      split <;> omega
  · have hfetch : Opcode.decode m.fetch = .halt := by
      rw [fetch, hindex, Opcode.decode_eq_halt]
      exact hintact.read_origin
    rw [execute_halt hfetch]
    exact ⟨⟨Fin.le_of_eq hindex, fun _ => hindex⟩, rfl, _, rfl⟩

theorem Confined.step (h : Confined image m) (hintact : image.Intact m.memory) :
    Confined image m.step.machine ∧ ∃ step, m.step.result = .ok step := by
  cases hhalted : m.isHalted with
  | true =>
    rw [step_of_halted hhalted]
    exact ⟨h, _, rfl⟩
  | false =>
    obtain ⟨hresult, horigin, hwithin⟩ := h.boot
    obtain ⟨hstep, hmachine, -⟩ := step_of_located hresult hhalted
    rw [← memory_boot] at hintact
    obtain ⟨hafter, hkept, hok⟩ :=
      execute_of_intact hintact hwithin.pc_le (isHalted_boot.trans hhalted)
    rw [hstep, hmachine]
    exact ⟨.inr ⟨hkept.trans horigin, hafter⟩, hok⟩

-- ---------------------------------------------------------------------------
-- Sessions
-- ---------------------------------------------------------------------------

theorem session_of_intact {requests : List (Request ι ο)} (h : Confined image m)
    (hintact : ∀ s ∈ m.sessionStarts requests, image.Intact s.memory) :
    (∀ s ∈ m.sessionStarts requests, Within image s) ∧
      ∀ turn ∈ m.turns requests,
        (∃ answer, turn.result = .ok answer) ∧ Within image turn.machine := by
  have hboot (s : Machine μ ι ο) (h : Confined image s) :
      Confined image s.boot.machine ∧ ∃ origin, s.boot.result = .ok origin := by
    obtain ⟨hresult, horigin, hwithin⟩ := h.boot
    exact ⟨.inr ⟨horigin, hwithin⟩, _, hresult⟩
  have hadjust (s : Machine μ ι ο) (input : ι → ι) (output : ο → ο) (h : Confined image s) :=
    h.adjust input output
  have hstep : ∀ s ∈ m.sessionStarts requests, Confined image s →
      Confined image s.step.machine ∧ ∃ step, s.step.result = .ok step :=
    fun s hs h => h.step (hintact s hs)
  obtain ⟨hstarts, hturns⟩ :=
    session_induction h (fun s h => (hboot s h).1) hadjust fun s hs h => (hstep s hs h).1
  have hanswers := session_answers h hboot hadjust hstep
  exact ⟨fun s hs => (hstarts s hs).within,
    fun turn hturn => ⟨hanswers turn hturn, (hturns turn hturn).within⟩⟩

theorem intact_step {m : Machine Ram ι ο} (h : image.Intact m.memory)
    (hkeeps : ∀ a ≤ image.origin, ¬ m.Overwrites a) : image.Intact m.step.machine.memory := by
  intro k byte hk
  have hlt : k ≤ image.text.length := by
    obtain ⟨hlt, -⟩ := List.getElem?_eq_some_iff.mp hk
    simp only [List.length_append, List.length_singleton] at hlt
    omega
  have hread := h k byte hk
  rw [Nat.zero_add, Ram.read_eq_get] at hread ⊢
  rw [get_step (hkeeps _ (Image.ofIndex_le_origin hlt)), hread]

theorem intact_session {m : Machine Ram ι ο} {requests : List (Request ι ο)}
    (h : image.Intact m.memory)
    (hkeeps : ∀ s ∈ m.sessionStarts requests, ∀ a ≤ image.origin, ¬ s.Overwrites a) :
    (∀ s ∈ m.sessionStarts requests, image.Intact s.memory) ∧
      ∀ turn ∈ m.turns requests, image.Intact turn.machine.memory := by
  apply session_induction (P := fun s => image.Intact s.memory) h
  · intro s hs
    rw [memory_boot]
    exact hs
  · intro s input output hs
    exact hs
  · intro s hs hintact
    exact intact_step hintact (hkeeps s hs)

/-- A session on an image neither fails nor leaves the text while the text and
the sentinel are intact at the start of every step; and on plain memory, into
which the image was loaded, they are as long as nothing is written over them. -/
theorem session_within_text (image : Image) :
    (∀ {μ ι ο : Type} [Memory μ] [Input ι] [Output ο] (memory : μ) (input : ι) (output : ο)
        (requests : List (Request ι ο)), image.Intact memory →
      (∀ s ∈ (start memory input output).sessionStarts requests, image.Intact s.memory) →
      (∀ s ∈ (start memory input output).sessionStarts requests, Within image s) ∧
      ∀ turn ∈ (start memory input output).turns requests,
        (∃ answer, turn.result = .ok answer) ∧ Within image turn.machine) ∧
    (image.Intact image.ram ∧ ∀ prior : Ram, image.Intact (image.load prior)) ∧
    ∀ {ι ο : Type} [Input ι] [Output ο] (ram : Ram) (input : ι) (output : ο)
        (requests : List (Request ι ο)), image.Intact ram →
      (∀ s ∈ (start ram input output).sessionStarts requests,
        ∀ a ≤ image.origin, ¬ s.Overwrites a) →
      (∀ s ∈ (start ram input output).sessionStarts requests, image.Intact s.memory) ∧
      ∀ turn ∈ (start ram input output).turns requests, image.Intact turn.machine.memory := by
  refine ⟨?_, ⟨image.intact_ram, image.intact_load⟩, ?_⟩
  · intro μ ι ο _ _ _ memory input output requests hloaded hintact
    exact session_of_intact (.inl ⟨rfl, rfl, hloaded⟩) hintact
  · intro ι ο _ _ ram input output requests hloaded hkeeps
    exact intact_session hloaded hkeeps

/-- A loop that goes round twice and counts the first data cell down to zero. -/
def drainingImage : Image where
  text := [0x2b, 0x2b, 0x5b, 0x2d, 0x5d]
  data := []
  checked := rfl
  fits := by decide

def drainingMachine : Machine Ram NoInput BufferOutput :=
  start drainingImage.ram .closed {}

/-- The data pointer stays behind the sentinel, so the run does not write to the text, and
it halts on the sentinel. -/
theorem session_within_text_draining :
    (∀ s ∈ drainingMachine.sessionStarts [.adjust id id, .run 9],
      ∀ a ≤ drainingImage.origin, ¬ s.Overwrites a) ∧
    (∀ turn ∈ drainingMachine.turns [.adjust id id, .run 9],
      (∃ answer, turn.result = .ok answer) ∧ Within drainingImage turn.machine) ∧
    (drainingMachine.sessionStarts [.adjust id id, .run 9]).length = 8 ∧
    (drainingMachine.after [.adjust id id, .run 9]).isHalted = true ∧
    (drainingMachine.after [.adjust id id, .run 9]).registers.pc = drainingImage.origin := by
  obtain ⟨hsafe, ⟨hram, -⟩, hkept⟩ := session_within_text drainingImage
  have hptr : ∀ s ∈ drainingMachine.sessionStarts [.adjust id id, .run 9],
      s.boot.machine.registers.ptr = 6 := by
    decide +kernel
  have hkeeps : ∀ s ∈ drainingMachine.sessionStarts [.adjust id id, .run 9],
      ∀ a ≤ drainingImage.origin, ¬ s.Overwrites a := by
    rintro s hs a ha ⟨op, -, -, hover⟩
    obtain rfl : 6 = a := (hptr s hs).symm.trans hover
    exact absurd ha (by decide)
  obtain ⟨hintact, -⟩ := hkept drainingImage.ram NoInput.closed ({} : BufferOutput) _ hram hkeeps
  obtain ⟨-, hturns⟩ := hsafe drainingImage.ram NoInput.closed ({} : BufferOutput) _ hram hintact
  have hhalted : (drainingMachine.after [.adjust id id, .run 9]).isHalted = true := by
    decide +kernel
  have hwithin : Within drainingImage (drainingMachine.after [.adjust id id, .run 9]) :=
    (hturns _ (List.mem_cons_of_mem _ List.mem_cons_self)).2
  exact ⟨hkeeps, hturns, by decide +kernel, hhalted, hwithin.pc_of_halted hhalted⟩

end Machine

end RingMachine

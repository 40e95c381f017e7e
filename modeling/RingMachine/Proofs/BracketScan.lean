import Mathlib.Data.List.Chain
import RingMachine.Device
import RingMachine.Machine
import RingMachine.Proofs.Layout
import RingMachine.Proofs.Pairing

/-!
# Scans and loops

A scan that starts at one end of a loop in a stored text stops at its other end.
On the way it crosses the body, every loop of which takes its counter up by one
and down again, so a body that is not too deep leaves the counter as it was and
never takes it past the end of a byte. Cells outside of the loop play no part.
-/

namespace RingMachine

variable {μ ι ο : Type} [Memory μ] {memory : μ} {direction : Direction}

-- ---------------------------------------------------------------------------
-- Instructions in memory
-- ---------------------------------------------------------------------------

/-- The cells from an index on hold bytes that mean these instructions. -/
def Holds (memory : μ) : Nat → List Opcode → Prop
  | _, [] => True
  | start, op :: rest =>
    Opcode.decode (Memory.read memory (.ofIndex start)) = op ∧ Holds memory (start + 1) rest

theorem holds_append {start : Nat} {first second : List Opcode} :
    Holds memory start (first ++ second) ↔
      Holds memory start first ∧ Holds memory (start + first.length) second := by
  induction first generalizing start with
  | nil => simp [Holds]
  | cons op first ih =>
    simp only [List.cons_append, Holds, ih, List.length_cons, and_assoc, Nat.add_assoc, Nat.add_comm 1]

theorem Stored.holds {start : Nat} {bytes : List UInt8} (h : Stored memory start bytes) :
    Holds memory start (bytes.map Opcode.decode) := by
  induction bytes generalizing start with
  | nil => trivial
  | cons byte bytes ih =>
    refine ⟨?_, ih ?_⟩
    · exact congrArg Opcode.decode (h 0 byte rfl)
    · intro k found hk
      rw [Nat.add_assoc, Nat.add_comm 1]
      exact h (k + 1) found (by simpa using hk)

-- ---------------------------------------------------------------------------
-- The trail of a scan
-- ---------------------------------------------------------------------------

def trailFrom (memory : μ) (direction : Direction) : Nat → Address → UInt8 → List Cursor
  | 0, _, _ => []
  | count + 1, pos, depth =>
    let pos := direction.move pos
    let op := Opcode.decode (Memory.read memory pos)
    if op = direction.partner then
      if depth = 0 then [⟨pos, depth⟩]
      else ⟨pos, depth - 1⟩ :: trailFrom memory direction count pos (depth - 1)
    else if op = direction.nest then
      ⟨pos, depth + 1⟩ :: trailFrom memory direction count pos (depth + 1)
    else ⟨pos, depth⟩ :: trailFrom memory direction count pos depth

/-- At each cell the scan and its trail stop together, or go on together. -/
theorem trailFrom_succ (memory : μ) (direction : Direction) (count : Nat) (pos : Address)
    (depth : UInt8) : ∃ c : Cursor,
    (scanFrom memory direction (count + 1) pos depth = some c ∧
      trailFrom memory direction (count + 1) pos depth = [c]) ∨
    (scanFrom memory direction (count + 1) pos depth = scanFrom memory direction count c.pos c.depth ∧
      trailFrom memory direction (count + 1) pos depth =
        c :: trailFrom memory direction count c.pos c.depth) := by
  simp only [scanFrom, trailFrom]
  split
  · split
    · exact ⟨_, .inl ⟨rfl, rfl⟩⟩
    · exact ⟨⟨_, _⟩, .inr ⟨rfl, rfl⟩⟩
  · split <;> exact ⟨⟨_, _⟩, .inr ⟨rfl, rfl⟩⟩

theorem getLast?_trailFrom {count : Nat} {pos : Address} {depth : UInt8} {cursor : Cursor}
    (h : scanFrom memory direction count pos depth = some cursor) :
    (trailFrom memory direction count pos depth).getLast? = some cursor := by
  induction count generalizing pos depth with
  | zero => cases h
  | succ count ih =>
    obtain ⟨c, ⟨hscan, htrail⟩ | ⟨hscan, htrail⟩⟩ := trailFrom_succ memory direction count pos depth
    · rw [htrail, ← h, hscan]
      rfl
    · rw [htrail, List.getLast?_cons, ih (hscan ▸ h)]
      rfl

/-- From each cursor of its trail but the last one a scan goes on to the same end. -/
theorem scanFrom_of_recorded {count : Nat} {pos : Address} {depth : UInt8} {k : Nat} {c : Cursor}
    (hc : (trailFrom memory direction count pos depth)[k]? = some c)
    (hlast : k + 1 < (trailFrom memory direction count pos depth).length) :
    scanFrom memory direction count pos depth =
      scanFrom memory direction (count - (k + 1)) c.pos c.depth := by
  induction count generalizing pos depth k with
  | zero => cases hc
  | succ count ih =>
    obtain ⟨next, ⟨-, htrail⟩ | ⟨hscan, htrail⟩⟩ :=
      trailFrom_succ memory direction count pos depth
    · rw [htrail] at hlast
      exact absurd hlast (by simp)
    · rw [htrail] at hc hlast
      rw [hscan]
      cases k with
      | zero =>
        cases hc
        rfl
      | succ k =>
        rw [ih hc (Nat.lt_of_succ_lt_succ hlast), Nat.add_sub_add_right]

/-- The trail from a bracket, which stands at its head. -/
def trail (memory : μ) (direction : Direction) (start : Address) : List Cursor :=
  ⟨start, 0⟩ :: trailFrom memory direction memorySize start 0

theorem scan_of_recorded {start : Address} (k : Nat) (c : Cursor)
    (hc : (trail memory direction start)[k]? = some c)
    (hlast : k + 1 < (trail memory direction start).length) :
    scan memory direction start = scanFrom memory direction (memorySize - k) c.pos c.depth := by
  cases k with
  | zero =>
    cases hc
    rfl
  | succ k => exact scanFrom_of_recorded hc (Nat.lt_of_succ_lt_succ hlast)

/-- From cell to cell the counter, taken as a number, changes by one at most. A
counter that wraps changes by 255. -/
def Unwrapped (cursors : List Cursor) : Prop :=
  cursors.IsChain fun a b =>
    a.depth.toNat ≤ b.depth.toNat + 1 ∧ b.depth.toNat ≤ a.depth.toNat + 1

-- ---------------------------------------------------------------------------
-- Crossing cells
-- ---------------------------------------------------------------------------

/-- A scan goes from one cursor to another over a number of cells, and if its
counter wraps at all it does so behind them. -/
def Crosses (memory : μ) (direction : Direction) (count : Nat) (a b : Cursor) : Prop :=
  ∀ more,
    scanFrom memory direction (more + count) a.pos a.depth =
      scanFrom memory direction more b.pos b.depth ∧
    (Unwrapped (b :: trailFrom memory direction more b.pos b.depth) →
      Unwrapped (a :: trailFrom memory direction (more + count) a.pos a.depth))

namespace Crosses

theorem refl (a : Cursor) : Crosses memory direction 0 a a :=
  fun _ => ⟨rfl, id⟩

theorem trans {m n : Nat} {a b c : Cursor} (hab : Crosses memory direction m a b)
    (hbc : Crosses memory direction n b c) : Crosses memory direction (n + m) a c := by
  intro more
  obtain ⟨hscan, htrail⟩ := hab (more + n)
  obtain ⟨hscan', htrail'⟩ := hbc more
  rw [← Nat.add_assoc]
  exact ⟨hscan.trans hscan', fun h => htrail (htrail' h)⟩

theorem action {a b : Address} {depth : UInt8} {action : Action} (hmove : direction.move a = b)
    (hop : Opcode.decode (Memory.read memory b) = action.opcode) :
    Crosses memory direction 1 ⟨a, depth⟩ ⟨b, depth⟩ := by
  subst hmove
  have hpartner : action.opcode ≠ direction.partner := by
    cases action <;> cases direction <;> decide
  have hnest : action.opcode ≠ direction.nest := by
    cases action <;> cases direction <;> decide
  intro more
  refine ⟨by simp [scanFrom, hop, hpartner, hnest], fun h => ?_⟩
  simp only [trailFrom, hop, if_neg hpartner, if_neg hnest]
  exact .cons_cons ⟨Nat.le_succ _, Nat.le_succ _⟩ h

theorem toNat_add_one {depth : UInt8} (h : depth.toNat < 255) :
    (depth + 1).toNat = depth.toNat + 1 := by
  rw [UInt8.toNat_add]
  exact Nat.mod_eq_of_lt (by simpa using Nat.succ_lt_succ h)

theorem nest {a b : Address} {depth : UInt8} (hdepth : depth.toNat < 255)
    (hmove : direction.move a = b) (hop : Opcode.decode (Memory.read memory b) = direction.nest) :
    Crosses memory direction 1 ⟨a, depth⟩ ⟨b, depth + 1⟩ := by
  subst hmove
  have hpartner : direction.nest ≠ direction.partner := by cases direction <;> decide
  have hup := toNat_add_one hdepth
  intro more
  refine ⟨by simp [scanFrom, hop, hpartner], fun h => ?_⟩
  simp only [trailFrom, hop, if_neg hpartner, if_true]
  exact .cons_cons ⟨by simp only; omega, by simp only; omega⟩ h

theorem partner {a b : Address} {depth : UInt8} (hdepth : depth.toNat < 255)
    (hmove : direction.move a = b) (hop : Opcode.decode (Memory.read memory b) = direction.partner) :
    Crosses memory direction 1 ⟨a, depth + 1⟩ ⟨b, depth⟩ := by
  subst hmove
  have hup := toNat_add_one hdepth
  have hne : depth + 1 ≠ 0 := by
    intro h
    rw [h] at hup
    cases hup
  intro more
  refine ⟨by simp [scanFrom, hop, hne], fun h => ?_⟩
  simp only [trailFrom, hop, if_true, if_neg hne, UInt8.add_sub_cancel]
  exact .cons_cons ⟨by simp only; omega, by simp only; omega⟩ h

theorem loop {a b c d : Address} {depth : UInt8} {count : Nat} (hdepth : depth.toNat < 255)
    (hab : direction.move a = b) (hb : Opcode.decode (Memory.read memory b) = direction.nest)
    (hbody : Crosses memory direction count ⟨b, depth + 1⟩ ⟨c, depth + 1⟩)
    (hcd : direction.move c = d) (hd : Opcode.decode (Memory.read memory d) = direction.partner) :
    Crosses memory direction (1 + (count + 1)) ⟨a, depth⟩ ⟨d, depth⟩ :=
  ((nest hdepth hab hb).trans hbody).trans (partner hdepth hcd hd)

end Crosses

theorem Block.crosses_forward {block : Block} {i : Nat} {depth : UInt8}
    (hdepth : depth.toNat + block.depth ≤ 255) (h : Holds memory (i + 1) block.opcodes) :
    Crosses memory .forward block.size ⟨.ofIndex i, depth⟩ ⟨.ofIndex (i + block.size), depth⟩ := by
  induction block generalizing i depth with
  | done => exact .refl _
  | act action next ih =>
    obtain ⟨hop, hnext⟩ := h
    have hfirst : Crosses memory .forward 1 ⟨.ofIndex i, depth⟩ ⟨.ofIndex (i + 1), depth⟩ :=
      .action (Address.next_ofIndex i) hop
    have hrest := hfirst.trans (ih hdepth hnext)
    rwa [Nat.add_assoc, Nat.add_comm 1] at hrest
  | loop body next ihb ihn =>
    simp only [Block.depth] at hdepth
    simp only [Block.opcodes, Holds, holds_append] at h
    obtain ⟨hopen, hbody, hclose, hnext⟩ := h
    have hindex : i + 1 + 1 + body.opcodes.length = i + 1 + body.size + 1 := by
      simp only [Block.size]
      omega
    rw [hindex] at hclose hnext
    have hroom : depth.toNat < 255 := by omega
    have hup := Crosses.toNat_add_one hroom
    have hinner : Crosses memory .forward body.size ⟨.ofIndex (i + 1), depth + 1⟩
        ⟨.ofIndex (i + 1 + body.size), depth + 1⟩ := ihb (by omega) hbody
    have hloop : Crosses memory .forward (1 + (body.size + 1)) ⟨.ofIndex i, depth⟩
        ⟨.ofIndex (i + 1 + body.size + 1), depth⟩ :=
      .loop hroom (Address.next_ofIndex _) hopen hinner (Address.next_ofIndex _) hclose
    have hrest := hloop.trans (ihn (by omega) hnext)
    have hcells : next.size + (1 + (body.size + 1)) = (Block.loop body next).size := by
      rw [Block.size_loop]
      omega
    have hend : i + 1 + body.size + 1 + next.size = i + (Block.loop body next).size := by omega
    rwa [hcells, hend] at hrest

theorem Block.crosses_backward {block : Block} {i : Nat} {depth : UInt8}
    (hdepth : depth.toNat + block.depth ≤ 255) (h : Holds memory i block.opcodes) :
    Crosses memory .backward block.size ⟨.ofIndex (i + block.size), depth⟩ ⟨.ofIndex i, depth⟩ := by
  induction block generalizing i depth with
  | done => exact .refl _
  | act action next ih =>
    obtain ⟨hop, hnext⟩ := h
    have hfirst : Crosses memory .backward 1 ⟨.ofIndex (i + 1), depth⟩ ⟨.ofIndex i, depth⟩ :=
      .action (Address.prev_ofIndex i) hop
    have hall := (ih hdepth hnext).trans hfirst
    rwa [Nat.add_assoc, Nat.add_comm 1] at hall
  | loop body next ihb ihn =>
    simp only [Block.depth] at hdepth
    simp only [Block.opcodes, Holds, holds_append] at h
    obtain ⟨hopen, hbody, hclose, hnext⟩ := h
    have hroom : depth.toNat < 255 := by omega
    have hup := Crosses.toNat_add_one hroom
    have hinner : Crosses memory .backward body.size ⟨.ofIndex (i + 1 + body.size), depth + 1⟩
        ⟨.ofIndex (i + 1), depth + 1⟩ := ihb (by omega) hbody
    have hloop : Crosses memory .backward (1 + (body.size + 1))
        ⟨.ofIndex (i + 1 + body.size + 1), depth⟩ ⟨.ofIndex i, depth⟩ :=
      .loop hroom (Address.prev_ofIndex _) hclose hinner (Address.prev_ofIndex _) hopen
    have hall := (ihn (by omega) hnext).trans hloop
    have hcells : 1 + (body.size + 1) + next.size = (Block.loop body next).size := by
      rw [Block.size_loop]
      omega
    have hstart : i + 1 + body.opcodes.length + 1 + next.size = i + (Block.loop body next).size := by
      rw [← hcells]
      simp only [Block.size]
      omega
    rwa [hcells, hstart] at hall

-- ---------------------------------------------------------------------------
-- From one end of a loop to the other
-- ---------------------------------------------------------------------------

/-- A scan finds the partner of its bracket, at the end of its trail, and its
counter does not wrap on the way. The trail is the scan's own: at each of its
cursors the scan has as many cells to go as it has not visited. -/
structure Finds (memory : μ) (direction : Direction) (start stop : Address) : Prop where
  found : scan memory direction start = some ⟨stop, 0⟩
  last : (trail memory direction start).getLast? = some ⟨stop, 0⟩
  recorded : ∀ k c, (trail memory direction start)[k]? = some c →
    k + 1 < (trail memory direction start).length →
    scan memory direction start = scanFrom memory direction (memorySize - k) c.pos c.depth
  unwrapped : Unwrapped (trail memory direction start)

theorem Crosses.finds {count : Nat} {start pos stop : Address}
    (h : Crosses memory direction count ⟨start, 0⟩ ⟨pos, 0⟩) (hcount : count < memorySize)
    (hmove : direction.move pos = stop)
    (hop : Opcode.decode (Memory.read memory stop) = direction.partner) :
    Finds memory direction start stop := by
  subst hmove
  -- Cells are left over: the one visited next, and those beyond it.
  obtain ⟨hscan, htrail⟩ := h (memorySize - count - 1 + 1)
  have hcells : memorySize - count - 1 + 1 + count = memorySize := by omega
  rw [hcells] at hscan htrail
  have hfound : scan memory direction start = some ⟨direction.move pos, 0⟩ := by
    rw [scan, hscan, scanFrom]
    simp only [hop, if_true]
  refine ⟨hfound, ?_, scan_of_recorded, htrail ?_⟩
  · rw [trail, List.getLast?_cons, getLast?_trailFrom hfound]
    rfl
  · simp only [trailFrom, hop, if_true]
    exact .cons_cons ⟨Nat.le_succ _, Nat.le_succ _⟩ (.singleton _)

theorem Block.LoopAt.holds {text : List UInt8} {i : Nat} {body : Block}
    (hloop : LoopAt (text.map Opcode.decode) i body) (hstored : Stored memory 0 text) :
    Opcode.decode (Memory.read memory (.ofIndex i)) = .loopOpen ∧
      Holds memory (i + 1) body.opcodes ∧
      Opcode.decode (Memory.read memory (.ofIndex (i + body.size + 1))) = .loopClose := by
  obtain ⟨before, after, htext, rfl⟩ := hloop
  have hholds := hstored.holds
  rw [htext] at hholds
  simp only [holds_append, Holds, Nat.zero_add] at hholds
  obtain ⟨-, hopen, hbody, hclose, -⟩ := hholds
  rw [Nat.add_right_comm] at hclose
  exact ⟨hopen, hbody, hclose⟩

theorem Block.LoopAt.lt_length {ops : List Opcode} {i : Nat} {body : Block}
    (hloop : LoopAt ops i body) : i + body.size + 1 < ops.length := by
  obtain ⟨before, after, rfl, rfl⟩ := hloop
  simp only [Block.size, List.length_append, List.length_cons]
  omega

theorem Block.LoopAt.finds {text : List UInt8} {i : Nat} {body : Block}
    (hloop : LoopAt (text.map Opcode.decode) i body) (hdepth : body.depth ≤ maxNesting)
    (hlength : text.length ≤ memorySize) (hstored : Stored memory 0 text) :
    Finds memory .forward (.ofIndex i) (.ofIndex (i + body.size + 1)) ∧
      Finds memory .backward (.ofIndex (i + body.size + 1)) (.ofIndex i) := by
  obtain ⟨hopen, hbody, hclose⟩ := hloop.holds hstored
  have hlt := hloop.lt_length
  rw [List.length_map] at hlt
  have hcells : body.size < memorySize := by omega
  have hzero : (0 : UInt8).toNat + body.depth ≤ 255 := by simpa [maxNesting] using hdepth
  constructor
  · exact (Block.crosses_forward hzero hbody).finds hcells (Address.next_ofIndex _) hclose
  · rw [Nat.add_right_comm]
    exact (Block.crosses_backward hzero hbody).finds hcells (Address.prev_ofIndex _) hopen

-- ---------------------------------------------------------------------------
-- Jumps
-- ---------------------------------------------------------------------------

namespace Machine

theorem leap_of_finds {m : Machine μ ι ο} {stop : Address} (op : Opcode)
    (h : Finds m.memory direction m.registers.pc stop) :
    m.leap direction op = ⟨.ok (.executed op), (m.setDepth 0).goTo stop.next,
      { events := [m.fetched, .jump m.registers.pc stop.next] }⟩ := by
  rw [leap, h.found]

/-- The scans pair brackets as the check does: if the check takes the bracket at
`i` off its stack when it reads the one at `j`, each of the two leads behind the
other, whatever the cells outside of the text hold. -/
theorem leap_of_pops {text : List UInt8} {i j : Nat} (m : Machine μ ι ο)
    (hcheck : Program.check text = .ok ()) (hlength : text.length ≤ 8191)
    (hstored : Stored m.memory 0 text) (hpops : Program.Pops text i j) :
    (m.registers.pc = .ofIndex i →
      (m.leap .forward .loopOpen).result = .ok (.executed .loopOpen) ∧
      (m.leap .forward .loopOpen).machine.registers =
        { m.registers with pc := .ofIndex (j + 1), depth := 0 }) ∧
    Finds m.memory .forward (.ofIndex i) (.ofIndex j) ∧
    (m.registers.pc = .ofIndex j →
      (m.leap .backward .loopClose).result = .ok (.executed .loopClose) ∧
      (m.leap .backward .loopClose).machine.registers =
        { m.registers with pc := .ofIndex (i + 1), depth := 0 }) ∧
    Finds m.memory .backward (.ofIndex j) (.ofIndex i) := by
  obtain ⟨body, hloop, rfl, hdepth⟩ := Program.loopAt_of_pops hcheck hpops
  have hfits : text.length ≤ memorySize := hlength.trans (by decide)
  obtain ⟨hforward, hbackward⟩ := hloop.finds hdepth.le hfits hstored
  refine ⟨fun hpc => ?_, hforward, fun hpc => ?_, hbackward⟩
  · rw [leap_of_finds .loopOpen (hpc ▸ hforward), Address.next_ofIndex]
    exact ⟨rfl, rfl⟩
  · rw [leap_of_finds .loopClose (hpc ▸ hbackward), Address.next_ofIndex]
    exact ⟨rfl, rfl⟩

def nestedImage : Image where
  text := [0x5b, 0x2b, 0x5b, 0x5d, 0x5d]
  data := [0x5d, 0x40, 0x5b]
  checked := rfl
  fits := by decide

def nestedMachine : Machine Ram NoInput BufferOutput :=
  .start nestedImage.ram .closed {}

theorem leap_of_pops_nested :
    Program.check nestedImage.text = .ok () ∧ nestedImage.text.length ≤ 8191 ∧
      Stored nestedMachine.memory 0 nestedImage.text ∧ Program.Pops nestedImage.text 0 4 ∧
      (nestedMachine.leap .forward .loopOpen).machine.registers.pc = 5 ∧
      Finds nestedMachine.memory .backward 4 0 := by
  have hstored : Stored nestedMachine.memory 0 nestedImage.text :=
    nestedImage.intact_ram.append_left
  have hpops : Program.Pops nestedImage.text 0 4 :=
    ⟨[0x5b, 0x2b, 0x5b, 0x5d], 0x5d, [], [], rfl, rfl, rfl, fun _ => rfl⟩
  obtain ⟨hleap, -, -, hfinds⟩ :=
    nestedMachine.leap_of_pops nestedImage.checked (by decide) hstored hpops
  refine ⟨nestedImage.checked, by decide, hstored, hpops, ?_, hfinds⟩
  rw [(hleap rfl).2]
  rfl

end Machine

end RingMachine

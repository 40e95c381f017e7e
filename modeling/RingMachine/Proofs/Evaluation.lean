import RingMachine.Program
import RingMachine.Proofs.Step

/-!
# Structured evaluation

A loop tree has a meaning of its own: actions change the state that a program can
see, and a loop repeats its body while the cell is not zero. There is no program
counter in it and no bracket to look for. What ties it to a text is where the
instructions of a block stand in it, and where its evaluation can be taken up.
-/

namespace RingMachine

/-- What a program can see: its memory, the pointer and the scratch byte, the
bytes to come and the bytes written. -/
structure State where
  memory : Ram
  ptr : Address
  tmp : UInt8
  input : List UInt8
  output : List UInt8
  deriving DecidableEq

namespace State

def cell (s : State) : UInt8 :=
  s.memory.get s.ptr

def setCell (s : State) (byte : UInt8) : State :=
  { s with memory := s.memory.set s.ptr byte }

end State

/-- The effect of an action; there is none where a byte is wanted and none is left. -/
def Action.perform (s : State) : Action → Option State
  | incrementPointer => some { s with ptr := s.ptr + 1 }
  | decrementPointer => some { s with ptr := s.ptr - 1 }
  | incrementCell => some (s.setCell (s.cell + 1))
  | decrementCell => some (s.setCell (s.cell - 1))
  | store => some { s with tmp := s.cell }
  | load => some (s.setCell s.tmp)
  | output => some { s with output := s.output ++ [s.cell] }
  | input =>
    match s.input with
    | [] => none
    | byte :: rest => some { s.setCell byte with input := rest }
  | nop => some s

/-- An evaluation of a block that ends and writes to none but the given cells. -/
inductive Evaluates (writable : Address → Prop) : Block → State → State → Prop
  | done {s} : Evaluates writable .done s s
  | act {action next s between t} (hperform : Action.perform s action = some between)
      (hwritable : action.opcode.writes = true → writable s.ptr)
      (hnext : Evaluates writable next between t) : Evaluates writable (.act action next) s t
  | skip {body next s t} (hcell : s.cell = 0) (hnext : Evaluates writable next s t) :
      Evaluates writable (.loop body next) s t
  | again {body next s between t} (hcell : s.cell ≠ 0) (hbody : Evaluates writable body s between)
      (hloop : Evaluates writable (.loop body next) between t) :
      Evaluates writable (.loop body next) s t

-- ---------------------------------------------------------------------------
-- Blocks in a text
-- ---------------------------------------------------------------------------

def Image.Places (image : Image) (offset : Nat) (block : Block) : Prop :=
  block.depth ≤ maxNesting ∧ ∃ before after,
    image.text.map Opcode.decode = before ++ (block.opcodes ++ after) ∧ before.length = offset

namespace Image.Places

variable {image : Image} {p : Nat} {action : Action} {body next : Block}

theorem opcode (h : image.Places p (.act action next)) :
    (image.text.map Opcode.decode)[p]? = some action.opcode := by
  obtain ⟨-, before, after, htext, rfl⟩ := h
  rw [htext]
  simp [Block.opcodes]

theorem act_next (h : image.Places p (.act action next)) : image.Places (p + 1) next := by
  obtain ⟨hdepth, before, after, htext, rfl⟩ := h
  exact ⟨hdepth, before ++ [action.opcode], after, by simp [htext, Block.opcodes], by simp⟩

theorem loopAt (h : image.Places p (.loop body next)) :
    Block.LoopAt (image.text.map Opcode.decode) p body ∧ body.depth ≤ maxNesting := by
  obtain ⟨hdepth, before, after, htext, rfl⟩ := h
  simp only [Block.depth] at hdepth
  exact ⟨⟨before, next.opcodes ++ after, by simp [htext, Block.opcodes], rfl⟩, by omega⟩

theorem loop_body (h : image.Places p (.loop body next)) : image.Places (p + 1) body := by
  obtain ⟨hdepth, before, after, htext, rfl⟩ := h
  simp only [Block.depth] at hdepth
  exact ⟨by omega, before ++ [.loopOpen], .loopClose :: (next.opcodes ++ after),
    by simp [htext, Block.opcodes], by simp⟩

theorem loop_next (h : image.Places p (.loop body next)) :
    image.Places (p + body.size + 2) next := by
  obtain ⟨hdepth, before, after, htext, rfl⟩ := h
  simp only [Block.depth] at hdepth
  refine ⟨by omega, before ++ .loopOpen :: (body.opcodes ++ [.loopClose]), after, ?_, ?_⟩
  · simp [htext, Block.opcodes]
  · simp [Block.size]
    omega

end Image.Places

theorem Block.add_size_act (p : Nat) (action : Action) (next : Block) :
    p + 1 + next.size = p + (act action next).size := by
  rw [size_act, Nat.add_right_comm, Nat.add_assoc]

theorem Block.add_size_loop (p : Nat) (body next : Block) :
    p + body.size + 2 + next.size = p + (loop body next).size := by
  rw [size_loop]
  omega

/-- Where the evaluation of a block that stands at an offset can be taken up: at
its start, and if it begins with a loop also at the closing bracket, where the
machine tests the same cell with the same outcome. -/
inductive Entry (p : Nat) : Block → Nat → Prop
  | start {block} : Entry p block p
  | close {body next} : Entry p (.loop body next) (p + body.size + 1)

end RingMachine

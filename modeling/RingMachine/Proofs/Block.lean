import RingMachine.Program

/-!
# Loop trees

A text whose brackets pair up is a tree: a `Block` is a sequence of actions and
loops, and the body of a loop is a block again. `Block.opcodes` writes a block
out and `Block.parse` reads a text. What `Program.check` accepts can be read,
reading loses nothing, and the tree is no deeper than the check allows.
-/

namespace RingMachine

/-- An instruction that has its effect and goes on behind itself. -/
inductive Action
  | incrementPointer
  | decrementPointer
  | incrementCell
  | decrementCell
  | store
  | load
  | output
  | input
  | nop
  deriving DecidableEq, Repr

def Action.opcode : Action → Opcode
  | incrementPointer => .incrementPointer
  | decrementPointer => .decrementPointer
  | incrementCell => .incrementCell
  | decrementCell => .decrementCell
  | store => .store
  | load => .load
  | output => .output
  | input => .input
  | nop => .nop

/-- What an instruction is to the structure of a text. -/
inductive Role
  | opening
  | closing
  | ending
  | plain (action : Action)
  deriving DecidableEq, Repr

def Opcode.role : Opcode → Role
  | incrementPointer => .plain .incrementPointer
  | decrementPointer => .plain .decrementPointer
  | incrementCell => .plain .incrementCell
  | decrementCell => .plain .decrementCell
  | loopOpen => .opening
  | loopClose => .closing
  | store => .plain .store
  | load => .plain .load
  | output => .plain .output
  | input => .plain .input
  | halt => .ending
  | nop => .plain .nop

@[simp] theorem Action.role_opcode (action : Action) : action.opcode.role = .plain action := by
  cases action <;> rfl

theorem Opcode.eq_of_role {op : Opcode} {action : Action} (h : op.role = .plain action) :
    op = action.opcode := by
  cases op <;> cases h <;> rfl

theorem Opcode.role_cases (op : Opcode) :
    op = .halt ∨ op = .loopOpen ∨ op = .loopClose ∨ ∃ action : Action, op = action.opcode := by
  cases h : op.role with
  | opening => cases op <;> simp_all [role]
  | closing => cases op <;> simp_all [role]
  | ending => cases op <;> simp_all [role]
  | plain action => exact .inr (.inr (.inr ⟨action, eq_of_role h⟩))

theorem Action.opcode_ne_loopOpen (action : Action) : action.opcode ≠ .loopOpen := by
  cases action <;> decide

theorem Action.opcode_ne_loopClose (action : Action) : action.opcode ≠ .loopClose := by
  cases action <;> decide

/-- Actions and loops, one after another. -/
inductive Block
  | done
  | act (action : Action) (next : Block)
  | loop (body next : Block)
  deriving DecidableEq, Repr

namespace Block

def seq : Block → Block → Block
  | done, second => second
  | act action next, second => act action (next.seq second)
  | loop body next, second => loop body (next.seq second)

def opcodes : Block → List Opcode
  | done => []
  | act action next => action.opcode :: next.opcodes
  | loop body next => .loopOpen :: (body.opcodes ++ .loopClose :: next.opcodes)

def size (block : Block) : Nat :=
  block.opcodes.length

def depth : Block → Nat
  | done => 0
  | act _ next => next.depth
  | loop body next => max (body.depth + 1) next.depth

/-- The block that the instructions begin with, up to the end of the loop that
they start in, and the blocks behind that loop and those around it. -/
def read : List Opcode → Option (Block × List Block)
  | [] => some (done, [])
  | op :: rest =>
    match op.role, read rest with
    | .plain action, some (next, behind) => some (act action next, behind)
    | .opening, some (body, next :: behind) => some (loop body next, behind)
    | .closing, some (next, behind) => some (done, next :: behind)
    | _, _ => none

def parse (text : List UInt8) : Option Block :=
  match read (text.map Opcode.decode) with
  | some (block, []) => some block
  | _ => none

@[simp] theorem size_act (action : Action) (next : Block) :
    (act action next).size = next.size + 1 := rfl

@[simp] theorem size_loop (body next : Block) :
    (loop body next).size = body.size + next.size + 2 := by
  simp only [size, opcodes, List.length_cons, List.length_append]
  omega

@[simp] theorem seq_done (block : Block) : block.seq done = block := by
  induction block with
  | done => rfl
  | act action next ih => rw [seq, ih]
  | loop body next _ ih => rw [seq, ih]

-- ---------------------------------------------------------------------------
-- Reading what was written
-- ---------------------------------------------------------------------------

theorem read_opcodes_append (block : Block) {rest : List Opcode} {next : Block} {behind : List Block}
    (h : read rest = some (next, behind)) :
    read (block.opcodes ++ rest) = some (block.seq next, behind) := by
  induction block generalizing rest next behind with
  | done => exact h
  | act action following ih => simp [opcodes, read, ih h, seq]
  | loop body following ihb ihn =>
    have hclose : read (.loopClose :: (following.opcodes ++ rest)) =
        some (done, following.seq next :: behind) := by
      simp [read, Opcode.role, ihn h]
    have hbody := ihb hclose
    rw [seq_done] at hbody
    simp [opcodes, read, Opcode.role, hbody, seq]

/-- Reading loses nothing: the blocks written out one after another, each behind
a closing bracket, are the instructions again. -/
theorem opcodes_of_read {ops : List Opcode} {block : Block} {behind : List Block}
    (h : read ops = some (block, behind)) :
    ops = block.opcodes ++ behind.flatMap fun next => .loopClose :: next.opcodes := by
  induction ops generalizing block behind with
  | nil =>
    cases h
    rfl
  | cons op rest ih =>
    simp only [read] at h
    split at h
    · rename_i action next others hrole hrest
      cases h
      rw [Opcode.eq_of_role hrole, ih hrest]
      simp [opcodes]
    · rename_i body next others hrole hrest
      cases h
      rw [ih hrest]
      cases op <;> simp [Opcode.role] at hrole
      simp [opcodes]
    · rename_i next others hrole hrest
      cases h
      rw [ih hrest]
      cases op <;> simp [Opcode.role] at hrole
      simp [opcodes]
    · cases h

theorem parse_eq_some_iff {text : List UInt8} {block : Block} :
    parse text = some block ↔ block.opcodes = text.map Opcode.decode := by
  constructor
  · intro h
    unfold parse at h
    split at h
    · rename_i found hread
      cases h
      simpa using (opcodes_of_read hread).symm
    · cases h
  · intro h
    have hread : read (block.opcodes ++ []) = some (block.seq done, []) :=
      block.read_opcodes_append rfl
    rw [List.append_nil, seq_done, h] at hread
    rw [parse, hread]

-- ---------------------------------------------------------------------------
-- Loops inside a list of instructions
-- ---------------------------------------------------------------------------

def LoopAt (ops : List Opcode) (offset : Nat) (body : Block) : Prop :=
  ∃ before after, ops = before ++ .loopOpen :: (body.opcodes ++ .loopClose :: after) ∧
    before.length = offset

theorem LoopAt.append_left {ops : List Opcode} {offset : Nat} {body : Block}
    (h : LoopAt ops offset body) (first : List Opcode) :
    LoopAt (first ++ ops) (first.length + offset) body := by
  obtain ⟨before, after, rfl, rfl⟩ := h
  exact ⟨first ++ before, after, by simp, by simp⟩

theorem LoopAt.append_right {ops : List Opcode} {offset : Nat} {body : Block}
    (h : LoopAt ops offset body) (last : List Opcode) : LoopAt (ops ++ last) offset body := by
  obtain ⟨before, after, rfl, rfl⟩ := h
  exact ⟨before, after ++ last, by simp, rfl⟩

/-- Every bracket of a block belongs to a loop in it, at whose one end it stands. -/
theorem loopAt_of_bracket {block : Block} {offset : Nat} {op : Opcode}
    (h : block.opcodes[offset]? = some op) (hop : op = .loopOpen ∨ op = .loopClose) :
    ∃ start body, LoopAt block.opcodes start body ∧ body.depth < block.depth ∧
      (op = .loopOpen ∧ offset = start ∨ op = .loopClose ∧ offset = start + body.size + 1) := by
  induction block generalizing offset with
  | done => simp [opcodes] at h
  | act action next ih =>
    cases offset with
    | zero =>
      simp only [opcodes, List.getElem?_cons_zero, Option.some.injEq] at h
      subst h
      exact absurd hop (by simp [action.opcode_ne_loopOpen, action.opcode_ne_loopClose])
    | succ offset =>
      have hnext : next.opcodes[offset]? = some op := by simpa [opcodes] using h
      obtain ⟨start, body, hloop, hdepth, hend⟩ := ih hnext
      refine ⟨1 + start, body, hloop.append_left [action.opcode], hdepth, ?_⟩
      exact hend.imp (And.imp_right (by omega)) (And.imp_right (by omega))
  | loop inner next ihb ihn =>
    have hparts : (loop inner next).opcodes =
        [.loopOpen] ++ (inner.opcodes ++ ([.loopClose] ++ next.opcodes)) := rfl
    -- The offset is that of the opening bracket, in the body, of the closing one, or behind it.
    rcases Nat.lt_or_ge offset 1 with hzero | hpos
    · obtain rfl : offset = 0 := by omega
      simp only [opcodes, List.getElem?_cons_zero, Option.some.injEq] at h
      exact ⟨0, inner, ⟨[], next.opcodes, rfl, rfl⟩, by simp only [depth]; omega, .inl ⟨h.symm, rfl⟩⟩
    rw [hparts, List.getElem?_append_right hpos, List.length_singleton] at h
    rcases Nat.lt_or_ge (offset - 1) inner.size with hin | hout
    · rw [List.getElem?_append_left hin] at h
      obtain ⟨start, body, hloop, hdepth, hend⟩ := ihb h
      refine ⟨1 + start, body, (hloop.append_right _).append_left [.loopOpen], ?_, ?_⟩
      · simp only [depth]
        omega
      · exact hend.imp (And.imp_right (by omega)) (And.imp_right (by omega))
    rw [List.getElem?_append_right hout, ← size] at h
    rcases Nat.lt_or_ge (offset - 1 - inner.size) 1 with hzero | hpos'
    · obtain rfl : offset = inner.size + 1 := by omega
      have hclose : op = .loopClose := by simpa [size] using h.symm
      exact ⟨0, inner, ⟨[], next.opcodes, rfl, rfl⟩, by simp only [depth]; omega,
        .inr ⟨hclose, by omega⟩⟩
    · rw [List.getElem?_append_right hpos', List.length_singleton] at h
      obtain ⟨start, body, hloop, hdepth, hend⟩ := ihn h
      have hloop' := (hloop.append_left [.loopClose]).append_left inner.opcodes
      have hloop' := hloop'.append_left [.loopOpen]
      refine ⟨1 + (inner.size + (1 + start)), body, hloop', ?_, ?_⟩
      · simp only [depth]
        omega
      · exact hend.imp (And.imp_right (by omega)) (And.imp_right (by omega))

end Block

end RingMachine

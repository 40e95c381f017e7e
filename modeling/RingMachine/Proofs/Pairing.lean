import RingMachine.Proofs.Block

/-!
# What the check knows about a text

A text that `Program.check` accepts is the text of a loop tree no deeper than the
check allows. While it reads, the check keeps the offsets of the brackets that
are open; the one that it takes off at a closing bracket opens the loop that is
closed there.
-/

namespace RingMachine.Program

/-- The stack of the check behind an instruction that it accepts. -/
def track (stack : List Nat) (offset : Nat) : Opcode → List Nat
  | .loopOpen => offset :: stack
  | .loopClose => stack.tail
  | _ => stack

@[simp] theorem track_action (stack : List Nat) (offset : Nat) (action : Action) :
    track stack offset action.opcode = stack := by
  cases action <;> rfl

theorem checkFrom_cons_ok {stack : List Nat} {offset : Nat} {byte : UInt8} {rest : List UInt8}
    (h : checkFrom stack offset (byte :: rest) = .ok ()) :
    (Opcode.decode byte = .loopOpen ∧ stack.length ≠ maxNesting) ∨
    (Opcode.decode byte = .loopClose ∧ ∃ innermost outer, stack = innermost :: outer) ∨
    ∃ action : Action, Opcode.decode byte = action.opcode := by
  rcases (Opcode.decode byte).role_cases with hop | hop | hop | ⟨action, hop⟩
  · simp [checkFrom, hop] at h
  · refine .inl ⟨hop, fun hfull => ?_⟩
    simp [checkFrom, hop, hfull] at h
  · cases stack with
    | nil => simp [checkFrom, hop] at h
    | cons innermost outer => exact .inr (.inl ⟨hop, innermost, outer, rfl⟩)
  · exact .inr (.inr ⟨action, hop⟩)

theorem checkFrom_cons_of_ok {stack : List Nat} {offset : Nat} {byte : UInt8} {rest : List UInt8}
    (h : checkFrom stack offset (byte :: rest) = .ok ()) (more : List UInt8) :
    checkFrom stack offset (byte :: more) =
      checkFrom (track stack offset (Opcode.decode byte)) (offset + 1) more := by
  rcases checkFrom_cons_ok h with ⟨hop, hroom⟩ | ⟨hop, innermost, outer, rfl⟩ | ⟨action, hop⟩
  · simp [checkFrom, hop, hroom, track]
  · simp [checkFrom, hop, track]
  · cases action <;> simp [checkFrom, hop, track, Action.opcode]

-- ---------------------------------------------------------------------------
-- The tree of an accepted text
-- ---------------------------------------------------------------------------

/-- The blocks that the rest of a text is read into while a number of loops are
open: one for each of them behind the first, none too deep for its level. -/
inductive Nested : Nat → Block → List Block → Prop
  | outermost {block : Block} : block.depth ≤ maxNesting → Nested 0 block []
  | inside {level : Nat} {block next : Block} {behind : List Block} :
      level + 1 + block.depth ≤ maxNesting → Nested level next behind →
      Nested (level + 1) block (next :: behind)

theorem Nested.depth_le {level : Nat} {block : Block} {behind : List Block}
    (h : Nested level block behind) : level + block.depth ≤ maxNesting := by
  cases h with
  | outermost h => omega
  | inside h _ => exact h

theorem Nested.replace {level : Nat} {block other : Block} {behind : List Block}
    (h : Nested level block behind) (hother : level + other.depth ≤ maxNesting) :
    Nested level other behind := by
  cases h with
  | outermost _ => exact .outermost (by omega)
  | inside _ h => exact .inside hother h

theorem read_of_checkFrom {text : List UInt8} {stack : List Nat} {offset : Nat}
    (hstack : stack.length ≤ maxNesting) (h : checkFrom stack offset text = .ok ()) :
    ∃ block behind, Block.read (text.map Opcode.decode) = some (block, behind) ∧
      Nested stack.length block behind := by
  induction text generalizing stack offset with
  | nil =>
    cases stack with
    | nil => exact ⟨.done, [], rfl, .outermost (Nat.zero_le _)⟩
    | cons innermost outer => simp [checkFrom] at h
  | cons byte rest ih =>
    have hrest := (checkFrom_cons_of_ok h rest).symm.trans h
    rcases checkFrom_cons_ok h with ⟨hop, hroom⟩ | ⟨hop, innermost, outer, rfl⟩ | ⟨action, hop⟩
    · rw [hop] at hrest
      have hpushed : (offset :: stack).length ≤ maxNesting := by
        simp only [List.length_cons]
        omega
      obtain ⟨body, behind, hread, hnested⟩ := ih hpushed hrest
      cases hnested with
      | @inside level body next behind hbody hnext =>
        refine ⟨.loop body next, behind, ?_, hnext.replace ?_⟩
        · simp [Block.read, hop, Opcode.role, hread]
        · have := hnext.depth_le
          simp only [Block.depth]
          omega
    · rw [hop] at hrest
      simp only [List.length_cons] at hstack
      have hpopped : outer.length ≤ maxNesting := by omega
      obtain ⟨next, behind, hread, hnested⟩ := ih hpopped hrest
      refine ⟨.done, next :: behind, ?_, .inside (by simpa [Block.depth] using hstack) hnested⟩
      simp [Block.read, hop, Opcode.role, hread]
    · rw [hop, track_action] at hrest
      obtain ⟨next, behind, hread, hnested⟩ := ih hstack hrest
      refine ⟨.act action next, behind, ?_, hnested.replace hnested.depth_le⟩
      simp [Block.read, hop, hread]

theorem parse_of_check {text : List UInt8} (h : check text = .ok ()) :
    ∃ block, Block.parse text = some block ∧ block.depth ≤ maxNesting := by
  have hempty : ([] : List Nat).length ≤ maxNesting := Nat.zero_le _
  obtain ⟨block, behind, hread, hnested⟩ := read_of_checkFrom hempty h
  cases hnested with
  | outermost hdepth => exact ⟨block, by rw [Block.parse, hread], hdepth⟩

-- ---------------------------------------------------------------------------
-- The stack of the check
-- ---------------------------------------------------------------------------

def opened (stack : List Nat) (offset : Nat) : List Opcode → List Nat
  | [] => stack
  | op :: rest => opened (track stack offset op) (offset + 1) rest

theorem checkFrom_append_of_ok {first rest : List UInt8} {stack : List Nat} {offset : Nat}
    (h : checkFrom stack offset (first ++ rest) = .ok ()) (more : List UInt8) :
    checkFrom stack offset (first ++ more) =
      checkFrom (opened stack offset (first.map Opcode.decode)) (offset + first.length) more := by
  induction first generalizing stack offset with
  | nil => rfl
  | cons byte first ih =>
    rw [List.cons_append] at h
    have hfirst := (checkFrom_cons_of_ok h (first ++ rest)).symm.trans h
    rw [List.cons_append, checkFrom_cons_of_ok h, ih hfirst, List.map_cons, opened,
      List.length_cons, Nat.add_assoc, Nat.add_comm 1]

theorem opened_append (first second : List Opcode) (stack : List Nat) (offset : Nat) :
    opened stack offset (first ++ second) =
      opened (opened stack offset first) (offset + first.length) second := by
  induction first generalizing stack offset with
  | nil => rfl
  | cons op first ih =>
    rw [List.cons_append, opened, ih, opened, List.length_cons, Nat.add_assoc, Nat.add_comm 1]

theorem opened_block (block : Block) (stack : List Nat) (offset : Nat) :
    opened stack offset block.opcodes = stack := by
  induction block generalizing stack offset with
  | done => rfl
  | act action next ih => rw [Block.opcodes, opened, track_action, ih]
  | loop body next ihb ihn => rw [Block.opcodes, opened, opened_append, ihb, opened, ihn]; rfl

/-- When the check reads the closing bracket at `j`, it takes `i` off its stack:
having read what comes before `j`, it goes on with `i` on top. -/
def Pops (text : List UInt8) (i j : Nat) : Prop :=
  ∃ before byte after outer, text = before ++ byte :: after ∧ before.length = j ∧
    Opcode.decode byte = .loopClose ∧ ∀ rest, check (before ++ rest) = checkFrom (i :: outer) j rest

theorem loopAt_of_pops {text : List UInt8} {i j : Nat} (h : check text = .ok ())
    (hpops : Pops text i j) :
    ∃ body, Block.LoopAt (text.map Opcode.decode) i body ∧ j = i + body.size + 1 ∧
      body.depth < maxNesting := by
  obtain ⟨block, hparse, hdepth⟩ := parse_of_check h
  rw [Block.parse_eq_some_iff] at hparse
  obtain ⟨before, byte, after, outer, rfl, rfl, hbyte, hstack⟩ := hpops
  have hclose : block.opcodes[before.length]? = some .loopClose := by
    rw [hparse]
    simp [hbyte]
  obtain ⟨start, body, hloop, hbody, hend⟩ := Block.loopAt_of_bracket hclose (.inr rfl)
  have hend : before.length = start + body.size + 1 := by simpa using hend
  rw [hparse] at hloop
  obtain ⟨first, last, hops, rfl⟩ := id hloop
  -- Up to the closing bracket the check has read what opens the loop, and its body.
  have hbefore : before.map Opcode.decode = first ++ .loopOpen :: body.opcodes := by
    rw [List.map_append, ← List.cons_append, ← List.append_assoc] at hops
    refine (List.append_inj hops ?_).1
    simp only [List.length_map, List.length_append, List.length_cons]
    exact hend
  have hopened : opened [] 0 (before.map Opcode.decode) = first.length :: opened [] 0 first := by
    rw [hbefore, opened_append, opened, opened_block]
    simp [track]
  -- At the end of the text the top of the stack is blamed, so it shows.
  have htop := hstack []
  rw [check, checkFrom_append_of_ok h, hopened] at htop
  simp only [checkFrom, Except.error.injEq, LoadError.unclosedLoop.injEq] at htop
  subst htop
  exact ⟨body, hloop, hend, by omega⟩

end RingMachine.Program

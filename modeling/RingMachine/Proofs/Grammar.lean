import Mathlib.Order.Bounds.Defs
import RingMachine.Proofs.Pairing

/-!
# The language of the check

`Generated` is the grammar of program texts and `Offends` says at which bytes a text goes
wrong, both without a word on stacks. The check accepts what the grammar generates within
the nesting that it allows. Of any other text it blames the first byte that offends, and
if none does, the last opening bracket that has no partner.
-/

namespace RingMachine.Program

/-- `P ::= ε | c P | [ P ] P`, where `c` is neither a bracket nor the sentinel, with the
depth to which loops are nested. -/
inductive Generated : Nat → List UInt8 → Prop
  | empty : Generated 0 []
  | plain {depth : Nat} {byte : UInt8} {rest : List UInt8} (hopen : byte ≠ 0x5b)
      (hclose : byte ≠ 0x5d) (hsentinel : byte ≠ sentinel) (hrest : Generated depth rest) :
      Generated depth (byte :: rest)
  | loop {inner outer : Nat} {body rest : List UInt8} (hbody : Generated inner body)
      (hrest : Generated outer rest) :
      Generated (max (inner + 1) outer) (0x5b :: (body ++ 0x5d :: rest))

def Closed (text : List UInt8) (offset : Nat) : Prop :=
  ∃ before body after depth, text = before ++ 0x5b :: (body ++ 0x5d :: after) ∧
    before.length = offset ∧ Generated depth body

/-- The byte at an offset cannot stand there, whatever follows it. -/
inductive Offends (text : List UInt8) (i : Nat) : LoadError → Prop
  | sentinel (hbyte : text[i]? = some sentinel) : Offends text i (.sentinelInText i)
  | stray (hbyte : text[i]? = some 0x5d)
      (hcount : (text.take i).count 0x5d = (text.take i).count 0x5b) :
      Offends text i (.strayClose i)
  | tooDeep (hbyte : text[i]? = some 0x5b)
      (hcount : (text.take i).count 0x5b = (text.take i).count 0x5d + maxNesting) :
      Offends text i (.nestingTooDeep i)

-- ---------------------------------------------------------------------------
-- Bytes
-- ---------------------------------------------------------------------------

theorem open_ne_close : (0x5b : UInt8) ≠ 0x5d := by decide

theorem decode_plain {byte : UInt8} (hopen : byte ≠ 0x5b) (hclose : byte ≠ 0x5d)
    (hsentinel : byte ≠ sentinel) : ∃ action : Action, Opcode.decode byte = action.opcode := by
  rcases (Opcode.decode byte).role_cases with hop | hop | hop | haction
  · exact absurd ((Opcode.decode_eq_halt byte).mp hop) hsentinel
  · exact absurd ((Opcode.decode_eq_loopOpen byte).mp hop) hopen
  · exact absurd ((Opcode.decode_eq_loopClose byte).mp hop) hclose
  · exact haction

theorem checkFrom_plain {byte : UInt8} (hopen : byte ≠ 0x5b) (hclose : byte ≠ 0x5d)
    (hsentinel : byte ≠ sentinel) (stack : List Nat) (offset : Nat) (rest : List UInt8) :
    checkFrom stack offset (byte :: rest) = checkFrom stack (offset + 1) rest := by
  obtain ⟨action, hop⟩ := decode_plain hopen hclose hsentinel
  cases action <;> simp [checkFrom, hop, Action.opcode]

theorem checkFrom_sentinel (stack : List Nat) (offset : Nat) (rest : List UInt8) :
    checkFrom stack offset (sentinel :: rest) = .error (.sentinelInText offset) := rfl

theorem checkFrom_open (stack : List Nat) (offset : Nat) (rest : List UInt8) :
    checkFrom stack offset (0x5b :: rest) =
      if stack.length = maxNesting then .error (.nestingTooDeep offset)
      else checkFrom (offset :: stack) (offset + 1) rest := rfl

theorem checkFrom_close_nil (offset : Nat) (rest : List UInt8) :
    checkFrom [] offset (0x5d :: rest) = .error (.strayClose offset) := rfl

theorem checkFrom_close_cons (innermost : Nat) (outer : List Nat) (offset : Nat)
    (rest : List UInt8) :
    checkFrom (innermost :: outer) offset (0x5d :: rest) = checkFrom outer (offset + 1) rest := rfl

-- ---------------------------------------------------------------------------
-- Texts of the grammar
-- ---------------------------------------------------------------------------

namespace Generated

variable {depth : Nat} {text : List UInt8}

theorem append {other : Nat} {more : List UInt8} (h : Generated depth text)
    (hmore : Generated other more) : ∃ both, Generated both (text ++ more) := by
  induction h with
  | empty => exact ⟨other, hmore⟩
  | plain hopen hclose hsentinel _ ih =>
    obtain ⟨both, hboth⟩ := ih
    exact ⟨both, .plain hopen hclose hsentinel hboth⟩
  | loop hbody _ _ ih =>
    obtain ⟨both, hboth⟩ := ih
    exact ⟨_, by simpa using Generated.loop hbody hboth⟩

theorem checkFrom_append (h : Generated depth text) {stack : List Nat}
    (hroom : stack.length + depth ≤ maxNesting) (offset : Nat) (more : List UInt8) :
    checkFrom stack offset (text ++ more) = checkFrom stack (offset + text.length) more := by
  induction h generalizing stack offset more with
  | empty => rfl
  | plain hopen hclose hsentinel _ ih =>
    rw [List.cons_append, checkFrom_plain hopen hclose hsentinel, ih hroom, List.length_cons,
      Nat.add_right_comm, Nat.add_assoc]
  | @loop inner outer body rest _ _ ihb ihr =>
    have hlevel : stack.length ≠ maxNesting := by omega
    have hinner : (offset :: stack).length + inner ≤ maxNesting := by
      simp only [List.length_cons]
      omega
    have hcells : offset + 1 + body.length + 1 + rest.length =
        offset + (0x5b :: (body ++ 0x5d :: rest)).length := by
      simp only [List.length_cons, List.length_append]
      omega
    rw [List.cons_append, checkFrom_open, if_neg hlevel, List.append_assoc, ihb hinner,
      List.cons_append, checkFrom_close_cons, ihr (by omega), hcells]

theorem count_eq (h : Generated depth text) : text.count 0x5b = text.count 0x5d := by
  induction h with
  | empty => rfl
  | plain hopen hclose _ _ ih => simpa [List.count_cons, hopen, hclose] using ih
  | loop _ _ ihb ihr =>
    simp only [List.count_append, List.count_cons_self, List.count_cons_of_ne open_ne_close,
      List.count_cons_of_ne open_ne_close.symm, ihb, ihr]
    omega

theorem count_take_le (h : Generated depth text) (i : Nat) :
    (text.take i).count 0x5d ≤ (text.take i).count 0x5b := by
  induction h generalizing i with
  | empty => simp
  | plain hopen hclose _ _ ih =>
    cases i with
    | zero => simp
    | succ i => simpa [List.count_cons, hopen, hclose] using ih i
  | @loop inner outer body rest hbody _ ihb ihr =>
    cases i with
    | zero => simp
    | succ i =>
      simp only [List.take_succ_cons, List.take_append, List.count_append, List.count_cons_self,
        List.count_cons_of_ne open_ne_close]
      cases hj : i - body.length with
      | zero => simpa using Nat.le_add_right_of_le (ihb i)
      | succ j =>
        have hall : body.take i = body := List.take_of_length_le (by omega)
        have hrest := ihr j
        simp only [hall, hbody.count_eq, List.take_succ_cons, List.count_cons_self,
          List.count_cons_of_ne open_ne_close.symm]
        omega

theorem ne_append_close (h : Generated depth text) {inner : Nat} {body after : List UInt8}
    (hbody : Generated inner body) : text ≠ body ++ 0x5d :: after := by
  rintro rfl
  have hle := h.count_take_le (body.length + 1)
  rw [List.take_append, List.take_of_length_le (by omega)] at hle
  simp only [Nat.add_sub_cancel_left, List.take_succ_cons, List.take_zero, List.count_append,
    List.count_nil, List.count_cons_self, List.count_cons_of_ne open_ne_close.symm, hbody.count_eq] at hle
  omega

theorem exists_block (h : Generated depth text) :
    ∃ block : Block, block.opcodes = text.map Opcode.decode ∧ block.depth = depth := by
  induction h with
  | empty => exact ⟨.done, rfl, rfl⟩
  | plain hopen hclose hsentinel _ ih =>
    obtain ⟨action, hop⟩ := decode_plain hopen hclose hsentinel
    obtain ⟨next, hnext, hdepth⟩ := ih
    exact ⟨.act action next, by simp [Block.opcodes, hop, hnext], hdepth⟩
  | loop _ _ ihb ihr =>
    obtain ⟨body, hbody, rfl⟩ := ihb
    obtain ⟨next, hnext, rfl⟩ := ihr
    refine ⟨.loop body next, ?_, rfl⟩
    simp [Block.opcodes, hbody, hnext, (Opcode.decode_eq_loopOpen 0x5b).mpr,
      (Opcode.decode_eq_loopClose 0x5d).mpr]

end Generated

theorem eq_of_decode_loop {text : List UInt8} {ops rest : List Opcode}
    (h : text.map Opcode.decode = .loopOpen :: (ops ++ .loopClose :: rest)) :
    ∃ body after, text = 0x5b :: (body ++ 0x5d :: after) ∧ body.map Opcode.decode = ops ∧
      after.map Opcode.decode = rest := by
  obtain ⟨opening, others, rfl, hopening, hothers⟩ := List.map_eq_cons_iff.mp h
  obtain ⟨body, others, rfl, hbody, hothers⟩ := List.map_eq_append_iff.mp hothers
  obtain ⟨closing, after, rfl, hclosing, hafter⟩ := List.map_eq_cons_iff.mp hothers
  rw [Opcode.decode_eq_loopOpen] at hopening
  rw [Opcode.decode_eq_loopClose] at hclosing
  subst hopening hclosing
  exact ⟨body, after, rfl, hbody, hafter⟩

theorem generated_of_block {block : Block} {text : List UInt8}
    (h : block.opcodes = text.map Opcode.decode) : Generated block.depth text := by
  induction block generalizing text with
  | done =>
    obtain rfl := List.map_eq_nil_iff.mp h.symm
    exact .empty
  | act action next ih =>
    obtain ⟨byte, rest, rfl, hop, hnext⟩ := List.map_eq_cons_iff.mp h.symm
    refine .plain ?_ ?_ ?_ (ih hnext.symm)
    all_goals
      rintro rfl
      cases action <;> cases hop
  | loop body next ihb ihn =>
    obtain ⟨inner, rest, rfl, hinner, hrest⟩ := eq_of_decode_loop h.symm
    exact .loop (ihb hinner.symm) (ihn hrest.symm)

theorem Generated.closed {depth offset : Nat} {text : List UInt8} (h : Generated depth text)
    (hbyte : text[offset]? = some 0x5b) : Closed text offset := by
  obtain ⟨block, hops, -⟩ := h.exists_block
  have hop : block.opcodes[offset]? = some .loopOpen := by
    rw [hops, List.getElem?_map, hbyte]
    rfl
  obtain ⟨start, body, ⟨before, after, hsplit, rfl⟩, -, ⟨-, rfl⟩ | ⟨hcontra, -⟩⟩ :=
    Block.loopAt_of_bracket hop (.inl rfl)
  · rw [hops] at hsplit
    obtain ⟨first, last, rfl, rfl, hlast⟩ := List.map_eq_append_iff.mp hsplit
    obtain ⟨inner, rest, rfl, hinner, -⟩ := eq_of_decode_loop hlast
    exact ⟨first, inner, rest, body.depth, rfl, by simp, generated_of_block hinner.symm⟩
  · cases hcontra

-- ---------------------------------------------------------------------------
-- Texts with loops left open
-- ---------------------------------------------------------------------------

/-- A text in which the brackets at some offsets are still open, innermost first: between
them, and behind the last, stand texts of the grammar. -/
inductive Layers : List UInt8 → List Nat → Prop
  | ground {depth : Nat} {text : List UInt8} (htext : Generated depth text) : Layers text []
  | inside {depth : Nat} {before body : List UInt8} {stack : List Nat}
      (hbefore : Layers before stack) (hbody : Generated depth body) :
      Layers (before ++ 0x5b :: body) (before.length :: stack)

namespace Layers

variable {text : List UInt8} {stack : List Nat}

theorem append {depth : Nat} {more : List UInt8} (h : Layers text stack)
    (hmore : Generated depth more) : Layers (text ++ more) stack := by
  cases h with
  | ground htext =>
    obtain ⟨both, hboth⟩ := htext.append hmore
    exact .ground hboth
  | inside hbefore hbody =>
    obtain ⟨both, hboth⟩ := hbody.append hmore
    simpa using hbefore.inside hboth

theorem close {innermost : Nat} {outer : List Nat} (h : Layers text (innermost :: outer)) :
    Layers (text ++ [0x5d]) outer := by
  cases h with
  | inside hbefore hbody => simpa using hbefore.append (.loop hbody .empty)

theorem count_eq (h : Layers text stack) :
    text.count 0x5b = text.count 0x5d + stack.length := by
  induction h with
  | ground htext => exact htext.count_eq
  | inside _ hbody ih =>
    simp only [List.count_append, List.count_cons_self, List.count_cons_of_ne open_ne_close, ih,
      hbody.count_eq, List.length_cons]
    omega

/-- The innermost of the brackets left open is the last one without a partner. -/
theorem isGreatest {innermost : Nat} {outer : List Nat} (h : Layers text (innermost :: outer)) :
    IsGreatest {o | text[o]? = some 0x5b ∧ ¬ Closed text o} innermost := by
  cases h with
  | @inside depth before body _ hbefore hbody =>
    refine ⟨⟨by simp, ?_⟩, ?_⟩
    · rintro ⟨first, inner, after, _, hsplit, hfirst, hinner⟩
      obtain ⟨-, hrest⟩ := List.append_inj hsplit hfirst.symm
      exact hbody.ne_append_close hinner (List.cons.inj hrest).2
    · rintro o ⟨hbyte, hopen⟩
      refine Nat.le_of_not_lt fun hlt => ?_
      obtain ⟨j, rfl⟩ : ∃ j, o = before.length + 1 + j := ⟨o - before.length - 1, by omega⟩
      have hinside : body[j]? = some 0x5b := by
        rw [List.getElem?_append_right (by omega)] at hbyte
        rw [show before.length + 1 + j - before.length = j + 1 by omega] at hbyte
        simpa using hbyte
      obtain ⟨first, inner, after, depth, rfl, hfirst, hinner⟩ := hbody.closed hinside
      refine hopen ⟨before ++ 0x5b :: first, inner, after, depth, by simp, ?_, hinner⟩
      rw [List.length_append, List.length_cons, hfirst]
      omega

end Layers

-- ---------------------------------------------------------------------------
-- How far the check gets
-- ---------------------------------------------------------------------------

/-- The check has read a text up to an offset without blaming a byte. -/
structure ReadUpTo (text : List UInt8) (i : Nat) (stack : List Nat) : Prop where
  goesOn : check text = checkFrom stack i (text.drop i)
  layers : Layers (text.take i) stack

theorem readUpTo_zero (text : List UInt8) : ReadUpTo text 0 [] :=
  ⟨rfl, .ground .empty⟩

section
variable {text : List UInt8} {i : Nat} {stack : List Nat}

theorem ReadUpTo.reads {byte : UInt8} (h : ReadUpTo text i stack) (hbyte : text[i]? = some byte) :
    check text = checkFrom stack i (byte :: text.drop (i + 1)) := by
  rw [h.goesOn, List.drop_eq_getElem?_toList_append, hbyte]
  rfl

theorem ReadUpTo.blames {e : LoadError} (h : ReadUpTo text i stack) (hoffends : Offends text i e) :
    check text = .error e := by
  have hcount := h.layers.count_eq
  cases hoffends with
  | sentinel hbyte => rw [h.reads hbyte, checkFrom_sentinel]
  | stray hbyte hsame =>
    have hempty : stack = [] := List.eq_nil_of_length_eq_zero (by omega)
    rw [h.reads hbyte, hempty, checkFrom_close_nil]
  | tooDeep hbyte hdeep =>
    have hfull : stack.length = maxNesting := by omega
    rw [h.reads hbyte, checkFrom_open, if_pos hfull]

theorem ReadUpTo.next {byte : UInt8} (h : ReadUpTo text i stack) (hbyte : text[i]? = some byte)
    (hclear : ∀ e, ¬ Offends text i e) : ∃ stack, ReadUpTo text (i + 1) stack := by
  have hcount := h.layers.count_eq
  have hgoesOn := h.reads hbyte
  have hlength : (text.take i).length = i := by
    obtain ⟨hlt, -⟩ := List.getElem?_eq_some_iff.mp hbyte
    rw [List.length_take]
    omega
  have htake : text.take (i + 1) = text.take i ++ [byte] := by
    rw [List.take_add_one, hbyte, Option.toList_some]
  by_cases hopen : byte = 0x5b
  · subst hopen
    have hroom : stack.length ≠ maxNesting := fun hfull => hclear _ (.tooDeep hbyte (by omega))
    rw [checkFrom_open, if_neg hroom] at hgoesOn
    refine ⟨i :: stack, hgoesOn, ?_⟩
    have hinside := h.layers.inside .empty
    rwa [hlength, ← htake] at hinside
  by_cases hclose : byte = 0x5d
  · subst hclose
    cases stack with
    | nil => exact absurd (.stray hbyte hcount.symm) (hclear _)
    | cons innermost outer =>
      refine ⟨outer, hgoesOn, ?_⟩
      rw [htake]
      exact h.layers.close
  by_cases hsentinel : byte = sentinel
  · subst hsentinel
    exact absurd (.sentinel hbyte) (hclear _)
  · rw [checkFrom_plain hopen hclose hsentinel] at hgoesOn
    refine ⟨stack, hgoesOn, ?_⟩
    rw [htake]
    exact h.layers.append (.plain hopen hclose hsentinel .empty)

theorem Offends.le_length {e : LoadError} (h : Offends text i e) : i ≤ text.length := by
  cases h with
  | sentinel hbyte | stray hbyte _ | tooDeep hbyte _ =>
    exact Nat.le_of_lt (List.getElem?_eq_some_iff.mp hbyte).1

theorem exists_readUpTo (hi : i ≤ text.length) (hclear : ∀ j < i, ∀ e, ¬ Offends text j e) :
    ∃ stack, ReadUpTo text i stack := by
  induction i with
  | zero => exact ⟨[], readUpTo_zero text⟩
  | succ i ih =>
    obtain ⟨stack, hread⟩ := ih (by omega) fun j hj => hclear j (by omega)
    exact hread.next (List.getElem?_eq_getElem (by omega)) (hclear i (by omega))

theorem check_of_clear (hclear : ∀ i e, ¬ Offends text i e) :
    (check text = .ok () ∧ Layers text []) ∨
      ∃ innermost outer, check text = .error (.unclosedLoop innermost) ∧
        Layers text (innermost :: outer) := by
  obtain ⟨stack, hgoesOn, hlayers⟩ := exists_readUpTo (Nat.le_refl text.length) fun i _ => hclear i
  rw [List.drop_length] at hgoesOn
  rw [List.take_length] at hlayers
  cases stack with
  | nil => exact .inl ⟨hgoesOn, hlayers⟩
  | cons innermost outer => exact .inr ⟨innermost, outer, hgoesOn, hlayers⟩

theorem check_eq_ok_iff : check text = .ok () ↔ ∃ depth ≤ maxNesting, Generated depth text := by
  constructor
  · intro h
    obtain ⟨block, hparse, hdepth⟩ := parse_of_check h
    exact ⟨block.depth, hdepth, generated_of_block (Block.parse_eq_some_iff.mp hparse)⟩
  · rintro ⟨depth, hdepth, h⟩
    have hroom : ([] : List Nat).length + depth ≤ maxNesting := by simpa using hdepth
    have hread : check (text ++ []) = .ok () := h.checkFrom_append hroom 0 []
    rwa [List.append_nil] at hread

end

/-- The check accepts the language of the grammar, as deep as it may be nested, and blames
the byte at which a text leaves it. -/
theorem check_decides_grammar (text : List UInt8) :
    (check text = .ok () ↔ ∃ depth ≤ maxNesting, Generated depth text) ∧
    (∀ i e, Offends text i e → (∀ j < i, ∀ d, ¬ Offends text j d) → check text = .error e) ∧
    ((¬ ∃ depth ≤ maxNesting, Generated depth text) → (∀ i e, ¬ Offends text i e) →
      ∃ o, IsGreatest {o | text[o]? = some 0x5b ∧ ¬ Closed text o} o ∧
        check text = .error (.unclosedLoop o)) := by
  refine ⟨check_eq_ok_iff, fun i e hoffends hfirst => ?_, fun hother hclear => ?_⟩
  · obtain ⟨stack, hread⟩ := exists_readUpTo hoffends.le_length hfirst
    exact hread.blames hoffends
  · rcases check_of_clear hclear with ⟨hok, -⟩ | ⟨innermost, outer, herror, hlayers⟩
    · exact absurd (check_eq_ok_iff.mp hok) hother
    · exact ⟨innermost, hlayers.isGreatest, herror⟩

/-- Of two bytes that offend the first is blamed, though a loop is left open as well. -/
theorem check_decides_grammar_stray :
    Offends [0x5b, 0x5d, 0x5d, 0x40, 0x5b] 2 (.strayClose 2) ∧
      (∀ j < 2, ∀ d, ¬ Offends [0x5b, 0x5d, 0x5d, 0x40, 0x5b] j d) ∧
      check [0x5b, 0x5d, 0x5d, 0x40, 0x5b] = .error (.strayClose 2) := by
  have hoffends : Offends [0x5b, 0x5d, 0x5d, 0x40, 0x5b] 2 (.strayClose 2) := .stray rfl rfl
  have hfirst : ∀ j < 2, ∀ d, ¬ Offends [0x5b, 0x5d, 0x5d, 0x40, 0x5b] j d := by
    intro j hj d hd
    obtain rfl | rfl : j = 0 ∨ j = 1 := by omega
    · cases hd with
      | sentinel hbyte => exact absurd hbyte (by decide)
      | stray hbyte => exact absurd hbyte (by decide)
      | tooDeep _ hcount => exact absurd hcount (by decide)
    · cases hd with
      | sentinel hbyte => exact absurd hbyte (by decide)
      | stray _ hcount => exact absurd hcount (by decide)
      | tooDeep hbyte => exact absurd hbyte (by decide)
  exact ⟨hoffends, hfirst, (check_decides_grammar _).2.1 2 _ hoffends hfirst⟩

end RingMachine.Program

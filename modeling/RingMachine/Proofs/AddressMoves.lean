import Mathlib.Algebra.Ring.Nat
import RingMachine.Address

/-!
# Moves around the ring

An address is moved in 16-bit words that wrap and then lose their upper three bits. The
number of cells divides the number of words, so neither the wrapping nor the loss shows:
any sequence of moves adds up to one integer, and the address is its remainder. Hence the
order of the moves does not matter, and a move down takes back the same move up.
-/

namespace RingMachine.Address

inductive Start
  | word (w : UInt16)
  | index (i : Nat)
  deriving DecidableEq, Repr

namespace Start

def address : Start → Address
  | word w => ofWord w
  | index i => ofIndex i

def number : Start → Nat
  | word w => w.toNat
  | index i => i

theorem val_address (start : Start) : start.address.val = start.number % 8192 := by
  cases start with
  | word w => exact val_ofWord w
  | index i => exact val_ofIndex i

end Start

inductive Move
  | next
  | prev
  | advance (offset : UInt16)
  | retreat (offset : UInt16)
  deriving DecidableEq, Repr

namespace Move

def apply : Move → Address → Address
  | next, a => a.next
  | prev, a => a.prev
  | advance offset, a => a.advance offset
  | retreat offset, a => a.retreat offset

def up : Move → Nat
  | next => 1
  | advance offset => offset.toNat
  | prev | retreat _ => 0

def down : Move → Nat
  | prev => 1
  | retreat offset => offset.toNat
  | next | advance _ => 0

theorem val_apply (move : Move) (a : Address) :
    ((move.apply a).val : Int) = (a.val + move.up - move.down) % 8192 := by
  cases move with
  | next =>
    simp only [apply, up, down, Address.next, val_advance, UInt16.toNat_one]
    omega
  | prev =>
    simp only [apply, up, down, Address.prev, val_retreat, UInt16.toNat_one]
    omega
  | advance offset =>
    simp only [apply, up, down, val_advance]
    omega
  | retreat offset =>
    -- What is taken off may be more than there is. The word then wraps, by rounds of the ring.
    have hoffset := offset.toNat_lt
    simp only [apply, up, down, val_retreat]
    omega

end Move

def after (a : Address) (moves : List Move) : Address :=
  moves.foldl (fun a move => move.apply a) a

def raised (moves : List Move) : Nat :=
  (moves.map Move.up).sum

def lowered (moves : List Move) : Nat :=
  (moves.map Move.down).sum

@[simp] theorem after_nil (a : Address) : a.after [] = a := rfl

@[simp] theorem after_cons (a : Address) (move : Move) (moves : List Move) :
    a.after (move :: moves) = (move.apply a).after moves := rfl

theorem val_after (a : Address) (moves : List Move) :
    ((a.after moves).val : Int) = (a.val + raised moves - lowered moves) % 8192 := by
  induction moves generalizing a with
  | nil =>
    have hval := a.isLt
    simp only [after_nil, raised, lowered, List.map_nil, List.sum_nil]
    omega
  | cons move moves ih =>
    have hmove := move.val_apply a
    rw [after_cons, ih]
    simp only [raised, lowered, List.map_cons, List.sum_cons]
    omega

theorem after_perm (a : Address) {moves others : List Move} (h : others.Perm moves) :
    a.after others = a.after moves := by
  have hraised : raised others = raised moves := (h.map Move.up).sum_nat
  have hlowered : lowered others = lowered moves := (h.map Move.down).sum_nat
  apply Fin.ext
  apply Int.ofNat_inj.mp
  rw [val_after, val_after, hraised, hlowered]

theorem retreat_advance (a : Address) (offset : UInt16) :
    (a.advance offset).retreat offset = a := by
  have hval := a.isLt
  have hafter := a.val_after [.advance offset, .retreat offset]
  simp only [after_cons, after_nil, Move.apply, raised, lowered, Move.up, Move.down, List.map_cons,
    List.map_nil, List.sum_cons, List.sum_nil] at hafter
  apply Fin.ext
  omega

/-- An address that is made and moved is the remainder of what it was made from, with all
that was added and without all that was taken off. -/
theorem moves_exact (start : Start) (moves : List Move) :
    (start.address.after moves).word.toNat < 8192 ∧
    ((start.address.after moves).word.toNat : Int) =
      (start.number + raised moves - lowered moves) % 8192 ∧
    (∀ others : List Move, others.Perm moves →
      start.address.after others = start.address.after moves) ∧
    ∀ offset, ((start.address.after moves).advance offset).retreat offset =
      start.address.after moves := by
  refine ⟨?_, ?_, fun others h => start.address.after_perm h, fun offset => retreat_advance _ offset⟩
  · rw [toNat_word]
    exact Fin.isLt _
  · have hstart := start.val_address
    rw [toNat_word, val_after]
    omega

/-- Over the ends of the words and of the ring, in both directions. -/
def roundTrip : List Move :=
  [.advance 0xffff, .prev, .retreat 0x8001, .next]

theorem moves_exact_roundTrip :
    roundTrip.reverse.Perm roundTrip ∧
      (Start.word 0xffff).address.after roundTrip.reverse = (Start.word 0xffff).address.after roundTrip ∧
      ((Start.word 0xffff).address.after roundTrip).word.toNat = 0x1ffd := by
  have hperm : roundTrip.reverse.Perm roundTrip := List.reverse_perm _
  obtain ⟨-, hexact, horder, -⟩ := moves_exact (.word 0xffff) roundTrip
  refine ⟨hperm, horder _ hperm, ?_⟩
  have hnumber : ((Start.word 0xffff).number + raised roundTrip - lowered roundTrip : Int) % 8192 =
      0x1ffd := by decide
  omega

end RingMachine.Address

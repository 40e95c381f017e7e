import Mathlib.Data.List.Induction
import Mathlib.Data.Nat.ModEq
import Mathlib.Order.Bounds.Basic
import RingMachine.Proofs.Layout

/-!
# Copies of any length

Bytes that are copied onto the ring may go round it several times. Then several bytes land
on one cell, and the last of them stays. A copy can be cut anywhere, and it does what
writing the bytes one by one does.
-/

namespace RingMachine.Ram

def landing (start : Nat) (count : Nat) (a : Address) : Set Nat :=
  {i | i < count ∧ start + i ≡ a.val [MOD 8192]}

/-- A cell holds the last byte that landed on it, or what it held before if none did. -/
def HoldsLast (start : Nat) (bytes : List UInt8) (before after : Ram) (a : Address) : Prop :=
  (∃ i, IsGreatest (landing start bytes.length a) i ∧ bytes[i]? = some (after.get a)) ∨
    landing start bytes.length a = ∅ ∧ after.get a = before.get a

variable {start count : Nat} {a : Address}

theorem lands_iff {i : Nat} : start + i ≡ a.val [MOD 8192] ↔ a = .ofIndex (start + i) := by
  have ha := a.isLt
  rw [Fin.ext_iff, Address.val_ofIndex, Nat.ModEq, Nat.mod_eq_of_lt ha, eq_comm]

theorem isGreatest_landing (h : a = .ofIndex (start + count)) :
    IsGreatest (landing start (count + 1) a) count :=
  ⟨⟨Nat.lt_succ_self count, lands_iff.mpr h⟩, fun _ hi => Nat.le_of_lt_succ hi.1⟩

theorem landing_succ (h : a ≠ .ofIndex (start + count)) :
    landing start (count + 1) a = landing start count a := by
  ext i
  constructor
  · rintro ⟨hi, hlands⟩
    refine ⟨Nat.lt_of_le_of_ne (Nat.le_of_lt_succ hi) ?_, hlands⟩
    rintro rfl
    exact h (lands_iff.mp hlands)
  · rintro ⟨hi, hlands⟩
    exact ⟨Nat.lt_succ_of_lt hi, hlands⟩

theorem copyFrom_append (ram : Ram) (start : Nat) (front back : List UInt8) :
    ram.copyFrom (.ofIndex start) (front ++ back) =
      (ram.copyFrom (.ofIndex start) front).copyFrom (.ofIndex (start + front.length)) back := by
  induction front generalizing ram start with
  | nil => rfl
  | cons byte front ih =>
    rw [List.cons_append, copyFrom_cons, copyFrom_cons, Address.next_ofIndex, ih, List.length_cons,
      Nat.add_assoc, Nat.add_comm 1]

theorem copyFrom_concat (ram : Ram) (start : Nat) (bytes : List UInt8) (byte : UInt8) :
    ram.copyFrom (.ofIndex start) (bytes ++ [byte]) =
      (ram.copyFrom (.ofIndex start) bytes).set (.ofIndex (start + bytes.length)) byte :=
  copyFrom_append ram start bytes [byte]

theorem holdsLast_copyFrom (ram : Ram) (start : Nat) (bytes : List UInt8) (a : Address) :
    HoldsLast start bytes ram (ram.copyFrom (.ofIndex start) bytes) a := by
  -- Bytes are added at the end, so that the one added last decides.
  induction bytes using List.reverseRecOn with
  | nil =>
    refine .inr ⟨?_, rfl⟩
    ext i
    simp [landing]
  | append_singleton bytes byte ih =>
    rw [HoldsLast, copyFrom_concat, get_set, List.length_append, List.length_singleton]
    by_cases hlast : a = .ofIndex (start + bytes.length)
    · left
      exact ⟨bytes.length, isGreatest_landing hlast, by simp [hlast]⟩
    · rw [landing_succ hlast, if_neg hlast]
      rcases ih with ⟨i, hgreatest, hbyte⟩ | hnone
      · left
        refine ⟨i, hgreatest, ?_⟩
        rw [List.getElem?_append_left hgreatest.1.1]
        exact hbyte
      · exact .inr hnone

/-- What a copy leaves in each cell, however often it goes round the ring; how it can be
cut in two; and the writes that it amounts to. -/
theorem copy_last_wins (ram : Ram) (start : Address) (bytes : List UInt8) :
    (∀ a, HoldsLast start.val bytes ram (ram.copyFrom start bytes) a) ∧
    (∀ more, ram.copyFrom start (bytes ++ more) =
      (ram.copyFrom start bytes).copyFrom (.ofIndex (start.val + bytes.length)) more) ∧
    ram.copyFrom start bytes =
      (bytes.zipIdx start.val).foldl (fun ram p => Memory.write ram (.ofIndex p.2) p.1) ram := by
  have hlast := holdsLast_copyFrom ram start.val bytes
  have happend := copyFrom_append ram start.val bytes
  have hwrites := foldl_write bytes ram start.val
  simp only [Address.ofIndex_val] at hlast happend hwrites
  exact ⟨hlast, happend, hwrites.symm⟩

end RingMachine.Ram

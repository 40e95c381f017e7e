/-!
# Addresses

A cell of the ring is named by a 13-bit address. Arithmetic is done on 16-bit
words whose upper three bits are then dropped, so it is arithmetic modulo the
number of cells, and no address is ever out of range.
-/

namespace RingMachine.Text

def hexDigits (width n : Nat) : List Char :=
  (Nat.toDigits 16 n).leftpad width '0'

def hex (width n : Nat) : String :=
  String.ofList (hexDigits width n)

@[simp] theorem toList_hex (width n : Nat) : (hex width n).toList = hexDigits width n := by
  simp [hex]

end RingMachine.Text

namespace RingMachine

abbrev addressBits : Nat := 13

abbrev memorySize : Nat := 8192

-- The zero of `Nat` is written out, for it is the one that numerals of `Fin` ask for.
instance : @NeZero Nat Zero.ofOfNat0 memorySize := ⟨by decide⟩

abbrev Address := Fin 8192

namespace Address

theorem word_mask (w : UInt16) : (w &&& 0x1fff).toNat = w.toNat % 8192 := by
  rw [UInt16.toNat_and]
  exact Nat.and_two_pow_sub_one_eq_mod w.toNat 13

theorem index_mask (i : Nat) : i &&& 0x1fff = i % 8192 :=
  Nat.and_two_pow_sub_one_eq_mod i 13

def ofWord (w : UInt16) : Address :=
  ⟨(w &&& 0x1fff).toNat, by rw [word_mask]; exact Nat.mod_lt _ (by decide)⟩

def ofIndex (i : Nat) : Address :=
  ⟨i &&& 0x1fff, by rw [index_mask]; exact Nat.mod_lt _ (by decide)⟩

def word (a : Address) : UInt16 :=
  UInt16.ofNat a.val

def advance (a : Address) (offset : UInt16) : Address :=
  ofWord (a.word + offset)

def retreat (a : Address) (offset : UInt16) : Address :=
  ofWord (a.word - offset)

def next (a : Address) : Address :=
  a.advance 1

def prev (a : Address) : Address :=
  a.retreat 1

def hex (a : Address) : String :=
  "0x" ++ Text.hex 4 a.val

def describe (a : Address) : String :=
  "Address(" ++ a.val.repr ++ ")"

@[simp] theorem val_ofWord (w : UInt16) : (ofWord w).val = w.toNat % 8192 :=
  word_mask w

@[simp] theorem val_ofIndex (i : Nat) : (ofIndex i).val = i % 8192 :=
  index_mask i

@[simp] theorem toNat_word (a : Address) : a.word.toNat = a.val := by
  have := a.isLt
  simp only [word, UInt16.toNat_ofNat']
  omega

@[simp] theorem ofIndex_val (a : Address) : ofIndex a.val = a := by
  have := a.isLt
  apply Fin.ext
  rw [val_ofIndex]
  omega

theorem val_advance (a : Address) (offset : UInt16) :
    (a.advance offset).val = (a.val + offset.toNat) % 8192 := by
  simp only [advance, val_ofWord, UInt16.toNat_add, toNat_word]
  omega

theorem val_retreat (a : Address) (offset : UInt16) :
    (a.retreat offset).val = (a.val + (65536 - offset.toNat)) % 8192 := by
  have := offset.toNat_lt
  simp only [retreat, val_ofWord, UInt16.toNat_sub, toNat_word]
  omega

theorem next_eq (a : Address) : a.next = a + 1 := by
  apply Fin.ext
  simp [next, val_advance, Fin.val_add]

theorem prev_eq (a : Address) : a.prev = a - 1 := by
  have := a.isLt
  apply Fin.ext
  simp only [prev, val_retreat, Fin.val_sub]
  change (a.val + (65536 - 1)) % 8192 = (8192 - 1 + a.val) % 8192
  omega

@[simp] theorem prev_next (a : Address) : a.next.prev = a := by
  have := a.isLt
  apply Fin.ext
  simp only [next, prev, val_advance, val_retreat]
  change ((a.val + 1) % 8192 + (65536 - 1)) % 8192 = a.val
  omega

@[simp] theorem next_prev (a : Address) : a.prev.next = a := by
  have := a.isLt
  apply Fin.ext
  simp only [next, prev, val_advance, val_retreat]
  change ((a.val + (65536 - 1)) % 8192 + 1) % 8192 = a.val
  omega

end Address

end RingMachine

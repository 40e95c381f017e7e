import RingMachine.Opcode

/-!
# Memories

A memory answers reads and writes at every address; neither can fail. What a
write does is the memory's own affair: a part of it may be read-only. Reading a
cell of plain memory gives the last byte written to it. The view of a `Ram` is
`Ram.get`; each operation has its equation for it, and two memories with the same
view are equal.
-/

namespace RingMachine

class Memory (μ : Type) where
  read : μ → Address → UInt8
  write : μ → Address → UInt8 → μ

namespace Memory

variable {μ : Type} [Memory μ]

/-- The lowest address that holds the sentinel. -/
def findSentinel (memory : μ) : Option Address :=
  (List.finRange 8192).find? fun a => read memory a == sentinel

end Memory

-- ---------------------------------------------------------------------------
-- Plain memory
-- ---------------------------------------------------------------------------

structure Ram where
  cells : Vector UInt8 8192
  deriving DecidableEq

namespace Ram

def zero : Ram :=
  ⟨Vector.replicate 8192 0⟩

def get (ram : Ram) (a : Address) : UInt8 :=
  ram.cells[a]

def set (ram : Ram) (a : Address) (byte : UInt8) : Ram :=
  ⟨ram.cells.set a byte⟩

instance : Memory Ram where
  read := get
  write := set

/-- Writes the bytes upwards from an address, around the ring if need be; a
byte that comes round to a cell again replaces the one before it. -/
def copyFrom (ram : Ram) (start : Address) : List UInt8 → Ram
  | [] => ram
  | byte :: bytes => (ram.set start byte).copyFrom start.next bytes

def used (ram : Ram) : Nat :=
  ram.cells.countP (· != 0)

def describe (ram : Ram) : String :=
  "Ram \x7b non_zero_cells: " ++ ram.used.repr ++ ", .. \x7d"

def describeLong (ram : Ram) : String :=
  "Ram \x7b\n    non_zero_cells: " ++ ram.used.repr ++ ",\n    ..\n\x7d"

@[ext] theorem ext {one two : Ram} (h : ∀ a, one.get a = two.get a) : one = two := by
  cases one with
  | mk cells =>
    cases two with
    | mk others =>
      congr 1
      apply Vector.ext
      intro i hi
      exact h ⟨i, hi⟩

@[simp] theorem get_zero (a : Address) : zero.get a = 0 := by
  simp [zero, get]

theorem get_set (ram : Ram) (a b : Address) (byte : UInt8) :
    (ram.set a byte).get b = if b = a then byte else ram.get b := by
  by_cases h : b = a
  · simp [get, set, h]
  · have hv : a.val ≠ b.val := fun hv => h (Fin.ext hv.symm)
    simp [get, set, h, Vector.getElem_set_ne, hv]

@[simp] theorem read_eq_get (ram : Ram) (a : Address) : Memory.read ram a = ram.get a := rfl

@[simp] theorem write_eq_set (ram : Ram) (a : Address) (byte : UInt8) :
    Memory.write ram a byte = ram.set a byte := rfl

@[simp] theorem copyFrom_nil (ram : Ram) (start : Address) : ram.copyFrom start [] = ram := rfl

@[simp] theorem copyFrom_cons (ram : Ram) (start : Address) (byte : UInt8) (bytes : List UInt8) :
    ram.copyFrom start (byte :: bytes) = (ram.set start byte).copyFrom start.next bytes := rfl

end Ram

end RingMachine

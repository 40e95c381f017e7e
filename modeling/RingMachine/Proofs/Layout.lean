import RingMachine.Program

/-!
# Bytes laid out in memory

`Stored` says that consecutive cells hold given bytes. Copying bytes into plain
memory stores them, and so does loading an image, whatever the memory held
before. A memory that holds the text of an image and the sentinel behind it is
`Intact`, and then the first sentinel is the one of the image.
-/

namespace RingMachine

-- ---------------------------------------------------------------------------
-- Indices
-- ---------------------------------------------------------------------------

namespace Address

theorem next_ofIndex (i : Nat) : (ofIndex i).next = ofIndex (i + 1) := by
  apply Fin.ext
  simp only [next, val_advance, val_ofIndex]
  change (i % 8192 + 1) % 8192 = (i + 1) % 8192
  omega

theorem prev_ofIndex (i : Nat) : (ofIndex (i + 1)).prev = ofIndex i := by
  rw [← next_ofIndex, prev_next]

theorem val_ofIndex_of_lt {i : Nat} (h : i < 8192) : (ofIndex i).val = i := by
  rw [val_ofIndex]
  exact Nat.mod_eq_of_lt h

theorem ofIndex_add_ne {i k : Nat} (hk : k + 1 < 8192) : ofIndex (i + 1 + k) ≠ ofIndex i := by
  intro h
  have := congrArg Fin.val h
  simp only [val_ofIndex] at this
  omega

end Address

-- ---------------------------------------------------------------------------
-- Stored bytes
-- ---------------------------------------------------------------------------

section
variable {μ : Type} [Memory μ] {memory : μ}

def Stored (memory : μ) (start : Nat) (bytes : List UInt8) : Prop :=
  ∀ k byte, bytes[k]? = some byte → Memory.read memory (.ofIndex (start + k)) = byte

theorem Stored.append_left {start : Nat} {first second : List UInt8}
    (h : Stored memory start (first ++ second)) : Stored memory start first := by
  intro k byte hk
  obtain ⟨hlt, -⟩ := List.getElem?_eq_some_iff.mp hk
  apply h k byte
  rwa [List.getElem?_append_left hlt]

theorem Stored.read {start : Nat} {before after : List UInt8} {byte : UInt8}
    (h : Stored memory start (before ++ byte :: after)) :
    Memory.read memory (.ofIndex (start + before.length)) = byte := by
  apply h
  simp

theorem Memory.findSentinel_eq_some_iff {a : Address} :
    Memory.findSentinel memory = some a ↔
      Memory.read memory a = sentinel ∧ ∀ b < a, Memory.read memory b ≠ sentinel := by
  simp only [Memory.findSentinel, List.find?_eq_some_iff_getElem, List.length_finRange,
    List.getElem_finRange]
  constructor
  · rintro ⟨ha, i, hi, rfl, hbefore⟩
    refine ⟨by simpa using ha, fun b hb => ?_⟩
    simpa using hbefore b.val hb
  · rintro ⟨ha, hbefore⟩
    refine ⟨by simpa using ha, a.val, a.isLt, rfl, fun j hj => ?_⟩
    simpa using hbefore ⟨j, by omega⟩ hj

end

-- ---------------------------------------------------------------------------
-- Plain memory
-- ---------------------------------------------------------------------------

namespace Ram

/-- Bytes that are written one by one, each at its own index, are copied. -/
theorem foldl_write (bytes : List UInt8) (ram : Ram) (start : Nat) :
    (bytes.zipIdx start).foldl (fun ram p => Memory.write ram (.ofIndex p.2) p.1) ram =
      ram.copyFrom (.ofIndex start) bytes := by
  induction bytes generalizing ram start with
  | nil => rfl
  | cons byte bytes ih =>
    rw [List.zipIdx_cons, List.foldl_cons, ih, copyFrom_cons, Address.next_ofIndex, write_eq_set]

theorem get_copyFrom_of_ne {bytes : List UInt8} {ram : Ram} {start : Nat} {a : Address}
    (h : ∀ k < bytes.length, a ≠ .ofIndex (start + k)) :
    (ram.copyFrom (.ofIndex start) bytes).get a = ram.get a := by
  induction bytes generalizing ram start with
  | nil => rfl
  | cons byte bytes ih =>
    rw [copyFrom_cons, Address.next_ofIndex, ih, get_set, if_neg]
    · exact h 0 (by simp)
    · intro k hk
      have := h (k + 1) (by simpa using hk)
      rwa [Nat.add_assoc, Nat.add_comm 1 k]

theorem stored_copyFrom {bytes : List UInt8} (ram : Ram) (start : Nat) (h : bytes.length ≤ 8192) :
    Stored (ram.copyFrom (.ofIndex start) bytes) start bytes := by
  induction bytes generalizing ram start with
  | nil => simp [Stored]
  | cons byte bytes ih =>
    simp only [List.length_cons] at h
    intro k found hk
    cases k with
    | zero =>
      -- The rest is too short to come round to the first byte.
      simp only [List.getElem?_cons_zero, Option.some.injEq] at hk
      subst hk
      rw [read_eq_get, copyFrom_cons, Address.next_ofIndex, get_copyFrom_of_ne, Nat.add_zero, get_set,
        if_pos rfl]
      intro k hk
      exact (Address.ofIndex_add_ne (by omega)).symm
    | succ k =>
      rw [copyFrom_cons, Address.next_ofIndex, Nat.add_comm k 1, ← Nat.add_assoc]
      exact ih _ _ (by omega) k found (by simpa using hk)

end Ram

-- ---------------------------------------------------------------------------
-- Images
-- ---------------------------------------------------------------------------

namespace Image

theorem length_lt (image : Image) : image.text.length < 8192 := by
  have := image.fits
  simp only [memorySize] at this
  omega

/-- The text of the image and its sentinel stand where loading puts them. -/
def Intact {μ : Type} [Memory μ] (image : Image) (memory : μ) : Prop :=
  Stored memory 0 (image.text ++ [sentinel])

theorem load_ram (image : Image) (ram : Ram) : image.load ram = ram.copyFrom 0 image.bytes :=
  Ram.foldl_write image.bytes ram 0

theorem intact_load (image : Image) (ram : Ram) : image.Intact (image.load ram) := by
  have hbytes : image.bytes = (image.text ++ [sentinel]) ++ image.data := by simp [bytes]
  have h : Stored (ram.copyFrom 0 image.bytes) 0 ((image.text ++ [sentinel]) ++ image.data) := by
    rw [← hbytes]
    exact Ram.stored_copyFrom ram 0 image.size_le
  rw [load_ram]
  exact h.append_left

theorem intact_ram (image : Image) : image.Intact image.ram := by
  have h := image.intact_load Ram.zero
  rwa [load_ram] at h

end Image

end RingMachine

import RingMachine.Memory

/-!
# Programs

A text can be loaded if its brackets pair up, no more than 255 of them are open
at once, and it does not hold the sentinel. The check reads the text once, with
the offsets of the brackets that are open, and blames the first byte at which
it fails; an open bracket left at the end is blamed last, the innermost first.

An image is a checked text, the sentinel behind it, and data behind that; it
fits on the ring. Loading writes it upwards from address zero and leaves all
other cells alone.
-/

namespace RingMachine

-- ---------------------------------------------------------------------------
-- Checks
-- ---------------------------------------------------------------------------

/-- The deepest nesting of loops, all that an 8-bit counter can follow. -/
def maxNesting : Nat := 255

inductive LoadError
  | sentinelInText (offset : Nat)
  | unclosedLoop (offset : Nat)
  | strayClose (offset : Nat)
  | nestingTooDeep (offset : Nat)
  | imageTooLarge (size : Nat)
  deriving DecidableEq, Repr

def LoadError.message : LoadError → String
  | sentinelInText offset => "program text contains the sentinel byte at offset " ++ offset.repr
  | unclosedLoop offset => "unclosed `[` at offset " ++ offset.repr
  | strayClose offset => "unexpected `]` at offset " ++ offset.repr
  | nestingTooDeep offset => "loops nested deeper than 255 levels at offset " ++ offset.repr
  | imageTooLarge size => "image of " ++ size.repr ++ " bytes does not fit in 8192 memory cells"

namespace Program

/-- Checks the rest of a text, given the open brackets, innermost first, and the offset reached. -/
def checkFrom (opened : List Nat) (offset : Nat) : List UInt8 → Except LoadError Unit
  | [] =>
    match opened with
    | [] => .ok ()
    | innermost :: _ => .error (.unclosedLoop innermost)
  | byte :: rest =>
    match Opcode.decode byte with
    | .halt => .error (.sentinelInText offset)
    | .loopOpen =>
      if opened.length = maxNesting then .error (.nestingTooDeep offset)
      else checkFrom (offset :: opened) (offset + 1) rest
    | .loopClose =>
      match opened with
      | [] => .error (.strayClose offset)
      | _ :: outer => checkFrom outer (offset + 1) rest
    | _ => checkFrom opened (offset + 1) rest

def check (text : List UInt8) : Except LoadError Unit :=
  checkFrom [] 0 text

end Program

-- ---------------------------------------------------------------------------
-- Images
-- ---------------------------------------------------------------------------

structure Image where
  text : List UInt8
  data : List UInt8
  checked : Program.check text = .ok ()
  fits : text.length + 1 + data.length ≤ memorySize

namespace Image

def bytes (image : Image) : List UInt8 :=
  image.text ++ sentinel :: image.data

def size (image : Image) : Nat :=
  image.bytes.length

def origin (image : Image) : Address :=
  .ofIndex image.text.length

def dataStart (image : Image) : Address :=
  image.origin.next

/-- The image of a text without data. The check comes before the size. -/
def ofText (text : List UInt8) : Except LoadError Image :=
  match h : Program.check text with
  | .error e => .error e
  | .ok () =>
    if fits : text.length + 1 ≤ memorySize then .ok { text, data := [], checked := h, fits }
    else .error (.imageTooLarge (text.length + 1))

def withData (image : Image) (more : List UInt8) : Except LoadError Image :=
  if fits : image.text.length + 1 + (image.data ++ more).length ≤ memorySize then
    .ok { image with data := image.data ++ more, fits }
  else .error (.imageTooLarge (image.size + more.length))

def load {μ : Type} [Memory μ] (image : Image) (memory : μ) : μ :=
  image.bytes.zipIdx.foldl (fun memory (byte, i) => Memory.write memory (.ofIndex i) byte) memory

def ram (image : Image) : Ram :=
  Ram.zero.copyFrom 0 image.bytes

theorem size_eq (image : Image) : image.size = image.text.length + 1 + image.data.length := by
  simp [size, bytes]
  omega

theorem size_le (image : Image) : image.size ≤ memorySize := by
  rw [size_eq]
  exact image.fits

theorem val_origin (image : Image) : image.origin.val = image.text.length := by
  have := image.fits
  rw [origin, Address.val_ofIndex]
  exact Nat.mod_eq_of_lt (by simp only [memorySize] at this; omega)

end Image

end RingMachine

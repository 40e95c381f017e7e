import RingMachine.Address

/-!
# Instructions

Every byte is an instruction. Eleven characters stand for operations, and all
other bytes are comments, which do nothing. A listing has one line for each byte
of a text that is not a comment, with the offset, the character and the mnemonic;
it keeps the offsets of the text, so comments leave gaps and nothing else is lost.
-/

namespace RingMachine

inductive Opcode
  | incrementPointer
  | decrementPointer
  | incrementCell
  | decrementCell
  | loopOpen
  | loopClose
  | store
  | load
  | output
  | input
  | halt
  | nop
  deriving DecidableEq, Repr

/-- The byte that ends a program text; it is also the halt instruction. -/
def sentinel : UInt8 := 0x40

namespace Opcode

/-- The operations, without `nop`, which has no byte of its own. -/
def all : List Opcode :=
  [incrementPointer, decrementPointer, incrementCell, decrementCell, loopOpen, loopClose,
    store, load, output, input, halt]

def decode (byte : UInt8) : Opcode :=
  match Char.ofUInt8 byte with
  | '>' => incrementPointer
  | '<' => decrementPointer
  | '+' => incrementCell
  | '-' => decrementCell
  | '[' => loopOpen
  | ']' => loopClose
  | '$' => store
  | '!' => load
  | '.' => output
  | ',' => input
  | '@' => halt
  | _ => nop

def encoding? : Opcode → Option UInt8
  | incrementPointer => some 0x3e
  | decrementPointer => some 0x3c
  | incrementCell => some 0x2b
  | decrementCell => some 0x2d
  | loopOpen => some 0x5b
  | loopClose => some 0x5d
  | store => some 0x24
  | load => some 0x21
  | output => some 0x2e
  | input => some 0x2c
  | halt => some sentinel
  | nop => none

def mnemonic : Opcode → String
  | incrementPointer => "incp"
  | decrementPointer => "decp"
  | incrementCell => "inc"
  | decrementCell => "dec"
  | loopOpen => "loop"
  | loopClose => "endloop"
  | store => "store"
  | load => "load"
  | output => "out"
  | input => "in"
  | halt => "halt"
  | nop => "nop"

def name : Opcode → String
  | incrementPointer => "IncrementPointer"
  | decrementPointer => "DecrementPointer"
  | incrementCell => "IncrementCell"
  | decrementCell => "DecrementCell"
  | loopOpen => "LoopOpen"
  | loopClose => "LoopClose"
  | store => "Store"
  | load => "Load"
  | output => "Output"
  | input => "Input"
  | halt => "Halt"
  | nop => "Nop"

def describe (byte : UInt8) : String :=
  "Instruction \x7b byte: 0x" ++ Text.hex 2 byte.toNat ++ ", opcode: " ++ (decode byte).name ++ " \x7d"

theorem encoding_decode_ofNat : ∀ n : Fin 256,
    decode (UInt8.ofNat n.val) ≠ nop →
      (decode (UInt8.ofNat n.val)).encoding? = some (UInt8.ofNat n.val) := by
  decide +kernel

theorem encoding_decode {byte : UInt8} (h : decode byte ≠ nop) :
    (decode byte).encoding? = some byte := by
  simpa using encoding_decode_ofNat ⟨byte.toNat, byte.toNat_lt⟩ (by simpa using h)

theorem decode_encoding {op : Opcode} {byte : UInt8} (h : op.encoding? = some byte) :
    decode byte = op := by
  cases op <;> cases h <;> rfl

theorem decode_eq_iff {op : Opcode} (hop : op ≠ nop) (byte : UInt8) :
    decode byte = op ↔ op.encoding? = some byte := by
  constructor
  · intro h
    subst h
    exact encoding_decode hop
  · exact decode_encoding

theorem decode_eq_halt (byte : UInt8) : decode byte = halt ↔ byte = sentinel := by
  rw [decode_eq_iff (by decide)]
  simp [encoding?, eq_comm]

theorem decode_eq_loopOpen (byte : UInt8) : decode byte = loopOpen ↔ byte = 0x5b := by
  rw [decode_eq_iff (by decide)]
  simp [encoding?, eq_comm]

theorem decode_eq_loopClose (byte : UInt8) : decode byte = loopClose ↔ byte = 0x5d := by
  rw [decode_eq_iff (by decide)]
  simp [encoding?, eq_comm]

end Opcode

end RingMachine

namespace RingMachine.Listing

structure Entry where
  offset : Nat
  byte : UInt8
  deriving DecidableEq, Repr

def Entry.opcode (entry : Entry) : Opcode :=
  .decode entry.byte

def Entry.line (entry : Entry) : String :=
  Text.hex 4 entry.offset ++ "  " ++ (Char.ofUInt8 entry.byte).toString ++ "  " ++
    entry.opcode.mnemonic ++ "\n"

def entriesFrom (start : Nat) (text : List UInt8) : List Entry :=
  (text.zipIdx start).filterMap fun (byte, offset) =>
    if Opcode.decode byte = .nop then none else some ⟨offset, byte⟩

def entries (text : List UInt8) : List Entry :=
  entriesFrom 0 text

def render (entries : List Entry) : String :=
  String.join (entries.map Entry.line)

def ofText (text : List UInt8) : String :=
  render (entries text)

theorem entriesFrom_cons (start : Nat) (byte : UInt8) (text : List UInt8) :
    entriesFrom start (byte :: text) =
      (if Opcode.decode byte = .nop then [] else [⟨start, byte⟩]) ++ entriesFrom (start + 1) text := by
  by_cases h : Opcode.decode byte = .nop <;> simp [entriesFrom, h]

theorem entriesFrom_append (start : Nat) (front back : List UInt8) :
    entriesFrom start (front ++ back) =
      entriesFrom start front ++ entriesFrom (start + front.length) back := by
  simp [entriesFrom, List.zipIdx_append]

end RingMachine.Listing

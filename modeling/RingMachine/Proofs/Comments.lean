import RingMachine.Proofs.TextSafety

/-!
# Texts without their comments

The bytes of a text that are no operations can be left out. What is left is checked
alike, has the same loops and, with the same data, makes an image. An offset in the text
corresponds to the number of operations before it: where an operation stands in the text,
it stands at that number in what is left, and so do the ends of a loop.
-/

namespace RingMachine

-- ---------------------------------------------------------------------------
-- Texts and trees
-- ---------------------------------------------------------------------------

def Opcode.operations (ops : List Opcode) : List Opcode :=
  ops.filter (· ≠ .nop)

@[simp] theorem Opcode.operations_append (first second : List Opcode) :
    operations (first ++ second) = operations first ++ operations second :=
  List.filter_append ..

namespace Program

def uncommented (text : List UInt8) : List UInt8 :=
  text.filter fun byte => Opcode.decode byte ≠ .nop

theorem decode_uncommented (text : List UInt8) :
    (uncommented text).map Opcode.decode = Opcode.operations (text.map Opcode.decode) := by
  rw [uncommented, Opcode.operations, List.filter_map]
  rfl

theorem length_uncommented (text : List UInt8) : (uncommented text).length ≤ text.length :=
  List.length_filter_le _ _

theorem uncommented_of_operation {byte : UInt8} (h : Opcode.decode byte ≠ .nop)
    (rest : List UInt8) : uncommented (byte :: rest) = byte :: uncommented rest :=
  List.filter_cons_of_pos (by simpa using h)

theorem uncommented_of_comment {byte : UInt8} (h : Opcode.decode byte = .nop)
    (rest : List UInt8) : uncommented (byte :: rest) = uncommented rest :=
  List.filter_cons_of_neg (by simpa using h)

/-- The check counts the brackets that are open, and looks at no comment. -/
theorem checkFrom_uncommented {text : List UInt8} {stack other : List Nat} {offset : Nat}
    (h : checkFrom stack offset text = .ok ()) (hlength : other.length = stack.length)
    (start : Nat) : checkFrom other start (uncommented text) = .ok () := by
  induction text generalizing stack other offset start with
  | nil =>
    cases stack with
    | nil =>
      obtain rfl := List.length_eq_zero_iff.mp hlength
      rfl
    | cons innermost outer => cases h
  | cons byte rest ih =>
    have hrest := (checkFrom_cons_of_ok h rest).symm.trans h
    rcases checkFrom_cons_ok h with ⟨hop, hroom⟩ | ⟨hop, innermost, outer, rfl⟩ | ⟨action, hop⟩
    · rw [hop] at hrest
      have hpushed : (start :: other).length = (offset :: stack).length := by simp [hlength]
      rw [uncommented_of_operation (by simp [hop])]
      simpa [checkFrom, hop, hlength, hroom] using ih hrest hpushed (start + 1)
    · rw [hop] at hrest
      cases other with
      | nil => cases hlength
      | cons top below =>
        have hpopped : below.length = outer.length := by simpa using hlength
        rw [uncommented_of_operation (by simp [hop])]
        simpa [checkFrom, hop] using ih hrest hpopped (start + 1)
    · rw [hop, track_action] at hrest
      cases action with
      | nop =>
        rw [uncommented_of_comment hop]
        exact ih hrest hlength start
      | _ =>
        rw [uncommented_of_operation (by simp [hop, Action.opcode])]
        simpa [checkFrom, hop, Action.opcode] using ih hrest hlength (start + 1)

theorem check_uncommented {text : List UInt8} (h : check text = .ok ()) :
    check (uncommented text) = .ok () :=
  checkFrom_uncommented h rfl 0

end Program

namespace Block

def uncommented : Block → Block
  | done => done
  | act .nop next => next.uncommented
  | act action next => act action next.uncommented
  | loop body next => loop body.uncommented next.uncommented

theorem opcodes_uncommented (block : Block) :
    block.uncommented.opcodes = Opcode.operations block.opcodes := by
  induction block with
  | done => rfl
  | act action next ih => cases action <;> simp [uncommented, opcodes, ih, Opcode.operations, Action.opcode]
  | loop body next ihb ihn => simp [uncommented, opcodes, ihb, ihn, Opcode.operations]

theorem depth_uncommented (block : Block) : block.uncommented.depth = block.depth := by
  induction block with
  | done => rfl
  | act action next ih => cases action <;> simp [uncommented, depth, ih]
  | loop body next ihb ihn => simp [uncommented, depth, ihb, ihn]

end Block

-- ---------------------------------------------------------------------------
-- Offsets
-- ---------------------------------------------------------------------------

def Opcode.rank (ops : List Opcode) (offset : Nat) : Nat :=
  (operations (ops.take offset)).length

namespace Opcode

variable {ops before after : List Opcode} {offset : Nat} {op : Opcode}

theorem rank_of_append (hops : ops = before ++ after) (hoffset : offset = before.length) :
    rank ops offset = (operations before).length := by
  rw [rank, hops, hoffset, List.take_left]

theorem rank_succ (h : ops[offset]? = some op) (hop : op ≠ .nop) :
    rank ops (offset + 1) = rank ops offset + 1 := by
  simp [rank, List.take_add_one, h, operations, hop]

theorem rank_comment (h : ops[offset]? = some .nop) : rank ops (offset + 1) = rank ops offset := by
  simp [rank, List.take_add_one, h, operations]

theorem getElem?_rank (h : ops[offset]? = some op) (hop : op ≠ .nop) :
    (operations ops)[rank ops offset]? = some op := by
  obtain ⟨hlt, hget⟩ := List.getElem?_eq_some_iff.mp h
  have hsplit : ops = ops.take offset ++ op :: ops.drop (offset + 1) := by
    rw [← hget, List.getElem_cons_drop, List.take_append_drop]
  have hkept : operations (op :: ops.drop (offset + 1)) =
      op :: operations (ops.drop (offset + 1)) := List.filter_cons_of_pos (by simpa using hop)
  have hops : operations ops =
      operations (ops.take offset) ++ op :: operations (ops.drop (offset + 1)) := by
    rw [← hkept, ← operations_append, ← hsplit]
  rw [hops, rank, List.getElem?_append_right (Nat.le_refl _), Nat.sub_self]
  rfl

end Opcode

theorem Block.LoopAt.ends {ops : List Opcode} {start : Nat} {body : Block}
    (h : LoopAt ops start body) :
    ops[start]? = some .loopOpen ∧ ops[start + body.size + 1]? = some .loopClose := by
  obtain ⟨before, after, rfl, rfl⟩ := h
  constructor
  · simp
  · have hlength : before.length + body.size + 1 = (before ++ .loopOpen :: body.opcodes).length := by
      simp [Block.size, Nat.add_assoc]
    rw [hlength, ← List.cons_append, ← List.append_assoc, List.getElem?_append_right (Nat.le_refl _),
      Nat.sub_self]
    rfl

/-- A loop is a loop without its comments, and its ends have the ranks of its ends. -/
theorem Block.LoopAt.uncommented {ops : List Opcode} {start : Nat} {body : Block}
    (h : LoopAt ops start body) :
    LoopAt (Opcode.operations ops) (Opcode.rank ops start) body.uncommented ∧
      Opcode.rank ops (start + 1) = Opcode.rank ops start + 1 ∧
      Opcode.rank ops (start + body.size + 1) =
        Opcode.rank ops start + body.uncommented.size + 1 ∧
      Opcode.rank ops (start + body.size + 2) =
        Opcode.rank ops start + body.uncommented.size + 2 := by
  obtain ⟨before, after, hops, rfl⟩ := h
  have hsize : body.uncommented.size = (Opcode.operations body.opcodes).length := by
    rw [Block.size, body.opcodes_uncommented]
  have hrank : Opcode.rank ops before.length = (Opcode.operations before).length :=
    Opcode.rank_of_append hops rfl
  rw [hrank, hsize]
  refine ⟨?_, ?_, ?_, ?_⟩
  · refine ⟨Opcode.operations before, Opcode.operations after, ?_, rfl⟩
    simp [hops, body.opcodes_uncommented, Opcode.operations]
  · have hopen : ops = (before ++ [.loopOpen]) ++ (body.opcodes ++ .loopClose :: after) := by
      simpa using hops
    rw [Opcode.rank_of_append hopen (by simp)]
    simp [Opcode.operations]
  · have hbody : ops = (before ++ .loopOpen :: body.opcodes) ++ .loopClose :: after := by
      simpa using hops
    rw [Opcode.rank_of_append hbody (by simp [Block.size, Nat.add_assoc])]
    simp [Opcode.operations, Nat.add_assoc]
  · have hclose : ops = (before ++ .loopOpen :: (body.opcodes ++ [.loopClose])) ++ after := by
      simpa using hops
    rw [Opcode.rank_of_append hclose (by simp [Block.size, Nat.add_assoc])]
    simp [Opcode.operations, Nat.add_assoc]

namespace Image

theorem ofText_eq_ok_iff {text : List UInt8} {image : Image} :
    ofText text = .ok image ↔ image.text = text ∧ image.data = [] := by
  constructor
  · intro h
    unfold ofText at h
    split at h
    · cases h
    · split at h
      · cases h
        exact ⟨rfl, rfl⟩
      · cases h
  · rcases image with ⟨text, data, checked, fits⟩
    rintro ⟨rfl, rfl⟩
    unfold ofText
    split
    · rename_i hcheck
      rw [checked] at hcheck
      cases hcheck
    · exact dif_pos fits

theorem withData_eq_ok_iff {plain image : Image} {more : List UInt8} :
    plain.withData more = .ok image ↔ image.text = plain.text ∧ image.data = plain.data ++ more := by
  constructor
  · intro h
    unfold withData at h
    split at h
    · cases h
      exact ⟨rfl, rfl⟩
    · cases h
  · rcases image with ⟨text, data, checked, fits⟩
    rintro ⟨rfl, rfl⟩
    rw [withData, dif_pos fits]

def uncommented (image : Image) : Image where
  text := Program.uncommented image.text
  data := image.data
  checked := Program.check_uncommented image.checked
  fits := by
    have hlength := Program.length_uncommented image.text
    have hfits := image.fits
    omega

theorem uncommented_of_loaded {text data : List UInt8} {plain image : Image}
    (htext : ofText text = .ok plain) (hdata : plain.withData data = .ok image) :
    ∃ bare, ofText (Program.uncommented text) = .ok bare ∧
      bare.withData data = .ok image.uncommented := by
  obtain ⟨rfl, hnone⟩ := ofText_eq_ok_iff.mp htext
  obtain ⟨hsame, hmore⟩ := withData_eq_ok_iff.mp hdata
  refine ⟨plain.uncommented, ofText_eq_ok_iff.mpr ⟨rfl, hnone⟩, withData_eq_ok_iff.mpr ⟨?_, hmore⟩⟩
  exact congrArg Program.uncommented hsame

variable {image : Image}

theorem decode_uncommented (image : Image) :
    image.uncommented.text.map Opcode.decode =
      Opcode.operations (image.text.map Opcode.decode) :=
  Program.decode_uncommented image.text

/-- The offset in the text without its comments that an offset corresponds to. -/
def rank (image : Image) (offset : Nat) : Nat :=
  Opcode.rank (image.text.map Opcode.decode) offset

theorem rank_length (image : Image) :
    image.rank image.text.length = image.uncommented.text.length := by
  have hall := image.decode_uncommented
  rw [rank, Opcode.rank_of_append (List.append_nil _).symm (by simp), ← hall, List.length_map]

theorem origin_uncommented_le (image : Image) : image.uncommented.origin ≤ image.origin := by
  rw [Fin.le_def, val_origin, val_origin]
  exact Program.length_uncommented image.text

-- ---------------------------------------------------------------------------
-- Data
-- ---------------------------------------------------------------------------

theorem get_ram_data (image : Image) {i : Nat} (h : image.text.length + 1 + i < 8192) :
    image.ram.get (.ofIndex (image.text.length + 1 + i)) = image.data.getD i 0 := by
  have hbytes : image.bytes[image.text.length + 1 + i]? = image.data[i]? := by
    rw [bytes, List.getElem?_append_right (by omega), Nat.add_assoc, Nat.add_sub_cancel_left,
      Nat.add_comm 1 i, List.getElem?_cons_succ]
  cases hdata : image.data[i]? with
  | some byte =>
    have hstored : Stored image.ram 0 image.bytes := Ram.stored_copyFrom Ram.zero 0 image.size_le
    have hread := hstored _ _ (hbytes.trans hdata)
    rw [Nat.zero_add] at hread
    rw [List.getD, hdata]
    exact hread
  | none =>
    have hbeyond : image.bytes.length ≤ image.text.length + 1 + i := by
      rw [← List.getElem?_eq_none_iff, hbytes, hdata]
    have hcells : ∀ k < image.bytes.length,
        Address.ofIndex (image.text.length + 1 + i) ≠ .ofIndex (0 + k) := by
      intro k hk heq
      have := congrArg Fin.val heq
      rw [Address.val_ofIndex_of_lt h, Address.val_ofIndex_of_lt (by omega)] at this
      omega
    have hzero : image.ram.get (.ofIndex (image.text.length + 1 + i)) =
        Ram.zero.get (.ofIndex (image.text.length + 1 + i)) := Ram.get_copyFrom_of_ne hcells
    rw [hzero, Ram.get_zero, List.getD, hdata]
    rfl

end Image

end RingMachine

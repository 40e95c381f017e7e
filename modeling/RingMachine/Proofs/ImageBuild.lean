import Mathlib.Algebra.Ring.Nat
import Mathlib.Data.Nat.Find
import RingMachine.Proofs.Comments
import RingMachine.Proofs.TextSafety

/-!
# Images from text to boot

An image is built by one call for its text and one for each chunk of its data. The build
fails at the first call that leaves no room on the ring, and otherwise the image holds the
text, the sentinel and the chunks, one behind the other. Loading it changes the cells that
it covers and no others, and a machine that boots on the memory finds the sentinel of the
image, whatever sentinels stand behind it.
-/

namespace RingMachine.Image

-- ---------------------------------------------------------------------------
-- Calls
-- ---------------------------------------------------------------------------

/-- Appends chunks, by one call each. A failure comes with the number of its call. -/
def extend (call : Nat) (image : Image) : List (List UInt8) → Except (Nat × LoadError) Image
  | [] => .ok image
  | chunk :: rest =>
    match image.withData chunk with
    | .error e => .error (call, e)
    | .ok image => image.extend (call + 1) rest

/-- Builds an image. Call number zero is the one for the text. -/
def build (text : List UInt8) (chunks : List (List UInt8)) : Except (Nat × LoadError) Image :=
  match ofText text with
  | .error e => .error (0, e)
  | .ok image => image.extend 1 chunks

def sizeAfter (size : Nat) (chunks : List (List UInt8)) (calls : Nat) : Nat :=
  size + ((chunks.map List.length).take calls).sum

@[simp] theorem sizeAfter_zero (size : Nat) (chunks : List (List UInt8)) :
    sizeAfter size chunks 0 = size := rfl

@[simp] theorem sizeAfter_nil (size calls : Nat) : sizeAfter size [] calls = size := by
  simp [sizeAfter]

@[simp] theorem sizeAfter_cons (size : Nat) (chunk : List UInt8) (rest : List (List UInt8))
    (calls : Nat) :
    sizeAfter size (chunk :: rest) (calls + 1) = sizeAfter (size + chunk.length) rest calls := by
  simp [sizeAfter, Nat.add_assoc]

theorem le_sizeAfter (size : Nat) (chunks : List (List UInt8)) (calls : Nat) :
    size ≤ sizeAfter size chunks calls :=
  Nat.le_add_right _ _

theorem withData_of_fits {image : Image} {chunk : List UInt8}
    (h : image.size + chunk.length ≤ memorySize) : ∃ next, image.withData chunk = .ok next := by
  rw [size_eq] at h
  exact ⟨_, dif_pos (by rw [List.length_append]; omega)⟩

theorem withData_of_large {image : Image} {chunk : List UInt8}
    (h : memorySize < image.size + chunk.length) :
    image.withData chunk = .error (.imageTooLarge (image.size + chunk.length)) := by
  have hlarge := h
  rw [size_eq] at hlarge
  exact dif_neg (by rw [List.length_append]; omega)

theorem size_withData {image next : Image} {chunk : List UInt8}
    (h : image.withData chunk = .ok next) : next.size = image.size + chunk.length := by
  obtain ⟨htext, hdata⟩ := withData_eq_ok_iff.mp h
  rw [size_eq, size_eq, htext, hdata, List.length_append]
  omega

theorem ofText_of_large {text : List UInt8} (hcheck : Program.check text = .ok ())
    (h : memorySize < text.length + 1) : ofText text = .error (.imageTooLarge (text.length + 1)) := by
  unfold ofText
  split
  · rename_i hother
    rw [hcheck] at hother
    cases hother
  · exact dif_neg (by omega)

-- ---------------------------------------------------------------------------
-- Builds that succeed
-- ---------------------------------------------------------------------------

theorem eq_of_parts {one two : Image} (htext : one.text = two.text) (hdata : one.data = two.data) :
    one = two := by
  cases one
  cases two
  cases htext
  cases hdata
  rfl

theorem extend_eq_ok_iff {call : Nat} {plain image : Image} {chunks : List (List UInt8)} :
    plain.extend call chunks = .ok image ↔
      image.text = plain.text ∧ image.data = plain.data ++ chunks.flatten := by
  induction chunks generalizing call plain with
  | nil =>
    constructor
    · rintro ⟨⟩
      simp
    · rintro ⟨htext, hdata⟩
      rw [extend, eq_of_parts htext (by simpa using hdata)]
  | cons chunk rest ih =>
    rw [extend]
    cases hcall : plain.withData chunk with
    | ok next =>
      obtain ⟨htext, hdata⟩ := withData_eq_ok_iff.mp hcall
      simp [ih, htext, hdata]
    | error e =>
      refine ⟨by simp, ?_⟩
      rintro ⟨htext, hdata⟩
      -- The chunk would fit, for the whole image does.
      have hfits := image.fits
      rw [htext, hdata, List.length_append, List.flatten_cons, List.length_append] at hfits
      have hchunk : plain.size + chunk.length ≤ memorySize := by
        rw [size_eq]
        omega
      obtain ⟨next, hnext⟩ := withData_of_fits hchunk
      rw [hcall] at hnext
      cases hnext

theorem build_eq_ok_iff {text : List UInt8} {chunks : List (List UInt8)} {image : Image} :
    build text chunks = .ok image ↔ image.text = text ∧ image.data = chunks.flatten := by
  rw [build]
  cases hplain : ofText text with
  | ok plain =>
    obtain ⟨htext, hdata⟩ := ofText_eq_ok_iff.mp hplain
    simp [extend_eq_ok_iff, htext, hdata]
  | error e =>
    refine ⟨by simp, ?_⟩
    rintro ⟨rfl, -⟩
    -- Without its data the image is the one that the text alone would give.
    let plain : Image := ⟨image.text, [], image.checked, by have := image.fits; simp; omega⟩
    have hnext : ofText image.text = .ok plain := ofText_eq_ok_iff.mpr ⟨rfl, rfl⟩
    rw [hplain] at hnext
    cases hnext

theorem exists_build_iff {text : List UInt8} {chunks : List (List UInt8)} :
    (∃ image, build text chunks = .ok image) ↔
      Program.check text = .ok () ∧
        text.length + 1 + (chunks.map List.length).sum ≤ memorySize := by
  constructor
  · rintro ⟨image, himage⟩
    obtain ⟨rfl, hdata⟩ := build_eq_ok_iff.mp himage
    have hfits := image.fits
    rw [hdata, List.length_flatten] at hfits
    exact ⟨image.checked, hfits⟩
  · rintro ⟨hcheck, hfits⟩
    rw [← List.length_flatten] at hfits
    exact ⟨⟨text, chunks.flatten, hcheck, hfits⟩, build_eq_ok_iff.mpr ⟨rfl, rfl⟩⟩

-- ---------------------------------------------------------------------------
-- Builds that fail
-- ---------------------------------------------------------------------------

theorem extend_of_first {call i : Nat} {image : Image} {chunks : List (List UInt8)}
    (hfits : sizeAfter image.size chunks i ≤ memorySize)
    (hlarge : memorySize < sizeAfter image.size chunks (i + 1)) :
    image.extend call chunks =
      .error (call + i, .imageTooLarge (sizeAfter image.size chunks (i + 1))) := by
  induction i generalizing call image chunks with
  | zero =>
    cases chunks with
    | nil => exact absurd image.size_le (by simpa using hlarge)
    | cons chunk rest =>
      simp only [sizeAfter_cons, sizeAfter_zero] at hlarge ⊢
      rw [extend, withData_of_large hlarge]
      rfl
  | succ i ih =>
    cases chunks with
    | nil => exact absurd image.size_le (by simpa using hlarge)
    | cons chunk rest =>
      rw [sizeAfter_cons] at hfits hlarge
      obtain ⟨next, hnext⟩ := withData_of_fits ((le_sizeAfter _ _ _).trans hfits)
      rw [← size_withData hnext] at hfits hlarge
      rw [extend, hnext, sizeAfter_cons, ← size_withData hnext, Nat.add_comm i 1, ← Nat.add_assoc]
      rw [Nat.add_comm i 1] at hlarge ih
      exact ih hfits hlarge

theorem build_of_first {text : List UInt8} {chunks : List (List UInt8)} {i : Nat}
    (hcheck : Program.check text = .ok ())
    (hlarge : memorySize < sizeAfter (text.length + 1) chunks i)
    (hbefore : ∀ j < i, sizeAfter (text.length + 1) chunks j ≤ memorySize) :
    build text chunks = .error (i, .imageTooLarge (sizeAfter (text.length + 1) chunks i)) := by
  cases i with
  | zero => rw [build, ofText_of_large hcheck hlarge, sizeAfter_zero]
  | succ i =>
    have hfits : text.length + 1 + 0 ≤ memorySize := hbefore 0 (Nat.succ_pos i)
    let plain : Image := ⟨text, [], hcheck, hfits⟩
    have hplain : ofText text = .ok plain := ofText_eq_ok_iff.mpr ⟨rfl, rfl⟩
    have hsize : plain.size = text.length + 1 := plain.size_eq
    have hlast : sizeAfter plain.size chunks i ≤ memorySize := by
      rw [hsize]
      exact hbefore i (Nat.lt_succ_self i)
    have hextend : plain.extend 1 chunks = _ := extend_of_first hlast (by rwa [hsize])
    rw [build, hplain, Nat.add_comm i 1, ← hsize]
    rwa [Nat.add_comm i 1] at hextend

-- ---------------------------------------------------------------------------
-- Loading and booting
-- ---------------------------------------------------------------------------

structure LaidOver (image : Image) (before after : Ram) : Prop where
  covered : ∀ i byte, image.bytes[i]? = some byte → after.get (.ofIndex i) = byte
  others : ∀ a : Address, image.bytes.length ≤ a.val → after.get a = before.get a

theorem laidOver_load (image : Image) (memory : Ram) : image.LaidOver memory (image.load memory) := by
  have hsize : image.bytes.length ≤ 8192 := image.size_le
  rw [load_ram]
  constructor
  · intro i byte hbyte
    have hstored : Stored (memory.copyFrom 0 image.bytes) 0 image.bytes :=
      Ram.stored_copyFrom memory 0 hsize
    simpa using hstored i byte hbyte
  · intro a ha
    have hcells : ∀ k < image.bytes.length, a ≠ .ofIndex (0 + k) := by
      rintro k hk rfl
      rw [Nat.zero_add, Address.val_ofIndex_of_lt (by omega)] at ha
      omega
    exact Ram.get_copyFrom_of_ne hcells

theorem boot_start {ι ο : Type} {image : Image} {memory : Ram} (h : image.Intact memory)
    (input : ι) (output : ο) :
    (Machine.start memory input output).boot =
      ⟨.ok image.origin,
        { registers := { pc := 0, ptr := image.dataStart, status := { ready := true } }
          memory, input, output, origin := some image.origin },
        { events := [.boot image.origin] }⟩ :=
  Machine.boot_of_intact rfl h

theorem val_dataStart (image : Image) :
    image.dataStart.val = (image.text.length + 1) % memorySize := by
  rw [dataStart, origin, Address.next_ofIndex, Address.val_ofIndex]

/-- From text and data to a machine that has booted: when a build succeeds, which call
fails when it does not, what the image holds, where loading puts it, and where a machine
starts on it. -/
theorem build_loads_and_boots {ι ο : Type} (text : List UInt8) (chunks : List (List UInt8)) :
    ((∃ image, build text chunks = .ok image) ↔ Program.check text = .ok () ∧
      text.length + 1 + (chunks.map List.length).sum ≤ memorySize) ∧
    (Program.check text = .ok () →
      memorySize < text.length + 1 + (chunks.map List.length).sum →
      ∃ i, memorySize < sizeAfter (text.length + 1) chunks i ∧
        (∀ j < i, sizeAfter (text.length + 1) chunks j ≤ memorySize) ∧
        build text chunks = .error (i, .imageTooLarge (sizeAfter (text.length + 1) chunks i))) ∧
    ∀ image, build text chunks = .ok image →
      image.bytes = text ++ sentinel :: chunks.flatten ∧
      image.origin.val = text.length ∧ image.dataStart.val = (text.length + 1) % memorySize ∧
      image.ram = image.load Ram.zero ∧
      ∀ memory : Ram, image.LaidOver memory (image.load memory) ∧
        ∀ ram ∈ [image.load memory, image.ram], ∀ (input : ι) (output : ο),
          (Machine.start ram input output).boot =
            ⟨.ok image.origin,
              { registers := { pc := 0, ptr := image.dataStart, status := { ready := true } }
                memory := ram, input, output, origin := some image.origin },
              { events := [.boot image.origin] }⟩ := by
  refine ⟨exists_build_iff, fun hcheck hlarge => ?_, fun image hbuild => ?_⟩
  · have hexists : ∃ i, memorySize < sizeAfter (text.length + 1) chunks i :=
      ⟨chunks.length, by rwa [sizeAfter, List.take_of_length_le (by simp)]⟩
    have hlarge := Nat.find_spec hexists
    have hbefore : ∀ j < Nat.find hexists, sizeAfter (text.length + 1) chunks j ≤ memorySize :=
      fun j hj => Nat.le_of_not_lt (Nat.find_min hexists hj)
    exact ⟨_, hlarge, hbefore, build_of_first hcheck hlarge hbefore⟩
  · obtain ⟨rfl, hdata⟩ := build_eq_ok_iff.mp hbuild
    refine ⟨by rw [bytes, hdata], image.val_origin, image.val_dataStart, (image.load_ram _).symm,
      fun memory => ⟨image.laidOver_load memory, fun ram hram => ?_⟩⟩
    have hintact : image.Intact ram := by
      rcases List.mem_pair.mp hram with rfl | rfl
      · exact image.intact_load memory
      · exact image.intact_ram
    exact boot_start hintact

/-- With the first two chunks the image fills the ring, and the second adds nothing. -/
def brimmingChunks : List (List UInt8) :=
  [List.replicate 8190 sentinel, [], [sentinel]]

theorem length_brimmingChunks : brimmingChunks.map List.length = [8190, 0, 1] := by
  simp only [brimmingChunks, List.map_cons, List.map_nil, List.length_replicate, List.length_nil,
    List.length_cons]

theorem build_loads_and_boots_brimming :
    Program.check [0x2b] = .ok () ∧ build [0x2b] brimmingChunks = .error (3, .imageTooLarge 8193) ∧
      ∃ image, build [0x2b] (brimmingChunks.take 2) = .ok image ∧
        (Machine.start (image.load Ram.zero) () ()).boot.result = .ok 1 := by
  have hcheck : Program.check [0x2b] = .ok () := rfl
  obtain ⟨-, hfails, -⟩ := @build_loads_and_boots Unit Unit [0x2b] brimmingChunks
  obtain ⟨hsucceeds, -, hboots⟩ :=
    @build_loads_and_boots Unit Unit [0x2b] (brimmingChunks.take 2)
  rw [length_brimmingChunks] at hfails
  rw [List.map_take, length_brimmingChunks] at hsucceeds
  simp only [sizeAfter, length_brimmingChunks] at hfails
  obtain ⟨i, hlarge, hbefore, herror⟩ := hfails hcheck (by decide)
  obtain ⟨image, himage⟩ := hsucceeds.mpr ⟨hcheck, by decide⟩
  obtain ⟨-, horigin, -, -, hload⟩ := hboots image himage
  refine ⟨hcheck, ?_, image, himage, ?_⟩
  · obtain rfl | hother : i = 3 ∨ 3 < i ∨ i < 3 := by omega
    · exact herror
    · rcases hother with hgt | hlt
      · exact absurd (hbefore 3 hgt) (by decide)
      · obtain rfl | rfl | rfl : i = 0 ∨ i = 1 ∨ i = 2 := by omega
        all_goals exact absurd hlarge (by decide)
  · rw [(hload Ram.zero).2 _ (by simp) () ()]
    exact congrArg Except.ok (Fin.ext horigin)

end RingMachine.Image

import Mathlib.Data.Int.ModEq
import RingMachine.Proofs.IdealScan
import RingMachine.Proofs.Layout

/-!
# Where a scan ends

A scan is settled by counting. It ends at the first partner of its bracket with as many
brackets of the one kind as of the other in front of it, up to multiples of 256, for the
eight bits of its counter tell no more. If no cell of the ring is such a partner the scan
fails and leaves the machine on its bracket.
-/

namespace RingMachine

variable {μ ι ο : Type} [Memory μ]

def Direction.cell : Direction → Address → Nat → Address
  | forward, a, k => a + Fin.ofNat 8192 k
  | backward, a, k => a - Fin.ofNat 8192 k

def stretch (memory : μ) (direction : Direction) (start : Address) (n : Nat) : List Opcode :=
  (List.range n).map fun i => Opcode.decode (Memory.read memory (direction.cell start (i + 1)))

/-- How many more brackets of the scan's own kind than partners the next cells hold. -/
def surplus (memory : μ) (direction : Direction) (start : Address) (n : Nat) : Int :=
  (stretch memory direction start n).count direction.nest -
    (stretch memory direction start n).count direction.partner

/-- Behind how many cells a partner stands that an 8-bit counter takes for the right one. -/
def closings (memory : μ) (direction : Direction) (start : Address) : Set Nat :=
  {n | n < memorySize ∧
    Opcode.decode (Memory.read memory (direction.cell start (n + 1))) = direction.partner ∧
    surplus memory direction start n ≡ 0 [ZMOD 256]}

variable {memory : μ} {direction : Direction} {start : Address}

theorem Direction.weight_eq (direction : Direction) (op : Opcode) :
    direction.weight op = [op].count direction.nest - [op].count direction.partner := by
  cases direction <;> cases op <;> rfl

theorem surplus_succ (n : Nat) :
    surplus memory direction start (n + 1) = surplus memory direction start n +
      direction.weight (.decode (Memory.read memory (direction.cell start (n + 1)))) := by
  have hstretch : stretch memory direction start (n + 1) = stretch memory direction start n ++
      [.decode (Memory.read memory (direction.cell start (n + 1)))] := by
    simp only [stretch, List.range_succ, List.map_append, List.map_cons, List.map_nil]
  rw [surplus, surplus, hstretch, direction.weight_eq, List.count_append, List.count_append]
  omega

theorem pos_walk (memory : μ) (direction : Direction) (start : Address) (n : Nat) :
    (walk memory direction start n).pos = direction.cell start n := by
  have hval := val_pos_walk memory direction start n
  have hpos := (walk memory direction start n).pos.isLt
  have hstart := start.isLt
  apply Fin.ext
  cases direction with
  | forward =>
    simp only at hval
    simp only [Direction.cell, Fin.val_add, Fin.val_ofNat]
    omega
  | backward =>
    simp only at hval
    simp only [Direction.cell, Fin.val_sub, Fin.val_ofNat]
    omega

theorem ahead_walk (n : Nat) :
    (walk memory direction start n).ahead memory direction =
      .decode (Memory.read memory (direction.cell start (n + 1))) := by
  rw [← pos_walk memory]
  rfl

theorem depth_walk (n : Nat) :
    (walk memory direction start n).depth = surplus memory direction start n := by
  induction n with
  | zero => rfl
  | succ n ih =>
    rw [surplus_succ, ← ih, ← ahead_walk]
    rfl

theorem mem_closings_iff {n : Nat} :
    n ∈ closings memory direction start ↔
      n < memorySize ∧ (walk memory direction start n).Seems memory direction := by
  rw [Walker.Seems, ahead_walk, depth_walk, ← Int.modEq_zero_iff_dvd]
  rfl

theorem scan_closings (memory : μ) (direction : Direction) (start : Address) :
    (closings memory direction start = ∅ ∧ scan memory direction start = none) ∨
    ∃ n, IsLeast (closings memory direction start) n ∧
      scan memory direction start = some ⟨direction.cell start (n + 1), 0⟩ := by
  rcases scan_cases memory direction start with ⟨hscan, hnever⟩ | ⟨n, hn, ⟨hseems, hfirst⟩, hscan⟩
  · refine .inl ⟨?_, hscan⟩
    rw [Set.eq_empty_iff_forall_notMem]
    intro n hn
    obtain ⟨hlt, hseems⟩ := mem_closings_iff.mp hn
    exact hnever n hlt hseems
  · refine .inr ⟨n, ⟨mem_closings_iff.mpr ⟨hn, hseems⟩, ?_⟩, by rw [hscan, pos_walk]⟩
    intro k hk
    exact hfirst (mem_closings_iff.mp hk).2

namespace Machine

/-- A jump succeeds exactly if there is a closing, and goes on behind the first one. If
there is none it fails, on the bracket that it started from. -/
theorem leap_at_first_closing (m : Machine μ ι ο) (direction : Direction) :
    ((m.leap direction direction.nest).result = .ok (.executed direction.nest) ↔
      (closings m.memory direction m.registers.pc).Nonempty) ∧
    (∀ n, IsLeast (closings m.memory direction m.registers.pc) n →
      m.LeapsBehind direction (direction.cell m.registers.pc (n + 1))) ∧
    (closings m.memory direction m.registers.pc = ∅ →
      (m.leap direction direction.nest).result = .error (.unmatchedBracket m.registers.pc) ∧
      (m.leap direction direction.nest).machine.registers = { m.registers with depth := 0 }) := by
  rcases scan_closings m.memory direction m.registers.pc with ⟨hnone, hscan⟩ | ⟨n, hleast, hscan⟩
  · refine ⟨?_, fun n hleast => ?_, fun _ => ?_⟩
    · simp [leap, hscan, hnone]
    · exact absurd hleast.1 (by simp [hnone])
    · rw [leap, hscan]
      exact ⟨rfl, rfl⟩
  · have hleaps := leapsBehind_iff.mpr hscan
    refine ⟨iff_of_true hleaps.result ⟨n, hleast.1⟩, fun k hk => ?_, fun hnone => ?_⟩
    · rwa [hk.unique hleast]
    · exact absurd hleast.1 (by simp [hnone])

def deepText (n : Nat) : List UInt8 :=
  List.replicate (n + 1) 0x5b ++ [0x5d]

def deepMachine (n : Nat) : Machine Ram NoInput BufferOutput :=
  .start (Ram.zero.copyFrom 0 (deepText n)) .closed {}

theorem read_deepMachine {n k : Nat} (byte : UInt8) (hn : n + 2 ≤ 8192)
    (h : (deepText n)[k]? = some byte) :
    Memory.read (deepMachine n).memory (Direction.forward.cell 0 k) = byte := by
  have hlength : (deepText n).length ≤ 8192 := by
    rw [deepText, List.length_append, List.length_replicate, List.length_singleton]
    omega
  have hstored : Stored (Ram.zero.copyFrom 0 (deepText n)) 0 (deepText n) :=
    Ram.stored_copyFrom Ram.zero 0 hlength
  have hcell : Direction.forward.cell 0 k = .ofIndex (0 + k) := by
    apply Fin.ext
    simp [Direction.cell]
  rw [hcell]
  exact hstored k byte h

theorem isLeast_closings_deep {n : Nat} (hn : n + 2 ≤ 8192) (hdepth : 256 ∣ n) :
    IsLeast (closings (deepMachine n).memory .forward 0) n := by
  have hopen {k : Nat} (hk : k < n + 1) :
      Opcode.decode (Memory.read (deepMachine n).memory (Direction.forward.cell 0 k)) =
        .loopOpen := by
    rw [read_deepMachine 0x5b hn (by simp [deepText, List.getElem?_append, hk])]
    rfl
  have hclose : Opcode.decode (Memory.read (deepMachine n).memory
      (Direction.forward.cell 0 (n + 1))) = .loopClose := by
    rw [read_deepMachine 0x5d hn (by simp [deepText])]
    rfl
  have hstretch : stretch (deepMachine n).memory .forward 0 n = List.replicate n .loopOpen := by
    rw [stretch, List.map_eq_replicate_iff.mpr, List.length_range]
    intro i hi
    exact hopen (Nat.succ_lt_succ (List.mem_range.mp hi))
  have hsurplus : surplus (deepMachine n).memory .forward 0 n = n := by
    simp [surplus, hstretch, Direction.nest, Direction.partner, List.count_replicate]
  refine ⟨⟨?_, hclose, ?_⟩, fun k hk => Nat.le_of_not_lt fun hlt => ?_⟩
  · show n < 8192
    omega
  · rw [hsurplus, Int.modEq_zero_iff_dvd]
    omega
  · have hpartner := hk.2.1
    rw [hopen (Nat.succ_lt_succ hlt)] at hpartner
    cases hpartner

theorem closings_openRam : closings openRam .forward 0 = ∅ := by
  rw [Set.eq_empty_iff_forall_notMem]
  rintro n ⟨-, hclose, -⟩
  rw [Ram.read_eq_get, Direction.partner, Opcode.decode_eq_loopClose, openRam, Ram.get_set,
    Ram.get_zero] at hclose
  split at hclose <;> cases hclose

/-- Behind 256 open loops the counter reads zero again; without a partner it never does. -/
theorem leap_at_first_closing_deep :
    IsLeast (closings (deepMachine 256).memory .forward 0) 256 ∧
      (deepMachine 256).LeapsBehind .forward 257 ∧
      closings openRam .forward 0 = ∅ ∧
      ({ seamMachine 0 with memory := openRam }.leap .forward .loopOpen).result =
        .error (.unmatchedBracket 0) := by
  have hleast : IsLeast (closings (deepMachine 256).memory .forward 0) 256 :=
    isLeast_closings_deep (by decide) (by decide)
  obtain ⟨-, hleaps, -⟩ := (deepMachine 256).leap_at_first_closing .forward
  obtain ⟨-, -, hfails⟩ :=
    Machine.leap_at_first_closing { seamMachine 0 with memory := openRam } .forward
  exact ⟨hleast, hleaps 256 hleast, closings_openRam, (hfails closings_openRam).1⟩

end Machine

end RingMachine

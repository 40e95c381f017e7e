import RingMachine.Proofs.IdealScan

/-!
# Scans lead back

A scan and the scan in the opposite direction from where it stops undo each other. The
way back visits the same cells, and its depth at each of them is the one that the way
there had: what nests for the one is a partner for the other. Since the way there never
came out of its loop, the way back meets no bracket at depth zero before the first.
-/

namespace RingMachine

-- ---------------------------------------------------------------------------
-- Opposite directions
-- ---------------------------------------------------------------------------

namespace Direction

variable (direction : Direction)

def opposite : Direction → Direction
  | forward => backward
  | backward => forward

@[simp] theorem nest_opposite : direction.opposite.nest = direction.partner := by
  cases direction <;> rfl

@[simp] theorem partner_opposite : direction.opposite.partner = direction.nest := by
  cases direction <;> rfl

@[simp] theorem move_opposite (a : Address) : direction.opposite.move (direction.move a) = a := by
  cases direction with
  | forward => exact a.prev_next
  | backward => exact a.next_prev

theorem nest_ne_partner : direction.nest ≠ direction.partner := by
  cases direction <;> decide

theorem weight_nest : direction.weight direction.nest = 1 := by
  simp [weight, direction.nest_ne_partner]

theorem weight_opposite (op : Opcode) : direction.opposite.weight op = -direction.weight op := by
  by_cases hpartner : op = direction.partner
  · subst hpartner
    simp [weight, direction.nest_ne_partner.symm]
  · by_cases hnest : op = direction.nest
    · simp [weight, hnest, direction.nest_ne_partner]
    · simp [weight, hpartner, hnest]

/-- How many cells a scan from `a` crosses before it comes to `b`. -/
def between : Direction → Address → Address → Nat
  | forward, a, b => (b - a - 1).val
  | backward, a, b => (a - b - 1).val

end Direction

-- ---------------------------------------------------------------------------
-- The way back
-- ---------------------------------------------------------------------------

variable {μ ι ο : Type} [Memory μ] {memory : μ} {direction : Direction} {start : Address} {n : Nat}

theorem between_walk (memory : μ) (direction : Direction) (start : Address) (hn : n < memorySize) :
    direction.between start (walk memory direction start (n + 1)).pos = n := by
  have hval := val_pos_walk memory direction start (n + 1)
  have hstart := start.isLt
  have hpos := (walk memory direction start (n + 1)).pos.isLt
  have hcells : n < 8192 := hn
  cases direction with
  | forward =>
    simp only at hval
    simp only [Direction.between, Fin.val_sub]
    change (8192 - 1 + _) % 8192 = n
    omega
  | backward =>
    simp only at hval
    simp only [Direction.between, Fin.val_sub]
    change (8192 - 1 + _) % 8192 = n
    omega

theorem ahead_back (depth : Int) (k : Nat) :
    Walker.ahead memory direction.opposite ⟨(walk memory direction start (k + 1)).pos, depth⟩ =
      Opcode.decode (Memory.read memory (walk memory direction start k).pos) := by
  simp only [Walker.ahead, walk, Walker.visit, Direction.move_opposite]

theorem walk_back {stop : Address} (hstop : (walk memory direction start (n + 1)).pos = stop)
    (hdepth : (walk memory direction start n).depth = 0) {k j : Nat} (hkj : k + j = n) :
    walk memory direction.opposite stop j =
      ⟨(walk memory direction start (k + 1)).pos, (walk memory direction start k).depth⟩ := by
  induction j generalizing k with
  | zero =>
    obtain rfl : k = n := hkj
    rw [walk, ← hstop, hdepth]
  | succ j ih =>
    rw [walk, ih (k := k + 1) (by omega), Walker.visit, ahead_back, direction.weight_opposite]
    -- The cell adds to the depth on the way there what it takes off on the way back.
    simp only [walk, Walker.visit, Walker.ahead, Direction.move_opposite, Int.add_neg_cancel_right]

theorem isLeast_back {stop : Address} (hnest : Opcode.decode (Memory.read memory start) = direction.nest)
    (hstop : (walk memory direction start (n + 1)).pos = stop)
    (hzero : (walk memory direction start n).depth = 0)
    (hcrossed : ∀ k < n, 0 ≤ (walk memory direction start k).depth)
    (hdepth : ∀ k ≤ n, (walk memory direction start k).depth ≤ 255) :
    IsLeast {j | (walk memory direction.opposite stop j).Seems memory direction.opposite} n := by
  constructor
  · show Walker.Seems memory direction.opposite _
    rw [walk_back hstop hzero (Nat.zero_add n), Walker.Seems, ahead_back, walk, hnest]
    simp
  · intro j hj
    refine Nat.le_of_not_lt fun hlt => ?_
    obtain ⟨k, hk⟩ : ∃ k, k + 1 + j = n := ⟨n - j - 1, by omega⟩
    have hseems : (walk memory direction.opposite stop j).Seems memory direction.opposite := hj
    rw [walk_back hstop hzero hk, Walker.Seems, ahead_back, direction.partner_opposite] at hseems
    obtain ⟨hop, hdivides⟩ := hseems
    have hvisit : (walk memory direction start (k + 1)).depth =
        (walk memory direction start k).depth + 1 := by
      rw [← direction.weight_nest, ← hop]
      rfl
    have hlower := hcrossed k (by omega)
    have hupper := hdepth (k + 1) (by omega)
    simp only [hvisit] at hdivides hupper
    omega

namespace Machine

/-- A jump from one bracket of a pair to the other can be made the other way round, if
the depth between them fits into eight bits. The two machines stand at the two brackets
of one memory. -/
theorem leapsBehind_opposite (direction : Direction) {m n : Machine μ ι ο} (hmemory : n.memory = m.memory)
    (hnest : Opcode.decode m.fetch = direction.nest)
    (hleaps : m.LeapsBehind direction n.registers.pc)
    (hdepth : ∀ k ≤ direction.between m.registers.pc n.registers.pc,
      (walk m.memory direction m.registers.pc k).depth ≤ 255) :
    n.LeapsBehind direction.opposite m.registers.pc := by
  rw [leapsBehind_iff, scan_eq_some_iff] at hleaps ⊢
  obtain ⟨k, hk, hfirst, hcursor⟩ := hleaps
  have hstop : (walk m.memory direction m.registers.pc (k + 1)).pos = n.registers.pc :=
    congrArg Cursor.pos hcursor
  rw [← hstop, between_walk _ _ _ hk] at hdepth
  have hcrossed (j : Nat) (hj : j ≤ k) : 0 ≤ (walk m.memory direction m.registers.pc j).depth := by
    refine depth_walk_nonneg fun i hi hmeets => ?_
    have := hfirst.2 hmeets.seems
    omega
  have hzero : (walk m.memory direction m.registers.pc k).depth = 0 := by
    have hlower := hcrossed k (Nat.le_refl k)
    have hupper := hdepth k (Nat.le_refl k)
    have hdivides := hfirst.1.2
    omega
  rw [hmemory]
  refine ⟨k, hk, isLeast_back hnest hstop hzero (fun j hj => hcrossed j (by omega)) hdepth, ?_⟩
  rw [walk, walk_back hstop hzero (Nat.zero_add k)]
  simp only [Walker.visit, walk, Direction.move_opposite]

theorem fetch_seamMachine (pc : Address) : (seamMachine pc).fetch = seamRam.get pc := rfl

/-- There and back across the seam of the ring. -/
theorem leapsBehind_opposite_seam :
    Opcode.decode (seamMachine 8191).fetch = .loopOpen ∧
      (seamMachine 8191).LeapsBehind .forward 3 ∧
      (∀ k ≤ 3, (walk seamRam .forward 8191 k).depth ≤ 255) ∧
      (seamMachine 3).LeapsBehind .backward 8191 := by
  have hopen : seamRam.get 8191 = 0x5b := by
    simp only [seamRam, Ram.copyFrom_cons, Ram.copyFrom_nil, Ram.get_set]
    rfl
  have hnest : Opcode.decode (seamMachine 8191).fetch = .loopOpen := by
    rw [fetch_seamMachine, hopen]
    rfl
  have hleaps : (seamMachine 8191).LeapsBehind .forward 3 :=
    leapsBehind_iff.mpr (by decide +kernel)
  have hdepth : ∀ k ≤ 3, (walk seamRam .forward 8191 k).depth ≤ 255 := by decide +kernel
  have hback : (seamMachine 3).LeapsBehind .backward 8191 :=
    leapsBehind_opposite .forward (m := seamMachine 8191) rfl hnest hleaps hdepth
  exact ⟨hnest, hleaps, hdepth, hback⟩

end Machine

end RingMachine

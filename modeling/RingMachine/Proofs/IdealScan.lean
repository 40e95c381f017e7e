import Mathlib.Order.Bounds.Basic
import RingMachine.Device
import RingMachine.Machine
import RingMachine.Memory

/-!
# Scans with an ideal counter

An ideal scan counts without bounds and goes round the ring for ever, unless it meets a
partner at depth zero. A scan of the machine counts in eight bits and goes round once. It
stops where its counter reads zero, that is at a depth divisible by 256. So it may stop
before an ideal scan does, but never behind it; and as long as the depth fits into the
counter both stop at the same bracket. Giving up after one round loses nothing: a round
that stops nowhere ends no shallower than it began, and so no later round stops either.
-/

namespace RingMachine

-- ---------------------------------------------------------------------------
-- Ideal scans
-- ---------------------------------------------------------------------------

def Direction.weight (direction : Direction) (op : Opcode) : Int :=
  if op = direction.partner then -1 else if op = direction.nest then 1 else 0

/-- Where an ideal scan stands: the cell visited last, and a depth without bounds. -/
structure Walker where
  pos : Address
  depth : Int
  deriving DecidableEq, Repr

variable {μ ι ο : Type} [Memory μ]

namespace Walker

def ahead (memory : μ) (direction : Direction) (w : Walker) : Opcode :=
  Opcode.decode (Memory.read memory (direction.move w.pos))

def visit (memory : μ) (direction : Direction) (w : Walker) : Walker :=
  ⟨direction.move w.pos, w.depth + direction.weight (w.ahead memory direction)⟩

def Meets (memory : μ) (direction : Direction) (w : Walker) : Prop :=
  w.ahead memory direction = direction.partner ∧ w.depth = 0

/-- The cell visited next holds a partner, and the depth is zero as far as eight bits
can tell. -/
def Seems (memory : μ) (direction : Direction) (w : Walker) : Prop :=
  w.ahead memory direction = direction.partner ∧ 256 ∣ w.depth

instance (memory : μ) (direction : Direction) (w : Walker) : Decidable (w.Meets memory direction) :=
  inferInstanceAs (Decidable (_ ∧ _))

instance (memory : μ) (direction : Direction) (w : Walker) : Decidable (w.Seems memory direction) :=
  inferInstanceAs (Decidable (_ ∧ _))

end Walker

/-- An ideal scan from a bracket, after a number of cells. Nothing stops it. -/
def walk (memory : μ) (direction : Direction) (start : Address) : Nat → Walker
  | 0 => ⟨start, 0⟩
  | n + 1 => (walk memory direction start n).visit memory direction

/-- An ideal scan crosses `n` cells and stops at the next one, which is the first partner
that it sees at depth zero. -/
def Stops (memory : μ) (direction : Direction) (start : Address) (n : Nat) (stop : Address) : Prop :=
  IsLeast {k | (walk memory direction start k).Meets memory direction} n ∧
    (walk memory direction start (n + 1)).pos = stop

variable {memory : μ} {direction : Direction} {start : Address} {n : Nat}

theorem Direction.weight_partner (direction : Direction) :
    direction.weight direction.partner = -1 := by
  simp [weight]

theorem Direction.weight_nonneg {op : Opcode} (h : op ≠ direction.partner) :
    0 ≤ direction.weight op := by
  simp only [weight, if_neg h]
  split <;> decide

theorem Walker.Meets.seems {w : Walker} (h : w.Meets memory direction) : w.Seems memory direction :=
  ⟨h.1, by simp [h.2]⟩

theorem depth_walk_nonneg (h : ∀ k < n, ¬ (walk memory direction start k).Meets memory direction) :
    0 ≤ (walk memory direction start n).depth := by
  induction n with
  | zero => exact Int.le_refl 0
  | succ n ih =>
    have hdepth := ih fun k hk => h k (by omega)
    have hnot := h n (Nat.lt_succ_self n)
    show 0 ≤ (walk memory direction start n).depth +
      direction.weight ((walk memory direction start n).ahead memory direction)
    by_cases hop : (walk memory direction start n).ahead memory direction = direction.partner
    · have hpositive : (walk memory direction start n).depth ≠ 0 := fun hzero => hnot ⟨hop, hzero⟩
      rw [hop, direction.weight_partner]
      omega
    · have := Direction.weight_nonneg hop
      omega

-- ---------------------------------------------------------------------------
-- Rounds
-- ---------------------------------------------------------------------------

theorem val_pos_walk (memory : μ) (direction : Direction) (start : Address) (n : Nat) :
    match direction with
    | .forward => (walk memory direction start n).pos.val = (start.val + n) % 8192
    | .backward => ((walk memory direction start n).pos.val + n) % 8192 = start.val := by
  have hstart := start.isLt
  induction n with
  | zero => cases direction <;> simp only [walk] <;> omega
  | succ n ih =>
    cases direction with
    | forward =>
      simp only [walk, Walker.visit, Direction.move, Address.next, Address.val_advance] at ih ⊢
      change (_ + 1) % 8192 = _
      omega
    | backward =>
      have hpos := (walk memory .backward start n).pos.isLt
      simp only [walk, Walker.visit, Direction.move, Address.prev, Address.val_retreat] at ih ⊢
      change ((_ + (65536 - 1)) % 8192 + (n + 1)) % 8192 = _
      omega

theorem pos_walk_round (memory : μ) (direction : Direction) (start : Address) :
    (walk memory direction start memorySize).pos = start := by
  show (walk memory direction start 8192).pos = start
  have hval := val_pos_walk memory direction start 8192
  have hstart := start.isLt
  have hpos := (walk memory direction start 8192).pos.isLt
  apply Fin.ext
  cases direction with
  | forward => simp only at hval; omega
  | backward => simp only at hval; omega

theorem walk_add (n k : Nat) :
    walk memory direction start (n + k) =
      ⟨(walk memory direction (walk memory direction start k).pos n).pos,
        (walk memory direction (walk memory direction start k).pos n).depth +
          (walk memory direction start k).depth⟩ := by
  induction n with
  | zero =>
    rw [Nat.zero_add, walk, Int.zero_add]
  | succ n ih =>
    rw [Nat.add_right_comm, walk, ih]
    simp only [walk, Walker.visit, Walker.ahead, Int.add_right_comm]

theorem walk_add_round (n : Nat) :
    walk memory direction start (n + memorySize) =
      ⟨(walk memory direction start n).pos,
        (walk memory direction start n).depth + (walk memory direction start memorySize).depth⟩ := by
  rw [walk_add, pos_walk_round]

theorem not_meets_of_round
    (h : ∀ k < memorySize, ¬ (walk memory direction start k).Meets memory direction) (n : Nat) :
    ¬ (walk memory direction start n).Meets memory direction := by
  induction n using Nat.strongRecOn with
  | ind n ih =>
    by_cases hn : n < memorySize
    · exact h n hn
    · obtain ⟨earlier, rfl⟩ := Nat.exists_eq_add_of_le' (Nat.le_of_not_lt hn)
      rw [walk_add_round]
      rintro ⟨hop, hdepth⟩
      have hround := depth_walk_nonneg h
      have hearlier := depth_walk_nonneg fun k (hk : k < earlier) => ih k (by omega)
      refine ih earlier (by simp) ⟨hop, ?_⟩
      simp only at hdepth
      omega

-- ---------------------------------------------------------------------------
-- The scans of the machine
-- ---------------------------------------------------------------------------

theorem ofInt_eq_zero_iff (depth : Int) : UInt8.ofInt depth = 0 ↔ 256 ∣ depth := by
  rw [← UInt8.toNat_inj]
  simp only [UInt8.ofInt, UInt8.toNat_ofNat', UInt8.toNat_zero]
  omega

theorem scanFrom_succ (count : Nat) (w : Walker) :
    scanFrom memory direction (count + 1) w.pos (.ofInt w.depth) =
      if w.Seems memory direction then some ⟨direction.move w.pos, 0⟩
      else
        scanFrom memory direction count (w.visit memory direction).pos
          (.ofInt (w.visit memory direction).depth) := by
  have hdown : UInt8.ofInt (w.depth + -1) = .ofInt w.depth - 1 := by
    rw [UInt8.ofInt_add, UInt8.sub_eq_add_neg]
    rfl
  have hup : UInt8.ofInt (w.depth + 1) = .ofInt w.depth + 1 := UInt8.ofInt_add _ _
  simp only [scanFrom, Walker.Seems, Walker.visit, Direction.weight, ← ofInt_eq_zero_iff]
  change (if w.ahead memory direction = direction.partner then _
    else if w.ahead memory direction = direction.nest then _ else _) = _
  by_cases hpartner : w.ahead memory direction = direction.partner
  · by_cases hzero : UInt8.ofInt w.depth = 0
    · simp only [hpartner, hzero, if_true, and_self]
    · simp only [hpartner, hzero, if_true, if_false, and_false, hdown]
  · by_cases hnest : w.ahead memory direction = direction.nest
    · simp only [if_pos hnest, hpartner, false_and, if_false, hup]
    · simp only [if_neg hnest, hpartner, false_and, if_false, Int.add_zero]

/-- A scan of the machine, taken up after `k` cells: it stops where the depth first seems
to be zero, or nowhere in the cells that it may still visit. -/
theorem scanFrom_walk (memory : μ) (direction : Direction) (start : Address) (count : Nat) {k : Nat}
    (hk : ∀ j < k, ¬ (walk memory direction start j).Seems memory direction) :
    let w := walk memory direction start k
    (scanFrom memory direction count w.pos (.ofInt w.depth) = none ∧
      ∀ n < k + count, ¬ (walk memory direction start n).Seems memory direction) ∨
    ∃ n < k + count, IsLeast {j | (walk memory direction start j).Seems memory direction} n ∧
      scanFrom memory direction count w.pos (.ofInt w.depth) =
        some ⟨(walk memory direction start (n + 1)).pos, 0⟩ := by
  induction count generalizing k with
  | zero => exact .inl ⟨rfl, hk⟩
  | succ count ih =>
    simp only [scanFrom_succ]
    by_cases hseems : (walk memory direction start k).Seems memory direction
    · refine .inr ⟨k, by omega, ⟨hseems, fun j hj => ?_⟩, if_pos hseems⟩
      exact Nat.le_of_not_lt fun hlt => hk j hlt hj
    · have hnext : ∀ j < k + 1, ¬ (walk memory direction start j).Seems memory direction := by
        intro j hj
        rcases Nat.lt_succ_iff_lt_or_eq.mp hj with hlt | rfl
        · exact hk j hlt
        · exact hseems
      rw [if_neg hseems, ← Nat.add_assoc, Nat.add_right_comm]
      exact ih hnext

theorem scan_cases (memory : μ) (direction : Direction) (start : Address) :
    (scan memory direction start = none ∧
      ∀ n < memorySize, ¬ (walk memory direction start n).Seems memory direction) ∨
    ∃ n < memorySize, IsLeast {k | (walk memory direction start k).Seems memory direction} n ∧
      scan memory direction start = some ⟨(walk memory direction start (n + 1)).pos, 0⟩ := by
  have hwalk := scanFrom_walk memory direction start memorySize (k := 0) (by simp)
  rw [Nat.zero_add] at hwalk
  exact hwalk

theorem scan_eq_some_iff {cursor : Cursor} :
    scan memory direction start = some cursor ↔
      ∃ n < memorySize, IsLeast {k | (walk memory direction start k).Seems memory direction} n ∧
        ⟨(walk memory direction start (n + 1)).pos, 0⟩ = cursor := by
  rcases scan_cases memory direction start with ⟨hscan, hnever⟩ | ⟨n, hn, hleast, hscan⟩
  · rw [hscan]
    refine ⟨nofun, ?_⟩
    rintro ⟨n, hn, hleast, -⟩
    exact absurd hleast.1 (hnever n hn)
  · rw [hscan, Option.some.injEq]
    constructor
    · rintro rfl
      exact ⟨n, hn, hleast, rfl⟩
    · rintro ⟨k, -, hk, rfl⟩
      rw [hk.unique hleast]

-- ---------------------------------------------------------------------------
-- Jumps
-- ---------------------------------------------------------------------------

namespace Machine

variable {m : Machine μ ι ο}

structure LeapsBehind (m : Machine μ ι ο) (direction : Direction) (stop : Address) : Prop where
  result : (m.leap direction direction.nest).result = .ok (.executed direction.nest)
  registers : (m.leap direction direction.nest).machine.registers =
    { m.registers with pc := stop.next, depth := 0 }

theorem leapsBehind_iff {stop : Address} :
    m.LeapsBehind direction stop ↔
      scan m.memory direction m.registers.pc = some ⟨stop, 0⟩ := by
  constructor
  · rintro ⟨hresult, hregisters⟩
    cases hscan : scan m.memory direction m.registers.pc with
    | none =>
      rw [leap, hscan] at hresult
      cases hresult
    | some cursor =>
      rw [leap, hscan] at hregisters
      have hnext : cursor.pos.next = stop.next := congrArg Registers.pc hregisters
      have hpos : cursor.pos = stop := by
        rw [← cursor.pos.prev_next, hnext, stop.prev_next]
      have hdepth : cursor.depth = 0 := depth_of_scanFrom hscan
      rw [← hpos, ← hdepth]
  · intro hscan
    constructor
    · rw [leap, hscan]
    · rw [leap, hscan]
      rfl

theorem fault_leap_iff :
    (m.leap direction direction.nest).result = .error (.unmatchedBracket m.registers.pc) ↔
      scan m.memory direction m.registers.pc = none := by
  rw [leap]
  cases scan m.memory direction m.registers.pc <;> simp

/-- If a jump fails, no ideal scan stops, however many rounds it makes. If an ideal scan
stops, the jump goes behind the same bracket as long as the depth fits into eight bits,
and otherwise behind that one or one that was met before it. -/
theorem leap_against_ideal (m : Machine μ ι ο) (direction : Direction) :
    ((m.leap direction direction.nest).result = .error (.unmatchedBracket m.registers.pc) →
      ∀ n stop, ¬ Stops m.memory direction m.registers.pc n stop) ∧
    ∀ n stop, Stops m.memory direction m.registers.pc n stop →
      ((∀ k ≤ n, (walk m.memory direction m.registers.pc k).depth ≤ 255) →
        m.LeapsBehind direction stop) ∧
      ∃ k ≤ n, ∃ bracket, (walk m.memory direction m.registers.pc (k + 1)).pos = bracket ∧
        Opcode.decode (Memory.read m.memory bracket) = direction.partner ∧
        m.LeapsBehind direction bracket := by
  rw [fault_leap_iff]
  simp only [leapsBehind_iff]
  rcases scan_cases m.memory direction m.registers.pc with
    ⟨hscan, hnever⟩ | ⟨k, -, ⟨hseems, hfirst⟩, hscan⟩
  · have hideal := not_meets_of_round fun k hk hmeets => hnever k hk hmeets.seems
    exact ⟨fun _ n stop hstops => hideal n hstops.1.1,
      fun n stop hstops => absurd hstops.1.1 (hideal n)⟩
  · refine ⟨by simp [hscan], ?_⟩
    rintro n stop ⟨⟨hmeets, hleast⟩, rfl⟩
    have hle : k ≤ n := hfirst hmeets.seems
    refine ⟨fun hdepth => ?_, k, hle, _, rfl, hseems.1, hscan⟩
    -- The depth is not negative before the ideal scan stops, so it fits into the counter.
    have hnonneg : 0 ≤ (walk m.memory direction m.registers.pc k).depth :=
      depth_walk_nonneg fun j hj hmeets => by
        have := hleast hmeets
        omega
    have hbound := hdepth k hle
    have hzero : (walk m.memory direction m.registers.pc k).depth = 0 := by
      have := hseems.2
      omega
    obtain rfl : k = n := Nat.le_antisymm hle (hleast ⟨hseems.1, hzero⟩)
    exact hscan

/-- A loop in a loop, across the seam of the ring. -/
def seamRam : Ram :=
  Ram.zero.copyFrom 8191 [0x5b, 0x2b, 0x5b, 0x5d, 0x5d]

def seamMachine (pc : Address) : Machine Ram NoInput BufferOutput :=
  { registers := { pc }, memory := seamRam, input := .closed, output := {} }

def openRam : Ram :=
  Ram.zero.set 0 0x5b

theorem leap_against_ideal_seam :
    Stops seamRam .forward 8191 3 3 ∧ (∀ k ≤ 3, (walk seamRam .forward 8191 k).depth ≤ 255) ∧
      (seamMachine 8191).LeapsBehind .forward 3 ∧
      ∀ n stop, ¬ Stops openRam .forward 0 n stop := by
  have hcrossed : ∀ k < 3, ¬ (walk seamRam .forward 8191 k).Meets seamRam .forward := by
    decide +kernel
  have hstops : Stops seamRam .forward 8191 3 3 :=
    ⟨⟨by decide +kernel, fun k hk => Nat.le_of_not_lt fun hlt => hcrossed k hlt hk⟩,
      by decide +kernel⟩
  have hdepth : ∀ k ≤ 3, (walk seamRam .forward 8191 k).depth ≤ 255 := by decide +kernel
  have hnowhere (a : Address) : Opcode.decode (openRam.get a) ≠ .loopClose := by
    rw [ne_eq, Opcode.decode_eq_loopClose, openRam, Ram.get_set, Ram.get_zero]
    split <;> decide
  obtain ⟨-, hideal⟩ := (seamMachine 8191).leap_against_ideal .forward
  obtain ⟨hfails, -⟩ := Machine.leap_against_ideal { seamMachine 0 with memory := openRam } .forward
  have hscan : scan openRam .forward 0 = none := by
    rcases scan_cases openRam .forward 0 with ⟨hscan, -⟩ | ⟨n, -, ⟨hseems, -⟩, -⟩
    · exact hscan
    · exact absurd hseems.1 (hnowhere _)
  exact ⟨hstops, hdepth, (hideal 3 3 hstops).1 hdepth, hfails (fault_leap_iff.mpr hscan)⟩

end Machine

end RingMachine

import RingMachine.Proofs.DeviceCalls

/-!
# The ledger of a session

The data of a machine is accounted for by the instructions that it has executed. The
data pointer is where the moves have led it from behind the sentinel, the scratch byte
is what the last store found, and a cell holds what the last load or input put there,
or what it held at first, with the increments and decrements that were executed on it
since. Steps that wait or fail, and halts, are not in the ledger, for they do nothing
to the data.
-/

namespace RingMachine

/-- Whether an instruction puts a byte into the cell, whatever the cell held. -/
def Opcode.replaces : Opcode → Bool
  | load | input => true
  | _ => false

theorem Opcode.writes_of_replaces {op : Opcode} (h : op.replaces = true) : op.writes = true := by
  cases op with
  | load => rfl
  | input => rfl
  | _ => cases h

def Opcode.move : Opcode → Address → Address
  | incrementPointer, ptr => ptr.next
  | decrementPointer, ptr => ptr.prev
  | _, ptr => ptr

/-- An instruction that was executed, with the data that it found and the bytes that it
took from the input. -/
structure Deed where
  op : Opcode
  ptr : Address
  cell : UInt8
  tmp : UInt8
  taken : List UInt8
  deriving DecidableEq, Repr

namespace Deed

/-- The cell under the data pointer holds the byte once the instruction is executed. -/
def Leaves (d : Deed) (byte : UInt8) : Prop :=
  match d.op with
  | .incrementCell => byte = d.cell + 1
  | .decrementCell => byte = d.cell - 1
  | .load => byte = d.tmp
  | .input => d.taken = [byte]
  | _ => byte = d.cell

def tally (op : Opcode) (log : List Deed) : Nat :=
  log.countP (·.op = op)

/-- The last entry of a log that satisfies `p`, if there is one, and the entries since. -/
inductive Latest (p : Deed → Prop) : List Deed → Option Deed → List Deed → Prop
  | never {log : List Deed} (hlog : ∀ d ∈ log, ¬ p d) : Latest p log none log
  | found {before since : List Deed} {d : Deed} (hd : p d) (hsince : ∀ e ∈ since, ¬ p e) :
      Latest p (before ++ d :: since) (some d) since

/-- The byte that a cell held at first, or that an instruction put there. -/
inductive Base (initial : UInt8) : Option Deed → UInt8 → Prop
  | initial : Base initial none initial
  | loaded {d : Deed} (hop : d.op = .load) : Base initial (some d) d.tmp
  | taken {d : Deed} {byte : UInt8} (hop : d.op = .input) (htaken : d.taken = [byte]) :
      Base initial (some d) byte

def Explains (initial : UInt8) (log : List Deed) (byte : UInt8) : Prop :=
  ∃ event since base, Latest (·.op.replaces = true) log event since ∧ Base initial event base ∧
    (byte.toNat : Int) =
      (base.toNat + tally .incrementCell since - tally .decrementCell since) % 256

-- ---------------------------------------------------------------------------
-- Logs that grow
-- ---------------------------------------------------------------------------

section
variable {p : Deed → Prop} {log since : List Deed} {event : Option Deed} {d : Deed}

@[simp] theorem tally_nil (op : Opcode) : tally op [] = 0 := rfl

@[simp] theorem tally_singleton (op : Opcode) (d : Deed) :
    tally op [d] = if d.op = op then 1 else 0 := by
  simp [tally, List.countP_singleton]

@[simp] theorem tally_append (op : Opcode) (log more : List Deed) :
    tally op (log ++ more) = tally op log + tally op more :=
  List.countP_append

theorem Latest.now (log : List Deed) (hd : p d) : Latest p (log ++ [d]) (some d) [] :=
  .found hd (by simp)

theorem Latest.later (h : Latest p log event since) (hd : ¬ p d) :
    Latest p (log ++ [d]) event (since ++ [d]) := by
  have hsince {l : List Deed} (hl : ∀ e ∈ l, ¬ p e) : ∀ e ∈ l ++ [d], ¬ p e :=
    List.forall_mem_append.mpr ⟨hl, by simpa using hd⟩
  cases h with
  | never hlog => exact .never (hsince hlog)
  | found hlast hnone =>
    rw [List.append_assoc, List.cons_append]
    exact .found hlast (hsince hnone)

end

section
variable {initial byte : UInt8} {log : List Deed} {d : Deed}

theorem Leaves.base (h : d.Leaves byte) (hop : d.op.replaces = true) :
    Base initial (some d) byte := by
  unfold Leaves at h
  cases hd : d.op with
  | load =>
    simp only [hd] at h
    subst h
    exact .loaded hd
  | input =>
    simp only [hd] at h
    exact .taken hd h
  | _ => simp [hd, Opcode.replaces] at hop

theorem Leaves.toNat (h : d.Leaves byte) (hop : d.op.replaces = false) :
    (byte.toNat : Int) =
      (d.cell.toNat + tally .incrementCell [d] - tally .decrementCell [d]) % 256 := by
  have hcell := d.cell.toNat_lt
  have hmod : (d.cell.toNat : Int) % 256 = d.cell.toNat := by omega
  unfold Leaves at h
  cases hd : d.op with
  | incrementCell =>
    simp only [hd] at h
    simp [h, hd]
  | decrementCell =>
    simp only [hd] at h
    simp only [h, hd, UInt8.toNat_sub, UInt8.toNat_one, tally_singleton, reduceCtorEq, ↓reduceIte]
    omega
  | load => simp [hd, Opcode.replaces] at hop
  | input => simp [hd, Opcode.replaces] at hop
  | _ =>
    simp only [hd] at h
    simp [h, hd, hmod]

/-- An instruction on a cell is one more entry in the cell's account: it starts a new
one if it puts a byte there, and adds to the old one otherwise. -/
theorem Explains.append (h : Explains initial log d.cell) (hd : d.Leaves byte) :
    Explains initial (log ++ [d]) byte := by
  obtain ⟨event, since, base, hlatest, hbase, hcell⟩ := h
  cases hop : d.op.replaces with
  | true =>
    have hbyte := byte.toNat_lt
    refine ⟨some d, [], byte, .now log hop, hd.base hop, ?_⟩
    rw [tally_nil, tally_nil]
    omega
  | false =>
    refine ⟨event, since ++ [d], base, hlatest.later (by simp [hop]), hbase, ?_⟩
    rw [hd.toNat hop, hcell, tally_append, tally_append]
    push_cast
    omega

theorem tally_eq_zero {op : Opcode} (h : ∀ d ∈ log, d.op ≠ op) : tally op log = 0 := by
  simpa [tally] using h

theorem Explains.unchanged (h : Explains initial log byte)
    (hlog : ∀ d ∈ log, d.op.writes = false) : byte = initial := by
  have hnot {op : Opcode} (hop : op.writes = true) : ∀ d ∈ log, d.op ≠ op := by
    rintro d hd rfl
    simp [hlog d hd] at hop
  obtain ⟨event, since, base, hlatest, hbase, hbyte⟩ := h
  cases hlatest with
  | never _ =>
    cases hbase
    have hinitial := initial.toNat_lt
    rw [tally_eq_zero (hnot rfl), tally_eq_zero (hnot rfl)] at hbyte
    apply UInt8.toNat_inj.mp
    omega
  | @found before since d hd _ =>
    exact absurd rfl (hnot (Opcode.writes_of_replaces hd) d (by simp))

end

theorem val_move (d : Deed) (ptr : Address) :
    ((d.op.move ptr).val : Int) =
      (ptr.val + tally .incrementPointer [d] - tally .decrementPointer [d]) % 8192 := by
  have hptr := ptr.isLt
  have hmod : (ptr.val : Int) % 8192 = ptr.val := by omega
  rw [tally_singleton, tally_singleton]
  cases d.op with
  | incrementPointer => simp [Opcode.move, Address.next, Address.val_advance]
  | decrementPointer =>
    simp only [Opcode.move, Address.prev, Address.val_retreat, UInt16.toNat_one, reduceCtorEq,
      ↓reduceIte]
    omega
  | _ => simp [Opcode.move, hmod]

end Deed

namespace Machine

open Deed (tally Latest Explains)

variable {ι ο : Type}

-- ---------------------------------------------------------------------------
-- Instructions
-- ---------------------------------------------------------------------------

def deed {μ : Type} [Memory μ] (m : Machine μ ι ο) (op : Opcode) (taken : List UInt8) : Deed where
  op
  ptr := m.registers.ptr
  cell := m.cell
  tmp := m.registers.tmp
  taken

structure Keeps (m next : Machine Ram ι ο) : Prop where
  ptr : next.registers.ptr = m.registers.ptr
  tmp : next.registers.tmp = m.registers.tmp
  memory : next.memory = m.memory
  origin : next.origin = m.origin

structure Performs (d : Deed) (m next : Machine Ram ι ο) : Prop where
  ptr : next.registers.ptr = d.op.move m.registers.ptr
  tmp : next.registers.tmp = if d.op = .store then m.cell else m.registers.tmp
  cell : d.Leaves (next.memory.get m.registers.ptr)
  others : ∀ a, a ≠ m.registers.ptr → next.memory.get a = m.memory.get a
  origin : next.origin = m.origin

section
variable {m next : Machine Ram ι ο} {op : Opcode} {taken : List UInt8}

theorem Keeps.performs (h : Keeps m next)
    (hop : op = .loopOpen ∨ op = .loopClose ∨ op = .output ∨ op = .nop) :
    Performs (m.deed op taken) m next where
  ptr := by rcases hop with rfl | rfl | rfl | rfl <;> exact h.ptr
  tmp := by rcases hop with rfl | rfl | rfl | rfl <;> exact h.tmp
  cell := by
    rw [h.memory]
    rcases hop with rfl | rfl | rfl | rfl <;> rfl
  others := fun a _ => by rw [h.memory]
  origin := h.origin

theorem performs_write {byte : UInt8} (hop : op.writes = true)
    (hleaves : (m.deed op taken).Leaves byte) (hptr : next.registers.ptr = m.registers.ptr)
    (htmp : next.registers.tmp = m.registers.tmp)
    (hmemory : next.memory = m.memory.set m.registers.ptr byte) (horigin : next.origin = m.origin) :
    Performs (m.deed op taken) m next where
  ptr := by
    cases op with
    | incrementPointer => cases hop
    | decrementPointer => cases hop
    | _ => exact hptr
  tmp := by
    cases op with
    | store => cases hop
    | _ => exact htmp
  cell := by rwa [hmemory, Ram.get_set, if_pos rfl]
  others := fun a ha => by rw [hmemory, Ram.get_set, if_neg ha]
  origin := horigin

/-- A turn that executes an instruction does to the data what the instruction does, and
any other leaves the data alone. -/
inductive Books (m : Machine Ram ι ο) (turn : Turn Step Journal Ram ι ο) : Prop
  | performs (op : Opcode) (hresult : turn.result = .ok (.executed op))
      (h : Performs (m.deed op turn.trace.taken) m turn.machine)
  | keeps (hresult : ∀ op, turn.result ≠ .ok (.executed op)) (h : Keeps m turn.machine)

theorem performs_effect (m : Machine Ram ι ο) (taken : List UInt8) (hhalt : op ≠ .halt)
    (houtput : op ≠ .output) (hinput : op ≠ .input) :
    Performs (m.deed op taken) m (m.effect op) := by
  cases op with
  | incrementCell | decrementCell | load => exact performs_write rfl rfl rfl rfl rfl rfl
  | incrementPointer | decrementPointer | store => exact ⟨rfl, rfl, rfl, fun _ _ => rfl, rfl⟩
  | output => exact absurd rfl houtput
  | input => exact absurd rfl hinput
  | halt => exact absurd rfl hhalt
  | loopOpen | loopClose | nop => exact Keeps.performs ⟨rfl, rfl, rfl, rfl⟩ (by simp)

variable [Input ι] [Output ο]

theorem Outcome.books {turn : Turn Step Journal Ram ι ο} (h : Outcome m turn) : Books m turn := by
  cases h with
  | @retires op _ _ _ _ hhalt houtput hinput _ heffect =>
    obtain ⟨hptr, htmp, hcell, hothers, horigin⟩ := m.performs_effect [] hhalt houtput hinput
    rw [heffect] at hptr htmp hcell hothers horigin
    exact .performs op rfl ⟨hptr, htmp, hcell, hothers, horigin⟩
  | @jumps direction =>
    refine .performs direction.nest rfl (Keeps.performs ⟨rfl, rfl, rfl, rfl⟩ ?_)
    cases direction with
    | forward => exact .inl rfl
    | backward => exact .inr (.inl rfl)
  | writes => exact .performs .output rfl (Keeps.performs ⟨rfl, rfl, rfl, rfl⟩ (by simp))
  | takes => exact .performs .input rfl (performs_write rfl rfl rfl rfl rfl rfl)
  | fails | waitsForOutput | waitsForInput | halts => exact .keeps nofun ⟨rfl, rfl, rfl, rfl⟩

end

-- ---------------------------------------------------------------------------
-- Accounts
-- ---------------------------------------------------------------------------

structure Accounted (initial : Ram) (log : List Deed) (m : Machine Ram ι ο) : Prop where
  unlocated : m.origin = none → log = []
  ptr : ∀ origin, m.origin = some origin →
    (m.registers.ptr.val : Int) =
      (origin.val + 1 + tally .incrementPointer log - tally .decrementPointer log) % 8192
  tmp : ∃ event since, Latest (·.op = .store) log event since ∧
    m.registers.tmp = (event.map Deed.cell).getD 0
  cells : ∀ a, Explains (initial.get a) (log.filter (·.ptr = a)) (m.memory.get a)
  untouched : ∀ a, (∀ d ∈ log, d.ptr = a → d.op.writes = false) →
    m.memory.get a = initial.get a

variable {initial : Ram} {log : List Deed} {m next : Machine Ram ι ο}

theorem accounted_start (initial : Ram) (input : ι) (output : ο) :
    Accounted initial [] (start initial input output) where
  unlocated := fun _ => rfl
  ptr := by simp [start]
  tmp := ⟨none, [], .never (by simp), rfl⟩
  cells := by
    intro a
    have hbyte := (initial.get a).toNat_lt
    refine ⟨none, [], _, .never (by simp), .initial, ?_⟩
    rw [Deed.tally_nil, Deed.tally_nil]
    show ((initial.get a).toNat : Int) = _
    omega
  untouched := fun _ _ => rfl

theorem Accounted.keeps (h : Accounted initial log m) (hkeeps : Keeps m next) :
    Accounted initial log next := by
  constructor
  · rw [hkeeps.origin]
    exact h.unlocated
  · rw [hkeeps.origin, hkeeps.ptr]
    exact h.ptr
  · rw [hkeeps.tmp]
    exact h.tmp
  · rw [hkeeps.memory]
    exact h.cells
  · rw [hkeeps.memory]
    exact h.untouched

theorem Performs.explains {op : Opcode} {taken : List UInt8} {first : UInt8} {a : Address}
    (hperforms : Performs (m.deed op taken) m next)
    (h : Explains first (log.filter (·.ptr = a)) (m.memory.get a)) :
    Explains first ((log ++ [m.deed op taken]).filter (·.ptr = a)) (next.memory.get a) := by
  rw [List.filter_append]
  by_cases ha : a = m.registers.ptr
  · subst ha
    have hentered : [m.deed op taken].filter (·.ptr = m.registers.ptr) = [m.deed op taken] := by
      simp [deed]
    rw [hentered]
    exact h.append hperforms.cell
  · have hentered : [m.deed op taken].filter (·.ptr = a) = [] := by
      simp [deed, Ne.symm ha]
    rw [hentered, List.append_nil, hperforms.others a ha]
    exact h

theorem Accounted.performs {op : Opcode} {taken : List UInt8} {origin : Address}
    (h : Accounted initial log m) (horigin : m.origin = some origin)
    (hperforms : Performs (m.deed op taken) m next) :
    Accounted initial (log ++ [m.deed op taken]) next := by
  have hcells := fun a => hperforms.explains (h.cells a)
  constructor
  · simp [hperforms.origin, horigin]
  · intro found hfound
    rw [hperforms.origin] at hfound
    have hptr := h.ptr found hfound
    rw [hperforms.ptr, Deed.val_move, hptr, Deed.tally_append, Deed.tally_append]
    push_cast
    omega
  · obtain ⟨event, since, hlatest, htmp⟩ := h.tmp
    rw [hperforms.tmp]
    split
    · next hstore => exact ⟨_, [], .now log hstore, rfl⟩
    · next hstore => exact ⟨event, _, hlatest.later hstore, htmp⟩
  · exact hcells
  · intro a huntouched
    refine (hcells a).unchanged fun d hd => ?_
    obtain ⟨hlog, hptr⟩ := List.mem_filter.mp hd
    exact huntouched d hlog (by simpa using hptr)

theorem Accounted.boot (h : Accounted initial log m) : Accounted initial log m.boot.machine := by
  rcases m.boot_cases with ⟨_, -, hboot⟩ | ⟨-, -, hboot⟩ | ⟨horigin, origin, -, hboot⟩
  · rw [hboot]
    exact h
  · rw [hboot]
    exact h
  · -- Nothing was executed before, so the data pointer has not moved away from its place.
    rw [hboot, h.unlocated horigin]
    rw [h.unlocated horigin] at h
    refine { h with unlocated := by simp, ptr := ?_ }
    intro found hfound
    cases hfound
    simp [Registers.boot, Address.next, Address.val_advance]

-- ---------------------------------------------------------------------------
-- Sessions
-- ---------------------------------------------------------------------------

variable [Input ι] [Output ο]

/-- The entry for the next step, if it executes an instruction: that is the one under the
program counter once the machine has booted. -/
def deed? (m : Machine Ram ι ο) : Option Deed :=
  match m.step.result with
  | .ok (.executed _) =>
    some (m.boot.machine.deed (Opcode.decode m.boot.machine.fetch) m.step.trace.taken)
  | _ => none

def ledger (starts : List (Machine Ram ι ο)) : List Deed :=
  starts.filterMap deed?

theorem ledger_append (starts : List (Machine Ram ι ο)) (s : Machine Ram ι ο) :
    ledger (starts ++ [s]) = ledger starts ++ s.deed?.toList := by
  cases h : s.deed? <;> simp [ledger, h]

theorem deed?_eq_none (h : ∀ op, m.step.result ≠ .ok (.executed op)) : m.deed? = none := by
  unfold deed?
  split
  · next op hop => exact absurd hop (h op)
  · rfl

theorem Accounted.step (h : Accounted initial log m) :
    Accounted initial (log ++ m.deed?.toList) m.step.machine := by
  cases hhalted : m.isHalted with
  | true =>
    have hstep := step_of_halted hhalted
    rw [deed?_eq_none (by simp [hstep]), hstep, Option.toList_none, List.append_nil]
    exact h
  | false =>
    cases hboot : m.boot.result with
    | error fault =>
      have hstep := step_of_fault hboot hhalted
      rw [deed?_eq_none (by simp [hstep]), hstep, Option.toList_none, List.append_nil]
      exact h.boot
    | ok origin =>
      obtain ⟨hresult, hmachine, htrace⟩ := step_of_located hboot hhalted
      rw [hmachine]
      cases m.boot.machine.execute_outcome.books with
      | performs op hop hperforms =>
        have htaken : m.step.trace.taken = m.boot.machine.execute.trace.taken := by
          simp [htrace, Journal.taken, calls_boot]
        have hfetch := m.boot.machine.execute_outcome.opcode hop
        rw [deed?, hresult, hop, htaken]
        simp only [hfetch]
        exact h.boot.performs (origin_boot hboot) hperforms
      | keeps hnone hkeeps =>
        rw [deed?_eq_none (by rwa [hresult]), Option.toList_none, List.append_nil]
        exact h.boot.keeps hkeeps

theorem accounted_lasting :
    Lasting fun (s : Machine Ram ι ο) _ earlier => Accounted initial (ledger earlier) s where
  boot := fun h => h.boot
  adjust := fun _ _ h => h.keeps ⟨rfl, rfl, rfl, rfl⟩
  step := fun h => by
    rw [ledger_append]
    exact h.step

/-- Wherever a session stands, at its end or at the start of one of its steps, the data
of the machine is accounted for by the instructions executed until then. -/
theorem data_accounted (memory : Ram) (input : ι) (output : ο) (requests : List (Request ι ο)) :
    Accounted memory (ledger ((start memory input output).sessionStarts requests))
        ((start memory input output).after requests) ∧
      ∀ earlier s later,
        (start memory input output).sessionStarts requests = earlier ++ s :: later →
        Accounted memory (ledger earlier) s := by
  have hstart := accounted_start memory input output
  refine ⟨history_induction accounted_lasting requests hstart, fun earlier s later hsplit => ?_⟩
  obtain ⟨_, h⟩ := history_split accounted_lasting hstart hsplit
  exact h

/-- A program that takes an instruction from the input, puts it into its own text and
executes it there. -/
def implantingImage : Image where
  text := [0x2c, 0x24, 0x3c, 0x3c, 0x21, 0x78]
  data := []
  checked := rfl
  fits := by decide

def implantingMachine : Machine Ram QueueInput BufferOutput :=
  start implantingImage.ram ⟨[0x2d]⟩ {}

theorem data_accounted_implanting :
    (implantingMachine.after [.run 9]).memory.get 5 = 0x2c ∧
      Accounted implantingImage.ram (ledger (implantingMachine.sessionStarts [.run 9]))
        (implantingMachine.after [.run 9]) ∧
      ∃ earlier s later, implantingMachine.sessionStarts [.run 9] = earlier ++ s :: later ∧
        (ledger earlier).map Deed.op =
          [.input, .store, .decrementPointer, .decrementPointer, .load] ∧
        Accounted implantingImage.ram (ledger earlier) s := by
  obtain ⟨hend, hstarts⟩ := data_accounted implantingImage.ram (⟨[0x2d]⟩ : QueueInput)
    ({} : BufferOutput) [.run 9]
  have hlength : 5 < (implantingMachine.sessionStarts [.run 9]).length := by decide +kernel
  have hsplit := List.take_append_drop 5 (implantingMachine.sessionStarts [.run 9])
  rw [List.drop_eq_getElem_cons hlength] at hsplit
  exact ⟨by decide +kernel, hend, _, _, _, hsplit.symm, by decide +kernel, hstarts _ _ _ hsplit.symm⟩

end Machine

end RingMachine

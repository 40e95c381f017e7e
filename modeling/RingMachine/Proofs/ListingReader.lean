import Mathlib.Data.List.Sort
import RingMachine.Opcode

/-!
# Listings read back

A listing says where in a text which operations stand, and nothing else. It is read line
by line: the offset, the operation that the character stands for, and the one that the
mnemonic stands for. Offsets have four digits or more, and what follows them is no digit,
so a line can be read in one way only. Two texts have the same listing therefore if and
only if they differ in comments alone.
-/

namespace RingMachine

-- ---------------------------------------------------------------------------
-- Numbers
-- ---------------------------------------------------------------------------

namespace Text

def hexValue? (c : Char) : Option Nat :=
  (List.range 16).find? fun d => d.digitChar == c

def hexNumber? (n : Nat) : List Char → Option Nat
  | [] => some n
  | c :: digits => (hexValue? c).bind fun d => hexNumber? (16 * n + d) digits

theorem hexValue?_digitChar : ∀ d < 16, hexValue? d.digitChar = some d := by
  decide

theorem hexNumber?_append (n : Nat) (front back : List Char) :
    hexNumber? n (front ++ back) = (hexNumber? n front).bind (hexNumber? · back) := by
  induction front generalizing n with
  | nil => rfl
  | cons c front ih =>
    rw [List.cons_append, hexNumber?, hexNumber?, Option.bind_assoc]
    simp only [ih]

theorem hexNumber?_digitChar (n : Nat) {d : Nat} (hd : d < 16) :
    hexNumber? n [d.digitChar] = some (16 * n + d) := by
  rw [hexNumber?, hexValue?_digitChar d hd]
  rfl

theorem hexNumber?_toDigits (n : Nat) : hexNumber? 0 (Nat.toDigits 16 n) = some n := by
  induction n using Nat.base_induction 16 (by decide) with
  | single d hd =>
    rw [Nat.toDigits_of_lt_base hd, hexNumber?_digitChar 0 hd, Nat.mul_zero, Nat.zero_add]
  | digit n d hd hn ih =>
    rw [← Nat.toDigits_append_toDigits (by decide) hn hd, hexNumber?_append, ih,
      Nat.toDigits_of_lt_base hd]
    exact hexNumber?_digitChar n hd

theorem hexNumber?_hexDigits (width n : Nat) : hexNumber? 0 (hexDigits width n) = some n := by
  have hzeros (k : Nat) : hexNumber? 0 (List.replicate k '0') = some 0 := by
    induction k with
    | zero => rfl
    | succ k ih => exact ih
  rw [hexDigits, List.leftpad, hexNumber?_append, hzeros]
  exact hexNumber?_toDigits n

theorem mem_toDigits {n : Nat} {c : Char} (h : c ∈ Nat.toDigits 16 n) :
    ∃ d < 16, d.digitChar = c := by
  induction n using Nat.base_induction 16 (by decide) with
  | single d hd =>
    rw [Nat.toDigits_of_lt_base hd, List.mem_singleton] at h
    exact ⟨d, hd, h.symm⟩
  | digit n d hd hn ih =>
    rw [← Nat.toDigits_append_toDigits (by decide) hn hd, Nat.toDigits_of_lt_base hd] at h
    rcases List.mem_append.mp h with h | h
    · exact ih h
    · exact ⟨d, hd, (List.mem_singleton.mp h).symm⟩

theorem mem_hexDigits {width n : Nat} {c : Char} (h : c ∈ hexDigits width n) :
    ∃ d < 16, d.digitChar = c := by
  rw [hexDigits, List.leftpad] at h
  rcases List.mem_append.mp h with h | h
  · exact ⟨0, by decide, (List.eq_of_mem_replicate h).symm⟩
  · exact mem_toDigits h

theorem ne_space_of_mem {width n : Nat} {c : Char} (h : c ∈ hexDigits width n) : c ≠ ' ' := by
  obtain ⟨d, -, rfl⟩ := mem_hexDigits h
  exact Nat.digitChar_ne ' ' (by decide)

theorem newline_notMem_hexDigits (width n : Nat) : '\n' ∉ hexDigits width n := by
  intro h
  obtain ⟨d, -, hd⟩ := mem_hexDigits h
  exact Nat.digitChar_ne '\n' (by decide) hd

def lines? : List Char → Option (List (List Char))
  | [] => some []
  | c :: text =>
    if c = '\n' then (lines? text).map ([] :: ·)
    else
      match lines? text with
      | some (line :: lines) => some ((c :: line) :: lines)
      | _ => none

theorem lines?_line {line : List Char} (h : '\n' ∉ line) (text : List Char) :
    lines? (line ++ '\n' :: text) = (lines? text).map (line :: ·) := by
  induction line with
  | nil => rw [List.nil_append, lines?, if_pos rfl]
  | cons c line ih =>
    rw [List.mem_cons, not_or] at h
    rw [List.cons_append, lines?, if_neg (Ne.symm h.1), ih h.2]
    cases lines? text <;> rfl

theorem lines?_flatMap {α : Type} {f : α → List Char} {xs : List α} (h : ∀ x ∈ xs, '\n' ∉ f x) :
    lines? (xs.flatMap fun x => f x ++ ['\n']) = some (xs.map f) := by
  induction xs with
  | nil => rfl
  | cons x xs ih =>
    obtain ⟨hx, hxs⟩ := List.forall_mem_cons.mp h
    rw [List.flatMap_cons, List.append_assoc, List.singleton_append, lines?_line hx, ih hxs]
    rfl

end Text

-- ---------------------------------------------------------------------------
-- Names of operations
-- ---------------------------------------------------------------------------

namespace Opcode

/-- The operation that has a name, of one kind of names. -/
def named? {α : Type} [DecidableEq α] (name : Opcode → α) (a : α) : Option Opcode :=
  all.find? fun op => name op = a

def symbol? (op : Opcode) : Option Char :=
  op.encoding?.map Char.ofUInt8

def letters (op : Opcode) : List Char :=
  op.mnemonic.toList

theorem mem_all {op : Opcode} (h : op ≠ nop) : op ∈ all := by
  cases op with
  | nop => contradiction
  | _ => decide

theorem named?_name {α : Type} [DecidableEq α] {name : Opcode → α} {op : Opcode}
    (hnames : ∀ one ∈ all, ∀ two ∈ all, name one = name two → one = two) (hop : op ≠ nop) :
    named? name (name op) = some op := by
  have hall := mem_all hop
  cases hfound : named? name (name op) with
  | none => exact absurd (List.find?_eq_none.mp hfound op hall) (by simp)
  | some found =>
    have hname : name found = name op := by simpa using List.find?_some hfound
    rw [hnames found (List.mem_of_find?_eq_some hfound) op hall hname]

theorem symbol?_inj : ∀ one ∈ all, ∀ two ∈ all, symbol? one = symbol? two → one = two := by
  decide

theorem letters_inj : ∀ one ∈ all, ∀ two ∈ all, letters one = letters two → one = two := by
  decide

theorem newline_notMem_letters (op : Opcode) : '\n' ∉ op.letters := by
  cases op <;> decide

theorem symbol?_decode {byte : UInt8} (h : decode byte ≠ nop) :
    (decode byte).symbol? = some (Char.ofUInt8 byte) := by
  rw [symbol?, encoding_decode h]
  rfl

theorem char_ne_newline {byte : UInt8} (h : decode byte ≠ nop) : Char.ofUInt8 byte ≠ '\n' := by
  intro hchar
  exact h (by simp [decode, hchar])

theorem decode_inj {one two : UInt8} (h : decode one ≠ nop) : decode two = decode one ↔ two = one := by
  rw [decode_eq_iff h, encoding_decode h, Option.some.injEq, eq_comm]

end Opcode

-- ---------------------------------------------------------------------------
-- Lines
-- ---------------------------------------------------------------------------

namespace Listing

/-- What a line says: an offset, the operation of the character and that of the mnemonic. -/
structure Row where
  offset : Nat
  symbol : Opcode
  name : Opcode
  deriving DecidableEq, Repr

def readLine? (line : List Char) : Option Row :=
  match line.dropWhile (· != ' ') with
  | ' ' :: ' ' :: symbol :: ' ' :: ' ' :: name => do
    let offset ← Text.hexNumber? 0 (line.takeWhile (· != ' '))
    let symbol ← Opcode.named? Opcode.symbol? (some symbol)
    let name ← Opcode.named? Opcode.letters name
    return ⟨offset, symbol, name⟩
  | _ => none

def read? (listing : String) : Option (List Row) :=
  (Text.lines? listing.toList).bind (·.mapM readLine?)

namespace Entry

def fields (entry : Entry) : List Char :=
  Text.hexDigits 4 entry.offset ++
    ' ' :: ' ' :: Char.ofUInt8 entry.byte :: ' ' :: ' ' :: entry.opcode.letters

def row (entry : Entry) : Row :=
  ⟨entry.offset, entry.opcode, entry.opcode⟩

def shift (n : Nat) (entry : Entry) : Entry :=
  { entry with offset := entry.offset + n }

variable {entry : Entry}

theorem toList_line (entry : Entry) : entry.line.toList = entry.fields ++ ['\n'] := by
  simp [line, fields, Opcode.letters]

theorem newline_notMem_fields (h : entry.opcode ≠ .nop) : '\n' ∉ entry.fields := by
  have hchar := Opcode.char_ne_newline h
  have hletters := entry.opcode.newline_notMem_letters
  have hdigits := Text.newline_notMem_hexDigits 4 entry.offset
  simp [fields, hdigits, hchar.symm, hletters]

theorem readLine?_fields (h : entry.opcode ≠ .nop) : readLine? entry.fields = some entry.row := by
  have hdigits : ∀ c ∈ Text.hexDigits 4 entry.offset, (c != ' ') = true :=
    fun c hc => bne_iff_ne.mpr (Text.ne_space_of_mem hc)
  have hsymbol : Opcode.named? Opcode.symbol? (some (Char.ofUInt8 entry.byte)) =
      some entry.opcode := by
    rw [← Opcode.symbol?_decode h]
    exact Opcode.named?_name Opcode.symbol?_inj h
  have hname : Opcode.named? Opcode.letters entry.opcode.letters = some entry.opcode :=
    Opcode.named?_name Opcode.letters_inj h
  rw [readLine?, fields, List.dropWhile_append_of_pos hdigits, List.takeWhile_append_of_pos hdigits]
  simp [Text.hexNumber?_hexDigits, hsymbol, hname, row]

end Entry

theorem mapM_readLine? {entries : List Entry} (h : ∀ entry ∈ entries, entry.opcode ≠ .nop) :
    (entries.map Entry.fields).mapM readLine? = some (entries.map Entry.row) := by
  induction entries with
  | nil => rfl
  | cons entry entries ih =>
    obtain ⟨hentry, hentries⟩ := List.forall_mem_cons.mp h
    rw [List.map_cons, List.mapM_cons, Entry.readLine?_fields hentry, ih hentries]
    rfl

theorem read?_render {entries : List Entry} (h : ∀ entry ∈ entries, entry.opcode ≠ .nop) :
    read? (render entries) = some (entries.map Entry.row) := by
  have hlines : Text.lines? (render entries).toList = some (entries.map Entry.fields) := by
    rw [render, String.toList_join, List.flatMap_map]
    simp only [Entry.toList_line]
    exact Text.lines?_flatMap fun entry hentry => Entry.newline_notMem_fields (h entry hentry)
  rw [read?, hlines]
  exact mapM_readLine? h

-- ---------------------------------------------------------------------------
-- Texts
-- ---------------------------------------------------------------------------

theorem mem_entriesFrom_iff {start : Nat} {text : List UInt8} {entry : Entry} :
    entry ∈ entriesFrom start text ↔
      entry.opcode ≠ .nop ∧ start ≤ entry.offset ∧ text[entry.offset - start]? = some entry.byte := by
  obtain ⟨offset, byte⟩ := entry
  rw [← List.mk_mem_zipIdx_iff_le_and_getElem?_sub, entriesFrom, List.mem_filterMap]
  constructor
  · rintro ⟨⟨found, i⟩, hfound, hentry⟩
    simp only at hentry
    split at hentry
    · cases hentry
    · next hop =>
      cases hentry
      exact ⟨hop, hfound⟩
  · rintro ⟨hop, hfound⟩
    exact ⟨_, hfound, if_neg hop⟩

theorem mem_entries_iff {text : List UInt8} {entry : Entry} :
    entry ∈ entries text ↔ entry.opcode ≠ .nop ∧ text[entry.offset]? = some entry.byte := by
  rw [entries, mem_entriesFrom_iff]
  simp

theorem pairwise_entriesFrom (start : Nat) (text : List UInt8) :
    (entriesFrom start text).Pairwise (·.offset < ·.offset) := by
  induction text generalizing start with
  | nil => exact .nil
  | cons byte text ih =>
    rw [entriesFrom_cons]
    split
    · exact ih _
    · refine .cons (fun entry hentry => ?_) (ih _)
      exact (mem_entriesFrom_iff.mp hentry).2.1

theorem length_entriesFrom (start : Nat) (text : List UInt8) :
    (entriesFrom start text).length = text.countP (Opcode.decode · ≠ .nop) := by
  induction text generalizing start with
  | nil => rfl
  | cons byte text ih =>
    rw [entriesFrom_cons, List.length_append, ih, List.countP_cons, Nat.add_comm]
    by_cases hop : Opcode.decode byte = .nop <;> simp [hop]

theorem entriesFrom_shift (start n : Nat) (text : List UInt8) :
    entriesFrom (start + n) text = (entriesFrom start text).map (Entry.shift n) := by
  induction text generalizing start with
  | nil => rfl
  | cons byte text ih =>
    rw [entriesFrom_cons, entriesFrom_cons, List.map_append, ← ih, Nat.add_right_comm]
    split <;> rfl

def SameOperations (one two : List UInt8) : Prop :=
  ∀ (i : Nat) (byte : UInt8), Opcode.decode byte ≠ .nop → (one[i]? = some byte ↔ two[i]? = some byte)

theorem entries_eq_of_same {one two : List UInt8} (h : SameOperations one two) :
    entries one = entries two := by
  -- Entries in the order of their offsets are settled by which of them there are.
  have : Std.Irrefl fun a b : Entry => a.offset < b.offset := ⟨fun a => Nat.lt_irrefl a.offset⟩
  have : Std.Antisymm fun a b : Entry => a.offset < b.offset :=
    ⟨fun _ _ hab hba => absurd hab (Nat.lt_asymm hba)⟩
  refine (pairwise_entriesFrom 0 one).eq_of_mem_iff (pairwise_entriesFrom 0 two) fun entry => ?_
  change entry ∈ entries one ↔ entry ∈ entries two
  rw [mem_entries_iff, mem_entries_iff]
  exact and_congr_right fun hop => h entry.offset entry.byte hop

structure Accounts (text : List UInt8) (rows : List Row) : Prop where
  one_each : rows.length = text.countP (Opcode.decode · ≠ .nop)
  increasing : rows.Pairwise (·.offset < ·.offset)
  agreeing : ∀ row ∈ rows, row.name = row.symbol
  members : ∀ offset op, (offset, op) ∈ rows.map (fun row => (row.offset, row.symbol)) ↔
    op ≠ .nop ∧ ∃ byte, text[offset]? = some byte ∧ Opcode.decode byte = op

theorem read?_ofText (text : List UInt8) : read? (ofText text) = some ((entries text).map Entry.row) :=
  read?_render fun _ hentry => (mem_entries_iff.mp hentry).1

theorem accounts_entries (text : List UInt8) : Accounts text ((entries text).map Entry.row) where
  one_each := by
    rw [List.length_map]
    exact length_entriesFrom 0 text
  increasing := List.pairwise_map.mpr (pairwise_entriesFrom 0 text)
  agreeing := by
    intro row hrow
    obtain ⟨entry, -, rfl⟩ := List.mem_map.mp hrow
    rfl
  members := by
    intro offset op
    rw [List.map_map, List.mem_map]
    constructor
    · rintro ⟨entry, hentry, hrow⟩
      cases hrow
      obtain ⟨hop, hbyte⟩ := mem_entries_iff.mp hentry
      exact ⟨hop, entry.byte, hbyte, rfl⟩
    · rintro ⟨hop, byte, hbyte, rfl⟩
      exact ⟨⟨offset, byte⟩, mem_entries_iff.mpr ⟨hop, hbyte⟩, rfl⟩

theorem Accounts.mem_iff {text : List UInt8} {rows : List Row} (h : Accounts text rows) {i : Nat}
    {byte : UInt8} (hop : Opcode.decode byte ≠ .nop) :
    (i, Opcode.decode byte) ∈ rows.map (fun row => (row.offset, row.symbol)) ↔
      text[i]? = some byte := by
  rw [h.members]
  constructor
  · rintro ⟨-, found, hfound, hdecode⟩
    rwa [← (Opcode.decode_inj hop).mp hdecode]
  · intro hbyte
    exact ⟨hop, byte, hbyte, rfl⟩

theorem ofText_eq_iff {one two : List UInt8} : ofText one = ofText two ↔ SameOperations one two := by
  constructor
  · intro h i byte hop
    have hrows : (entries one).map Entry.row = (entries two).map Entry.row := by
      rw [← Option.some.injEq, ← read?_ofText, ← read?_ofText, h]
    rw [← (accounts_entries one).mem_iff hop, ← (accounts_entries two).mem_iff hop, hrows]
  · intro h
    rw [ofText, ofText, entries_eq_of_same h]

theorem render_append (front back : List Entry) :
    render (front ++ back) = render front ++ render back := by
  rw [render, List.map_append, String.join_append]
  rfl

/-- A listing can be read back as the operations of its text and their offsets; it is that of
another text too if and only if the two differ in comments alone; and the listing of a
text that is continued goes on with that of the continuation, further on. -/
theorem listing_determines (one two : List UInt8) :
    (∃ rows, read? (ofText one) = some rows ∧ Accounts one rows) ∧
    (ofText one = ofText two ↔ SameOperations one two) ∧
    ofText (one ++ two) = ofText one ++ render ((entries two).map (Entry.shift one.length)) := by
  refine ⟨⟨_, read?_ofText one, accounts_entries one⟩, ofText_eq_iff, ?_⟩
  rw [ofText, ofText, entries, entries, entries, entriesFrom_append, render_append, entriesFrom_shift]

example : ofText [0x2b, 0x20, 0x5b] = "0000  +  inc\n0002  [  loop\n" := by decide

end Listing

end RingMachine

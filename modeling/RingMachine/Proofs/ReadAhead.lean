import Mathlib.Data.List.Induction
import RingMachine.Proofs.StreamFailures

/-!
# Reading ahead

A host may ask an input over a source anything in any order. It gets the bytes that the
source delivers, each once and in order. One byte is read ahead at most, and nothing
behind the reply that ends the source; and of the failure that ended it the host is told
once.
-/

namespace RingMachine

-- ---------------------------------------------------------------------------
-- Replies of a source
-- ---------------------------------------------------------------------------

def Reply.ends : Reply → Bool
  | byte _ => false
  | endOfInput => true
  | failure error => error.kind != .interrupted

namespace Source

def ending : List Reply → Option StreamError
  | [] => none
  | .byte _ :: rest => ending rest
  | .endOfInput :: _ => none
  | .failure error :: rest => if error.kind = .interrupted then ending rest else some error

theorem ending_answer (reads : Nat) (script : List Reply) :
    ending script =
      match (answer reads script).1 with
      | .byte _ => ending (answer reads script).2.script
      | .endOfInput => none
      | .failure error => some error := by
  induction script generalizing reads with
  | nil => rfl
  | cons reply rest ih =>
    cases reply with
    | byte value => rfl
    | endOfInput => rfl
    | failure error =>
      by_cases hkind : error.kind = .interrupted
      · simp only [answer, ending, if_pos hkind]
        exact ih (reads + 1)
      · simp only [answer, ending, if_neg hkind]

theorem delivered_append {first second : List Reply} (h : first.any Reply.ends = false) :
    delivered (first ++ second) = delivered first ++ delivered second := by
  induction first with
  | nil => rfl
  | cons reply rest ih =>
    rw [List.any_cons, Bool.or_eq_false_iff] at h
    obtain ⟨hreply, hrest⟩ := h
    cases reply with
    | byte value => simp only [List.cons_append, delivered, ih hrest]
    | endOfInput => cases hreply
    | failure error =>
      have hkind : error.kind = .interrupted := by simpa [Reply.ends] using hreply
      simp only [List.cons_append, delivered, if_pos hkind, ih hrest]

theorem skipped_interruptions {skipped : List Reply} (h : ∀ reply ∈ skipped, reply.Interrupts) :
    skipped.any Reply.ends = false ∧ delivered skipped = [] := by
  induction skipped with
  | nil => exact ⟨rfl, rfl⟩
  | cons reply rest ih =>
    obtain ⟨⟨error, rfl, hkind⟩, hrest⟩ := List.forall_mem_cons.mp h
    obtain ⟨hends, hdelivered⟩ := ih hrest
    simp [Reply.ends, delivered, hkind, hends, hdelivered]

theorem delivered_given_answer {script : List Reply} {reads : Nat} {reply : Reply} {source : Source}
    (h : answer reads (script.drop reads) = (reply, source))
    (hopen : (given script reads).any Reply.ends = false) :
    (given script source.reads).any Reply.ends = reply.ends ∧
      delivered (given script source.reads) = delivered (given script reads) ++ delivered [reply] := by
  obtain ⟨-, skipped, hgiven, hskipped, -⟩ := given_of_answer h
  obtain ⟨hends, hnothing⟩ := skipped_interruptions hskipped
  have hbefore : (given script reads ++ skipped).any Reply.ends = false := by
    simp [List.any_append, hopen, hends]
  rw [hgiven]
  constructor
  · rw [List.any_append, hbefore]
    simp
  · rw [delivered_append hbefore, delivered_append hopen, hnothing, List.append_nil]

end Source

-- ---------------------------------------------------------------------------
-- Inputs
-- ---------------------------------------------------------------------------

namespace StreamInput

inductive Query
  | hasByte
  | takeByte
  | takeError
  | isExhausted
  deriving DecidableEq, Repr

def ask (device : StreamInput) : Query → StreamInput
  | .hasByte => device.hasByte.2
  | .takeByte => device.takeByte.2
  | .takeError => device.takeError.2
  | .isExhausted => device

def takes (device : StreamInput) : Query → Option UInt8
  | .takeByte => if device.held.isSome then some device.takeByte.1 else none
  | _ => none

def tells (device : StreamInput) : Query → Option StreamError
  | .takeError => device.takeError.1
  | _ => none

def after (device : StreamInput) (queries : List Query) : StreamInput :=
  queries.foldl ask device

def taken (device : StreamInput) (queries : List Query) : List UInt8 :=
  gathered ask takes device queries

def told (device : StreamInput) (queries : List Query) : List StreamError :=
  gathered ask tells device queries

/-- What is known of a device when some bytes have been taken from it and some failures
have been told. -/
structure Served (script : List Reply) (taken : List UInt8) (told : List StreamError)
    (device : StreamInput) : Prop where
  rest : device.source.script = script.drop device.source.reads
  pending : taken ++ device.pending = Source.delivered script
  read : Source.delivered (Source.given script device.source.reads) = taken ++ device.held.toList
  closed : device.closed = (Source.given script device.source.reads).any Reply.ends
  held : device.closed = true → device.held = none
  ending : device.closed = false → Source.ending device.source.script = Source.ending script
  told : told ++ device.error.toList = if device.closed then (Source.ending script).toList else []

variable {script : List Reply} {taken : List UInt8} {told : List StreamError} {device : StreamInput}

theorem served_ofSource (script : List Reply) : Served script [] [] (ofSource { script }) where
  rest := rfl
  pending := by simp [ofSource, StreamInput.pending]
  read := rfl
  closed := rfl
  held := by simp [ofSource]
  ending _ := rfl
  told := rfl

theorem Served.fill (h : Served script taken told device) (hheld : device.held = none)
    (hopen : device.closed = false) : Served script taken told device.fill := by
  have hpending := (pending_fill hheld hopen).1
  have hnotYet : (Source.given script device.source.reads).any Reply.ends = false :=
    h.closed.symm.trans hopen
  -- An open device keeps no failure and has told of none, so the one that ends the source is
  -- still to come.
  have htold := h.told
  rw [hopen, if_neg Bool.false_ne_true, List.append_eq_nil_iff] at htold
  obtain ⟨rfl, herror⟩ := htold
  rcases hnext : device.source.next with ⟨reply, source⟩
  have hanswer := hnext
  have hending := Source.ending_answer device.source.reads device.source.script
  rw [← Source.next, hnext, h.ending hopen] at hending
  rw [Source.next, h.rest] at hanswer
  obtain ⟨hrest, -, -, -, hreply⟩ := Source.given_of_answer hanswer
  obtain ⟨hends, hread⟩ := Source.delivered_given_answer hanswer hnotYet
  rw [h.read, hheld] at hread
  have htaken := h.pending
  rw [← hpending] at htaken
  rcases reply with value | _ | error
  · have hfill : device.fill = { device with source, held := some value } := by
      simp only [StreamInput.fill, hnext]
    rw [hfill] at htaken ⊢
    exact
      { rest := hrest
        pending := htaken
        read := by simpa [Source.delivered] using hread
        closed := hopen.trans hends.symm
        held := by simp [hopen]
        ending := fun _ => hending.symm
        told := by simp [hopen, herror] }
  · have hfill : device.fill = { device with source, closed := true } := by
      simp only [StreamInput.fill, hnext]
    rw [hfill] at htaken ⊢
    exact
      { rest := hrest
        pending := htaken
        read := by simpa [Source.delivered, hheld] using hread
        closed := hends.symm
        held := fun _ => hheld
        ending := by simp
        told := by simp [hending, herror] }
  · have hfill : device.fill = { device with source, closed := true, error := some error } := by
      simp only [StreamInput.fill, hnext]
    have hfatal : Reply.ends (.failure error) = true := by
      simpa [Reply.Interrupts, Reply.ends] using hreply
    rw [hfill] at htaken ⊢
    exact
      { rest := hrest
        pending := htaken
        read := by simpa [Source.delivered, hheld] using hread
        closed := (hends.trans hfatal).symm
        held := fun _ => hheld
        ending := by simp
        told := by simp [hending] }

theorem Served.hasByte (h : Served script taken told device) :
    Served script taken told device.hasByte.2 := by
  unfold StreamInput.hasByte
  split
  · rename_i hasks
    rw [Bool.and_eq_true, Option.isNone_iff_eq_none, Bool.not_eq_true'] at hasks
    exact h.fill hasks.1 hasks.2
  · exact h

theorem takeByte_of_none (hheld : device.held = none) : device.takeByte = (0, device) := by
  cases device
  cases hheld
  rfl

theorem Served.takeByte (h : Served script taken told device) :
    Served script (taken ++ (device.takes .takeByte).toList) told device.takeByte.2 := by
  cases hheld : device.held with
  | none =>
    rw [takeByte_of_none hheld]
    simpa [takes, hheld] using h
  | some value =>
    obtain ⟨hvalue, hpending⟩ := pending_takeByte hheld
    -- A closed device holds no byte, so this one has not read the reply that ends the source.
    have hopen : device.closed = false := by
      by_contra hclosed
      simp [h.held (by simpa using hclosed)] at hheld
    have htakes : (device.takes .takeByte).toList = [value] := by simp [takes, hheld, hvalue]
    rw [htakes]
    exact
      { rest := h.rest
        pending := by rw [List.append_assoc, List.singleton_append, ← hpending, h.pending]
        read := by simpa [hheld, StreamInput.takeByte] using h.read
        closed := h.closed
        held := fun _ => rfl
        ending := h.ending
        told := h.told }

theorem Served.takeError (h : Served script taken told device) :
    Served script taken (told ++ (device.tells .takeError).toList) device.takeError.2 where
  rest := h.rest
  pending := h.pending
  read := h.read
  closed := h.closed
  held := h.held
  ending := h.ending
  told := (List.append_nil _).trans h.told

theorem Served.ask (h : Served script taken told device) (query : Query) :
    Served script (taken ++ (device.takes query).toList) (told ++ (device.tells query).toList)
      (device.ask query) := by
  cases query with
  | hasByte => simpa [StreamInput.ask, takes, tells] using h.hasByte
  | takeByte => simpa [StreamInput.ask, tells] using h.takeByte
  | takeError => simpa [StreamInput.ask, takes] using h.takeError
  | isExhausted => simpa [StreamInput.ask, takes, tells] using h

theorem served_after (script : List Reply) (past : List Query) :
    Served script ((ofSource { script }).taken past) ((ofSource { script }).told past)
      ((ofSource { script }).after past) := by
  induction past using List.reverseRecOn with
  | nil => exact served_ofSource script
  | append_singleton past query ih =>
    simp only [StreamInput.taken, StreamInput.told, gathered_concat, after, List.foldl_append]
    exact ih.ask query

theorem source_after_of_closed (hclosed : device.closed = true) (later : List Query) :
    (device.after later).source = device.source := by
  induction later generalizing device with
  | nil => rfl
  | cons query later ih =>
    have hask : (device.ask query).closed = true ∧ (device.ask query).source = device.source := by
      cases query with
      | hasByte => simp [StreamInput.ask, StreamInput.hasByte, hclosed]
      | takeByte | takeError | isExhausted => exact ⟨hclosed, rfl⟩
    exact (ih hask.1).trans hask.2

theorem Served.exhausted_iff (h : Served script taken told device) :
    device.isExhausted = true ↔ device.closed = true := by
  rw [isExhausted, Bool.and_eq_true, Option.isNone_iff_eq_none]
  exact ⟨And.left, fun hclosed => ⟨hclosed, h.held hclosed⟩⟩

theorem hasByte_iff_pending : device.hasByte.1 = true ↔ device.pending ≠ [] := by
  obtain ⟨hsame, htrue, hfalse⟩ := device.pending_hasByte
  constructor
  · intro hbyte
    obtain ⟨value, hheld⟩ := htrue hbyte
    rw [← hsame, (pending_takeByte hheld).2]
    simp
  · intro hpending
    by_contra hbyte
    exact hpending (hfalse (by simpa using hbyte))

/-- Whatever a device over a source is asked, and in whatever order: the bytes taken from
it are the first that the source delivers, in order, and taking one where none is held
does nothing; it has a byte as long as some have not been taken; at most one has been read
beyond those taken; it is exhausted if and only if the reply that ends the source has been
read, and from then on it reads no more; and of the failure that ended the source, if one
did, it tells whoever asks first after it was read, and nobody else. -/
theorem dialogue_faithful (script : List Reply) (past : List Query) :
    let fresh := ofSource { script }
    let device := fresh.after past
    let read := Source.given script device.source.reads
    device.source.script = script.drop device.source.reads ∧
    fresh.taken past <+: Source.delivered script ∧
    (device.held = none → device.takeByte = (0, device)) ∧
    (device.hasByte.1 = true ↔ (fresh.taken past).length < (Source.delivered script).length) ∧
    (∃ ahead, Source.delivered read = fresh.taken past ++ ahead ∧ ahead.length ≤ 1) ∧
    (device.isExhausted = true ↔ read.any Reply.ends = true) ∧
    (read.any Reply.ends = true → ∀ later, (device.after later).source = device.source) ∧
    fresh.told past ++ device.takeError.1.toList =
      if read.any Reply.ends then (Source.ending script).toList else [] := by
  intro fresh device read
  have h : Served script (fresh.taken past) (fresh.told past) device := served_after script past
  refine ⟨h.rest, ⟨_, h.pending⟩, takeByte_of_none, ?_, ⟨_, h.read, ?_⟩, ?_, fun hends => ?_, ?_⟩
  · rw [hasByte_iff_pending, ← h.pending, List.length_append, ← List.length_pos_iff]
    omega
  · cases device.held <;> simp
  · rw [← h.closed]
    exact h.exhausted_iff
  · exact source_after_of_closed (h.closed.trans hends)
  · rw [← h.closed]
    exact h.told

/-- Interrupted at first, and with a byte behind the failure that ends it. -/
def cutScript : List Reply :=
  [.failure ⟨.interrupted, "again"⟩, .byte 0x41, .failure ⟨.other "TimedOut", "late"⟩, .byte 0x42]

/-- A byte is taken too early, and the failure is asked for before it is met. -/
def cutQueries : List Query :=
  [.takeByte, .hasByte, .takeError, .hasByte, .takeByte, .hasByte]

theorem dialogue_faithful_cut :
    let device := (ofSource { script := cutScript }).after cutQueries
    device.isExhausted = true ∧ device.takeError.1 = some ⟨.other "TimedOut", "late"⟩ ∧
      ∀ later, (device.after later).source.reads = 3 := by
  intro device
  obtain ⟨-, -, -, -, -, hexhausted, hlater, htold⟩ := dialogue_faithful cutScript cutQueries
  refine ⟨hexhausted.mpr rfl, ?_, fun later => ?_⟩
  · have htold' : device.takeError.1.toList = [⟨.other "TimedOut", "late"⟩] := htold
    simpa [Option.toList_eq_singleton_iff] using htold'
  · rw [hlater rfl]
    rfl

end StreamInput

end RingMachine

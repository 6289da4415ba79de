import Mathlib.Logic.Function.Basic
import Mathlib.Logic.Relation
import LineageJournal.Journal.Threads
import LineageJournal.Proofs.Journal.Offsets
import LineageJournal.Proofs.Stream.Reliable

/-! Sections of threads that share a writer. A thread that owns the segment lock notes the byte
count, writes a record and puts the place of the record in an index. The other threads do the
same, or close the writer, whenever the lock lets them, and look at the writer at any time. -/

namespace LineageJournal

open Wire

/-- Where a record lies, as the thread that wrote it has found. -/
structure Entry where
  event : Event
  recordId : UInt64
  offset : Nat
  size : Nat

def Entry.Covers (entry : Entry) (position : Nat) : Prop :=
  entry.offset ≤ position ∧ position < entry.offset + entry.size

inductive Stage where
  | ready
  | noted (offset : Nat)
  /-- Written, but not in the index yet. -/
  | wrote (entry : Entry)

inductive Activity where
  | outside
  /-- In a section, with `again` acquisitions of the lock beyond the first. -/
  | inside (again : Nat) (stage : Stage)
  | closing
  | closed

namespace Activity

def depth? : Activity → Option Nat
  | outside => none
  | inside again _ => some again
  | closing => some 0
  | closed => some 0

def stage : Activity → Stage
  | inside _ stage => stage
  | _ => .ready

/-- What a thread may call, and where it is when the call has answered. Records are written in
sections only, at an offset that was noted before, and the writer is closed outside of them. -/
inductive Moves : Activity → Call → Reply → Activity → Prop
  | enter : Moves outside .lock .locked (inside 0 .ready)
  | tryEnter : Moves outside .tryLock (.tried true) (inside 0 .ready)
  | enterAgain {again : Nat} {stage : Stage} :
      Moves (inside again stage) .lock .locked (inside (again + 1) stage)
  | tryAgain {again : Nat} {stage : Stage} :
      Moves (inside again stage) .tryLock (.tried true) (inside (again + 1) stage)
  | refused {activity : Activity} : Moves activity .tryLock (.tried false) activity
  | leaveOne {again : Nat} {stage : Stage} :
      Moves (inside (again + 1) stage) .unlock .unlocked (inside again stage)
  | leave : Moves (inside 0 .ready) .unlock .unlocked outside
  | note {again offset : Nat} :
      Moves (inside again .ready) .bytesWritten (.count offset) (inside again (.noted offset))
  | write {again offset size : Nat} {event : Event} {recordId : UInt64} :
      Moves (inside again (.noted offset)) (.writeRecord event recordId) (.wrote (.ok size))
        (inside again (.wrote ⟨event, recordId, offset, size⟩))
  | fail {again offset : Nat} {event : Event} {recordId : UInt64} {record : List UInt8}
      {error : JournalError} (encodable : event.encode recordId = .ok record) :
      Moves (inside again (.noted offset)) (.writeRecord event recordId) (.wrote (.error error))
        (inside again .ready)
  | count {activity : Activity} {bytes : Nat} :
      Moves activity .bytesWritten (.count bytes) activity
  | ask {activity : Activity} {value : Bool} : Moves activity .isClosed (.closed value) activity
  | sync {activity : Activity} {result : Except JournalError Unit} :
      Moves activity .sync (.finished result) activity
  | close : Moves outside .lock .locked closing
  | shut {result : Except JournalError Unit} : Moves closing .shut (.finished result) closed
  | release : Moves closed .unlock .unlocked outside

end Activity

/-- A writer, the threads that use it and the index that they keep. -/
structure Sections (σ : Type) where
  writer : RecordWriter σ
  activities : Nat → Activity
  index : List Entry

namespace Sections

variable {σ : Type}

def start (writer : RecordWriter σ) : Sections σ :=
  { writer, activities := fun _ => .outside, index := [] }

def Holds (state : Sections σ) (thread : Nat) : Prop :=
  ∃ again stage, state.activities thread = .inside again stage

def move (state : Sections σ) (thread : Nat) (writer : RecordWriter σ) (activity : Activity) :
    Sections σ :=
  { state with writer, activities := Function.update state.activities thread activity }

def put (state : Sections σ) (entry : Entry) : Sections σ :=
  { state with index := state.index ++ [entry] }

@[simp] theorem move_writer (state : Sections σ) (thread : Nat) (writer : RecordWriter σ)
    (activity : Activity) : (state.move thread writer activity).writer = writer := rfl

@[simp] theorem move_self (state : Sections σ) (thread : Nat) (writer : RecordWriter σ)
    (activity : Activity) : (state.move thread writer activity).activities thread = activity :=
  Function.update_self ..

@[simp] theorem move_of_ne (state : Sections σ) {thread other : Nat} (apart : other ≠ thread)
    (writer : RecordWriter σ) (activity : Activity) :
    (state.move thread writer activity).activities other = state.activities other :=
  Function.update_of_ne apart ..

theorem move_eq_self (state : Sections σ) (thread : Nat) :
    state.move thread state.writer (state.activities thread) = state := by
  rw [move, Function.update_eq_self]

variable [ByteSink σ]

/-- A thread calls the writer and gets an answer, or puts its record in the index. A thread that
has to wait for the lock makes no step. -/
inductive Step (state : Sections σ) (thread : Nat) : Sections σ → Prop
  | call {call : Call} {reply : Reply} {writer : RecordWriter σ} {activity : Activity}
      (performed : state.writer.perform? thread call = some (reply, writer))
      (moves : (state.activities thread).Moves call reply activity) :
      Step state thread (state.move thread writer activity)
  | record {again : Nat} {entry : Entry}
      (wrote : state.activities thread = .inside again (.wrote entry)) :
      Step state thread ((state.move thread state.writer (.inside again .ready)).put entry)

def Steps (state next : Sections σ) : Prop := ∃ thread, state.Step thread next

end Sections

/-- The bytes are the records of the entries, one after the other from the offset on. -/
inductive LaidOut : Nat → List Entry → List UInt8 → Prop
  | nil (offset : Nat) : LaidOut offset [] []
  | cons {offset : Nat} {event : Event} {recordId : UInt64} {record bytes : List UInt8}
      {entries : List Entry} (encoded : event.encode recordId = .ok record)
      (rest : LaidOut (offset + record.length) entries bytes) :
      LaidOut offset (⟨event, recordId, offset, record.length⟩ :: entries) (record ++ bytes)

namespace LaidOut

variable {offset : Nat} {entries : List Entry} {bytes : List UInt8}

theorem append_record (laid : LaidOut offset entries bytes) {event : Event} {recordId : UInt64}
    {record : List UInt8} (encoded : event.encode recordId = .ok record) :
    LaidOut offset (entries ++ [⟨event, recordId, offset + bytes.length, record.length⟩])
      (bytes ++ record) := by
  induction laid with
  | nil offset =>
      have single := cons encoded (nil (offset + record.length))
      rwa [List.append_nil] at single
  | @cons offset event recordId first bytes entries own rest ih =>
      rw [Nat.add_assoc, ← List.length_append] at ih
      rw [List.cons_append, List.append_assoc]
      exact cons own ih

theorem within (laid : LaidOut offset entries bytes) {entry : Entry} (listed : entry ∈ entries) :
    offset ≤ entry.offset ∧ entry.offset + entry.size ≤ offset + bytes.length := by
  induction laid with
  | nil offset => cases listed
  | cons own rest ih =>
      rw [List.length_append]
      rcases List.mem_cons.mp listed with rfl | later
      · exact ⟨Nat.le_refl _, by simp only; omega⟩
      · have inner := ih later
        omega

theorem disjoint (laid : LaidOut offset entries bytes) :
    entries.Pairwise fun first second => first.offset + first.size ≤ second.offset := by
  induction laid with
  | nil offset => exact List.Pairwise.nil
  | cons own rest ih =>
      exact List.pairwise_cons.mpr ⟨fun entry later => (rest.within later).1, ih⟩

theorem record_at (laid : LaidOut offset entries bytes) {front : List UInt8}
    (after : front.length = offset) {entry : Entry} (listed : entry ∈ entries) :
    ∃ record, entry.event.encode entry.recordId = .ok record ∧ record.length = entry.size ∧
      ((front ++ bytes).drop entry.offset).take entry.size = record := by
  induction laid generalizing front with
  | nil offset => cases listed
  | @cons offset event recordId record bytes entries own rest ih =>
      rcases List.mem_cons.mp listed with rfl | later
      · refine ⟨record, own, rfl, ?_⟩
        rw [List.drop_left' after, List.take_left]
      · have longer : (front ++ record).length = offset + record.length := by
          rw [List.length_append, after]
        have found := ih longer later
        rwa [List.append_assoc] at found

theorem covers (laid : LaidOut offset entries bytes) {position : Nat} (after : offset ≤ position)
    (before : position < offset + bytes.length) : ∃ entry ∈ entries, entry.Covers position := by
  induction laid with
  | nil offset =>
      rw [List.length_nil] at before
      omega
  | @cons offset event recordId record bytes entries own rest ih =>
      rw [List.length_append] at before
      by_cases inFirst : position < offset + record.length
      · exact ⟨_, List.mem_cons_self, after, inFirst⟩
      · obtain ⟨entry, later, covered⟩ := ih (by omega) (by omega)
        exact ⟨entry, List.mem_cons_of_mem _ later, covered⟩

end LaidOut

end LineageJournal

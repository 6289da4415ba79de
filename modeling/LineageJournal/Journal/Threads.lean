import LineageJournal.Journal.Writer

/-! Threads that share one writer. Each thread has a program of calls; a schedule says whose
call is next. Calls are whole, because the writer serializes them; what may lie between the
calls of one thread is everything the others do. A thread that asks for the segment lock
while another owns it waits. -/

namespace LineageJournal

inductive Call where
  | lock
  | tryLock
  | unlock
  | bytesWritten
  | isClosed
  | writeRecord (event : Event) (recordId : UInt64)
  | sync
  /-- The part of closing that needs the segment lock. -/
  | shut

/-- Closing takes the segment lock first and gives it back at the end. -/
def Call.close : List Call := [lock, shut, unlock]

inductive Reply where
  | locked
  | tried (acquired : Bool)
  | unlocked
  | count (bytes : Nat)
  | closed (value : Bool)
  | wrote (result : Except JournalError Nat)
  | finished (result : Except JournalError Unit)

namespace RecordWriter

variable {σ : Type} [ByteSink σ]

/-- One call by a thread, or `none` if the thread has to wait. -/
def perform? (thread : Nat) (writer : RecordWriter σ) : Call → Option (Reply × RecordWriter σ)
  | .lock => (writer.lock.acquire? thread).map fun lock => (.locked, { writer with lock })
  | .tryLock =>
    match writer.lock.acquire? thread with
    | some lock => some (.tried true, { writer with lock })
    | none => some (.tried false, writer)
  | .unlock => (writer.lock.release? thread).map fun lock => (.unlocked, { writer with lock })
  | .bytesWritten => some (.count writer.bytesWritten, writer)
  | .isClosed => some (.closed writer.closed, writer)
  | .writeRecord event recordId =>
    match writer.writeRecord event recordId with
    | (result, next) => some (.wrote result, next)
  | .sync =>
    match writer.sync with
    | (result, next) => some (.finished result, next)
  | .shut =>
    match writer.close with
    | (result, next) => some (.finished result, next)

end RecordWriter

structure Thread where
  program : List Call
  replies : List Reply := []

structure Threads (σ : Type) where
  writer : RecordWriter σ
  threads : List Thread

namespace Threads

variable {σ : Type} [ByteSink σ]

/-- The next call of a thread; nothing happens if it has none or has to wait. -/
def step (state : Threads σ) (thread : Nat) : Threads σ :=
  match state.threads[thread]? with
  | some ⟨call :: program, replies⟩ =>
    match state.writer.perform? thread call with
    | some (reply, writer) =>
      { writer
        threads := state.threads.set thread ⟨program, replies ++ [reply]⟩ }
    | none => state
  | _ => state

def run (state : Threads σ) (schedule : List Nat) : Threads σ := schedule.foldl step state

def replies (state : Threads σ) (thread : Nat) : List Reply :=
  (state.threads[thread]?.map Thread.replies).getD []

end Threads

end LineageJournal

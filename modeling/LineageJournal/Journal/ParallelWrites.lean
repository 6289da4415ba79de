import LineageJournal.Journal.Writer

/-! Parallel calls that write records, step by step. One mutex guards the writer and the one
buffer in which all calls encode; taking it, clearing the buffer, filling it, each single
write to the sink, the flush, the count and giving the mutex back are steps of their own,
and the steps of different workers may come in any order. -/

namespace LineageJournal

structure WriteCall where
  event : Event
  recordId : UInt64

/-- Where a worker is in its current call. -/
inductive Phase where
  | waiting
  | clearing
  | filling
  /-- `before` bytes were in the sink at first and `written` of the buffer are there now. -/
  | writing (before written : Nat)
  | flushing (before : Nat)
  | counting (before : Nat)
  | releasing (result : Except JournalError Nat)

structure Worker where
  calls : List WriteCall
  phase : Phase := .waiting
  /-- The results of the calls that have returned, the latest first. -/
  results : List (Except JournalError Nat) := []

def Worker.isDone (worker : Worker) : Bool := worker.calls.isEmpty

structure ParallelWrites (σ : Type) where
  writer : RecordWriter σ
  /-- The worker that has the mutex. -/
  holder : Option Nat := none
  buffer : List UInt8 := []
  workers : List Worker

namespace ParallelWrites

variable {σ : Type} [ByteSink σ]

def moveOn (state : ParallelWrites σ) (index : Nat) (worker : Worker) (phase : Phase) :
    ParallelWrites σ :=
  { state with workers := state.workers.set index { worker with phase } }

def offer (state : ParallelWrites σ) (index : Nat) (worker : Worker) (before written : Nat) :
    ParallelWrites σ :=
  match ByteSink.write (state.buffer.drop written) state.writer.sink with
  | (result, sink) =>
    let state := { state with writer := { state.writer with sink } }
    match result with
    | .ok 0 => state.moveOn index worker (.releasing (.error (.io nothingAccepted)))
    | .ok (accepted + 1) =>
      state.moveOn index worker (.writing before (written + (accepted + 1)))
    | .error failure =>
      if failure.kind = .interrupted then state
      else state.moveOn index worker (.releasing (.error (.io failure)))

def flush (state : ParallelWrites σ) (index : Nat) (worker : Worker) (before : Nat) :
    ParallelWrites σ :=
  match ByteSink.flush state.writer.sink with
  | (result, sink) =>
    let state := { state with writer := { state.writer with sink } }
    match result with
    | .ok () => state.moveOn index worker (.counting before)
    | .error failure => state.moveOn index worker (.releasing (.error (.io failure)))

def advance (state : ParallelWrites σ) (index : Nat) (worker : Worker) (call : WriteCall)
    (later : List WriteCall) : ParallelWrites σ :=
  match worker.phase with
  | .waiting =>
    match state.holder with
    | none => { state.moveOn index worker .clearing with holder := some index }
    | some _ => state
  | .clearing =>
    if state.writer.closed then state.moveOn index worker (.releasing (.error .closed))
    else { state.moveOn index worker .filling with buffer := [] }
  | .filling =>
    let record := Wire.emitAll (call.event.fields call.recordId)
    let state := { state with buffer := state.buffer ++ record.bytes }
    match record.fault with
    | none => state.moveOn index worker (.writing (ByteSink.bytesWritten state.writer.sink) 0)
    | some fault => state.moveOn index worker (.releasing (.error (.ofEncoding fault)))
  | .writing before written =>
    if written < state.buffer.length then state.offer index worker before written
    else state.moveOn index worker (.flushing before)
  | .flushing before => state.flush index worker before
  | .counting before =>
    let size := ByteSink.bytesWritten state.writer.sink - before
    let writer := { state.writer with recordsWritten := state.writer.recordsWritten + 1 }
    { state.moveOn index worker (.releasing (.ok size)) with writer }
  | .releasing result =>
    { state with
      holder := none
      workers := state.workers.set index
        { calls := later, phase := .waiting, results := result :: worker.results } }

/-- The next step of a worker; nothing happens if it is done or has to wait. -/
def step (state : ParallelWrites σ) (index : Nat) : ParallelWrites σ :=
  match state.workers[index]? with
  | some worker =>
    match worker.calls with
    | call :: later => state.advance index worker call later
    | [] => state
  | none => state

def run (state : ParallelWrites σ) (schedule : List Nat) : ParallelWrites σ :=
  schedule.foldl step state

def isDone (state : ParallelWrites σ) : Bool := state.workers.all Worker.isDone

/-- Every worker in turn, for at most `rounds` rounds. -/
def runInTurn (state : ParallelWrites σ) : Nat → ParallelWrites σ
  | 0 => state
  | rounds + 1 =>
    if state.isDone then state
    else (state.run (List.range state.workers.length)).runInTurn rounds

/-- Enough rounds for a worker's calls, if every write accepts a byte: the holder of the
mutex takes a step in every round. -/
def roundsFor (worker : Worker) : Nat :=
  worker.calls.foldl
    (fun rounds call =>
      rounds + (Wire.emitAll (call.event.fields call.recordId)).bytes.length + 8) 0

/-- Runs all calls to their end, with the workers taking turns. -/
def finish (state : ParallelWrites σ) : ParallelWrites σ :=
  state.runInTurn
    (state.workers.foldl (fun rounds worker => rounds + roundsFor worker)
      (ByteSink.patience state.writer.sink + 1))

end ParallelWrites

end LineageJournal

import LineageJournal.Proofs.Journal.Offsets
import LineageJournal.Proofs.Stream.Traced

/-! The life of a writer. Each call of a sink may fail, as often as it likes, and a writer goes
on afterwards: only a close that succeeds ends its life. The sink of an ended writer receives
nothing more. -/

namespace LineageJournal

open Wire

namespace RecordWriter

variable {σ : Type}

def untraced (writer : RecordWriter (Traced σ)) : RecordWriter σ :=
  { writer with sink := writer.sink.sink }

def watched (writer : RecordWriter σ) : RecordWriter (Traced σ) :=
  { writer with sink := { sink := writer.sink } }

def bare {α : Type} (outcome : α × RecordWriter (Traced σ)) : α × RecordWriter σ :=
  (outcome.1, outcome.2.untraced)

section Bare

variable {α : Type} {operation : Traced σ → Except Failure α × Traced σ}
  {plain : σ → Except Failure α × σ} (writer : RecordWriter (Traced σ))

theorem bare_onSink (observed : ∀ traced, Traced.forget (operation traced) = plain traced.sink) :
    bare (writer.onSink operation) = writer.untraced.onSink plain := by
  have same : plain writer.untraced.sink = Traced.forget (operation writer.sink) :=
    (observed writer.sink).symm
  rw [onSink, onSink, same]
  rfl

variable [ByteSink σ]

theorem forget_writePieces (pieces : List (List UInt8)) (traced : Traced σ) :
    Traced.forget (writePieces pieces traced) = writePieces pieces traced.sink := by
  induction pieces generalizing traced with
  | nil => rfl
  | cons piece rest ih =>
      rw [writePieces, writePieces, ← Traced.forget_writeAll]
      cases wrote : writeAll piece traced with
      | mk result next =>
          cases result with
          | ok _ => exact ih next
          | error failure => rfl

theorem bare_writeHeader : bare writer.writeHeader = writer.untraced.writeHeader := by
  rw [writeHeader, writeHeader, ← bare_onSink writer (forget_writePieces _)]
  exact apply_ite bare _ _ _

theorem bare_writeRecord (event : Event) (recordId : UInt64) :
    bare (writer.writeRecord event recordId) = writer.untraced.writeRecord event recordId := by
  rw [writeRecord, writeRecord]
  by_cases closed : writer.closed = true
  · rw [if_pos closed, if_pos (show writer.untraced.closed = true from closed)]
    rfl
  · rw [if_neg closed, if_neg (show ¬ writer.untraced.closed = true from closed)]
    cases event.encode recordId with
    | error fault => rfl
    | ok record =>
        simp only [← bare_onSink writer (forget_writePieces [record])]
        cases writer.onSink (writePieces [record]) with
        | mk result next =>
            cases result with
            | ok _ => rfl
            | error error => rfl

theorem bare_sync : bare writer.sync = writer.untraced.sync := by
  rw [sync, sync, ← bare_onSink writer (Traced.forget_watch ByteSink.sync .sync)]
  exact apply_ite bare _ _ _

theorem bare_closeSink : bare writer.closeSink = writer.untraced.closeSink := by
  rw [closeSink, closeSink, ← bare_onSink writer (Traced.forget_watch ByteSink.close .close)]
  cases writer.onSink (ByteSink.close (σ := Traced σ)) with
  | mk result next =>
      cases result with
      | ok _ => rfl
      | error error => rfl

theorem bare_close : bare writer.close = writer.untraced.close := by
  unfold close
  by_cases closed : writer.closed = true
  · rw [if_pos closed, if_pos (show writer.untraced.closed = true from closed)]
    rfl
  · rw [if_neg closed, if_neg (show ¬ writer.untraced.closed = true from closed)]
    by_cases syncs : writer.syncOnClose = true
    · rw [if_pos syncs, if_pos (show writer.untraced.syncOnClose = true from syncs),
        ← bare_onSink writer (Traced.forget_watch ByteSink.sync .sync)]
      cases writer.onSink (Traced.watch ByteSink.sync .sync) with
      | mk result next =>
          cases result with
          | ok _ => exact bare_closeSink next
          | error error => rfl
    · rw [if_neg syncs, if_neg (show ¬ writer.untraced.syncOnClose = true from syncs)]
      exact bare_closeSink writer

theorem bare_perform (operation : Operation) :
    bare (perform operation writer) = perform operation writer.untraced := by
  cases operation with
  | writeHeader =>
      rw [perform, perform, ← bare_writeHeader]
      rfl
  | writeRecord event recordId =>
      rw [perform, perform, ← bare_writeRecord]
      rfl
  | sync =>
      rw [perform, perform, ← bare_sync]
      rfl
  | close =>
      rw [perform, perform, ← bare_close]
      rfl

theorem bare_performAll (operations : List Operation) :
    bare (performAll operations writer) = performAll operations writer.untraced := by
  induction operations generalizing writer with
  | nil => rfl
  | cons operation later ih =>
      unfold performAll
      rw [← bare_perform]
      simp only [bare]
      rw [← ih]
      rfl

end Bare

def refusal : Operation → Reply
  | .writeHeader => .finished (.error .closed)
  | .writeRecord _ _ => .wrote (.error .closed)
  | .sync => .finished (.error .closed)
  | .close => .finished (.ok ())

def isLate : Reply → Bool
  | .finished (.error .closed) => true
  | .wrote (.error .closed) => true
  | _ => false

section Calls

inductive Performed (before : RecordWriter σ) : Operation → Reply × RecordWriter σ → Prop where
  | late (operation : Operation) (isClosed : before.closed = true) :
      Performed before operation (refusal operation, before)
  | shut {sink : σ} (isOpen : before.closed = false) :
      Performed before .close (.finished (.ok ()), { before with sink, closed := true })
  | unshut {failure : Failure} {sink : σ} (isOpen : before.closed = false) :
      Performed before .close (.finished (.error (.io failure)), { before with sink })
  | other {operation : Operation} {reply : Reply} {sink : σ} {recordsWritten : Nat}
      (isOpen : before.closed = false) (other : operation ≠ .close)
      (inTime : isLate reply = false)
      (counted : recordsWritten = before.recordsWritten + [reply].countP isWritten) :
      Performed before operation (reply, { before with sink, recordsWritten })

namespace Performed

variable {before : RecordWriter σ} {operation : Operation} {outcome : Reply × RecordWriter σ}

theorem counted (performed : Performed before operation outcome) :
    outcome.2.recordsWritten = before.recordsWritten + [outcome.1].countP isWritten := by
  cases performed with
  | late _ _ => cases operation <;> rfl
  | shut _ => rfl
  | unshut _ => rfl
  | other _ _ _ counted => exact counted

theorem inTime (performed : Performed before operation outcome) (isOpen : before.closed = false) :
    isLate outcome.1 = false := by
  cases performed with
  | late _ isClosed => simp [isOpen] at isClosed
  | shut _ => rfl
  | unshut _ => rfl
  | other _ _ inTime _ => exact inTime

theorem closed_iff (performed : Performed before operation outcome)
    (isOpen : before.closed = false) :
    outcome.2.closed = true ↔ operation = .close ∧ outcome.1 = .finished (.ok ()) := by
  cases performed with
  | late _ isClosed => simp [isOpen] at isClosed
  | shut _ => simp
  | unshut _ => simp [isOpen]
  | other _ other _ _ => simp [isOpen, other]

theorem syncOnClose (performed : Performed before operation outcome) :
    outcome.2.syncOnClose = before.syncOnClose := by
  cases performed <;> rfl

end Performed

theorem onSink_eq {α : Type} (writer : RecordWriter σ)
    (operation : σ → Except Failure α × σ) :
    ∃ (result : Except Failure α) (sink : σ),
      writer.onSink operation = (result.mapError .io, { writer with sink }) :=
  ⟨(operation writer.sink).1, (operation writer.sink).2, rfl⟩

variable [ByteSink σ]

variable (writer : RecordWriter σ)

theorem isLate_mapError (result : Except Failure Unit) :
    isLate (.finished (result.mapError .io)) = false := by
  cases result with
  | ok _ => rfl
  | error failure => rfl

theorem isLate_ofEncoding (fault : EncodeFault) :
    isLate (.wrote (.error (.ofEncoding fault))) = false := by
  cases fault with
  | stringTooLong field length limit => rfl
  | tooManyEntries count => rfl

theorem perform_of_closed (isClosed : writer.closed = true) (operation : Operation) :
    perform operation writer = (refusal operation, writer) := by
  cases operation with
  | writeHeader => simp [perform, writeHeader, isClosed, refusal]
  | writeRecord event recordId => simp [perform, writeRecord, isClosed, refusal]
  | sync => simp [perform, sync, isClosed, refusal]
  | close => simp [perform, close, isClosed, refusal]

theorem performed_writeRecord (isOpen : writer.closed = false) (event : Event)
    (recordId : UInt64) :
    Performed writer (.writeRecord event recordId)
      (perform (.writeRecord event recordId) writer) := by
  have other : Operation.writeRecord event recordId ≠ .close := by simp
  rw [perform, writeRecord, if_neg (Bool.eq_false_iff.mp isOpen)]
  cases event.encode recordId with
  | error fault => exact .other isOpen other (isLate_ofEncoding fault) rfl
  | ok record =>
      obtain ⟨result, sink, wrote⟩ := onSink_eq writer (writePieces [record])
      simp only [wrote]
      cases result with
      | ok _ => exact .other isOpen other rfl rfl
      | error failure => exact .other isOpen other rfl rfl

theorem performed_close (isOpen : writer.closed = false) :
    Performed writer .close (perform .close writer) := by
  -- With a sync before it or without one, it is the closing of the sink that decides.
  have closes : ∀ sink, Performed writer .close
      (.finished { writer with sink }.closeSink.1, { writer with sink }.closeSink.2) := by
    intro sink
    obtain ⟨result, next, closed⟩ := onSink_eq { writer with sink } ByteSink.close
    rw [closeSink, closed]
    cases result with
    | ok _ => exact .shut isOpen
    | error failure => exact .unshut isOpen
  rw [perform, close, if_neg (Bool.eq_false_iff.mp isOpen)]
  split
  · obtain ⟨result, sink, synced⟩ := onSink_eq writer ByteSink.sync
    rw [synced]
    cases result with
    | ok _ => exact closes sink
    | error failure => exact .unshut isOpen
  · exact closes writer.sink

theorem performed_perform (operation : Operation) :
    Performed writer operation (perform operation writer) := by
  by_cases closed : writer.closed = true
  · rw [perform_of_closed writer closed]
    exact .late operation closed
  · have isOpen := Bool.eq_false_iff.mpr closed
    cases operation with
    | writeHeader =>
        obtain ⟨result, sink, wrote⟩ := onSink_eq writer (writePieces SegmentHeader.current.pieces)
        rw [perform, writeHeader, if_neg closed, wrote]
        exact .other isOpen (by simp) (isLate_mapError result) rfl
    | writeRecord event recordId => exact performed_writeRecord writer isOpen event recordId
    | sync =>
        obtain ⟨result, sink, synced⟩ := onSink_eq writer ByteSink.sync
        rw [perform, sync, if_neg closed, synced]
        exact .other isOpen (by simp) (isLate_mapError result) rfl
    | close => exact performed_close writer isOpen

theorem performAll_of_closed (isClosed : writer.closed = true) (operations : List Operation) :
    performAll operations writer = (operations.map refusal, writer) := by
  induction operations with
  | nil => rfl
  | cons operation later ih =>
      rw [performAll, perform_of_closed writer isClosed]
      simp [ih]

theorem recordsWritten_performAll (operations : List Operation) :
    (performAll operations writer).2.recordsWritten =
      writer.recordsWritten + (performAll operations writer).1.countP isWritten := by
  induction operations generalizing writer with
  | nil => rfl
  | cons operation later ih =>
      have first := (performed_perform writer operation).counted
      have others := ih (perform operation writer).2
      rw [first, Nat.add_assoc, ← List.countP_append] at others
      exact others

theorem syncOnClose_performAll (operations : List Operation) :
    (performAll operations writer).2.syncOnClose = writer.syncOnClose := by
  induction operations generalizing writer with
  | nil => rfl
  | cons operation later ih =>
      exact (ih (perform operation writer).2).trans
        (performed_perform writer operation).syncOnClose

end Calls

/-- What an open writer asks its sink for in a close, with the sink's answers, and its own. -/
inductive Shutting : Bool → List SinkCall → Except JournalError Unit → Prop where
  | unsynced (failure : Failure) :
      Shutting true [.sync (.error failure)] (.error (.io failure))
  | synced (result : Except Failure Unit) :
      Shutting true [.sync (.ok ()), .close result] (result.mapError .io)
  | plain (result : Except Failure Unit) : Shutting false [.close result] (result.mapError .io)

variable [ByteSink σ]

/-- The sink lets itself be closed, after a sync if one is wanted. -/
def Closable (syncs : Bool) (sink : σ) : Prop :=
  match syncs with
  | true => (ByteSink.sync sink).1 = .ok () ∧ (ByteSink.close (ByteSink.sync sink).2).1 = .ok ()
  | false => (ByteSink.close sink).1 = .ok ()

structure Closing (before : RecordWriter (Traced σ)) (calls : List SinkCall)
    (result : Except JournalError Unit) (after : RecordWriter (Traced σ)) : Prop where
  shutting : Shutting before.syncOnClose calls result
  asked : after.sink.calls = before.sink.calls ++ calls
  rest : after = { before with sink := after.sink, closed := result.isOk }
  closable : result = .ok () ↔ Closable before.syncOnClose before.sink.sink

theorem closeSink_traced (writer : RecordWriter (Traced σ)) (isOpen : writer.closed = false) :
    ∃ (result : Except Failure Unit) (sink : Traced σ),
      result = (ByteSink.close writer.sink.sink).1 ∧
      sink.calls = writer.sink.calls ++ [.close result] ∧
      writer.closeSink = (result.mapError .io,
        { writer with sink, closed := (result.mapError JournalError.io).isOk }) := by
  refine ⟨_, (ByteSink.close writer.sink).2, rfl, rfl, ?_⟩
  have asked : writer.onSink ByteSink.close =
      ((ByteSink.close writer.sink.sink).1.mapError .io,
        { writer with sink := (ByteSink.close writer.sink).2 }) := rfl
  rw [closeSink, asked]
  cases (ByteSink.close writer.sink.sink).1 with
  | ok _ => rfl
  | error failure => simp [Except.mapError, Except.isOk, Except.toBool, isOpen]

theorem mapError_eq_ok (result : Except Failure Unit) :
    result.mapError JournalError.io = .ok () ↔ result = .ok () := by
  cases result <;> simp [Except.mapError]

theorem closing_close {writer : RecordWriter (Traced σ)} (isOpen : writer.closed = false) :
    ∃ calls, Closing writer calls writer.close.1 writer.close.2 := by
  rw [close, if_neg (Bool.eq_false_iff.mp isOpen)]
  cases syncs : writer.syncOnClose with
  | false =>
      obtain ⟨result, sink, answered, calls, closed⟩ := closeSink_traced writer isOpen
      rw [if_neg Bool.false_ne_true, closed]
      refine ⟨[.close result], ?_, calls, rfl, ?_⟩
      · rw [syncs]
        exact .plain result
      · rw [syncs, Closable, ← answered]
        exact mapError_eq_ok result
  | true =>
      rw [if_pos rfl]
      have asked : writer.onSink ByteSink.sync =
          ((ByteSink.sync writer.sink.sink).1.mapError .io,
            { writer with sink := (ByteSink.sync writer.sink).2 }) := rfl
      have noted : (ByteSink.sync writer.sink).2.calls =
          writer.sink.calls ++ [.sync (ByteSink.sync writer.sink.sink).1] := rfl
      rw [asked]
      cases synced : (ByteSink.sync writer.sink.sink).1 with
      | ok _ =>
          obtain ⟨result, sink, answered, calls, closed⟩ :=
            closeSink_traced { writer with sink := (ByteSink.sync writer.sink).2 } isOpen
          show ∃ calls, Closing writer calls
            (closeSink { writer with sink := (ByteSink.sync writer.sink).2 }).1
            (closeSink { writer with sink := (ByteSink.sync writer.sink).2 }).2
          rw [closed]
          refine ⟨[.sync (.ok ()), .close result], ?_, ?_, rfl, ?_⟩
          · rw [syncs]
            exact .synced result
          · rw [calls, noted, synced]
            simp
          · rw [syncs, Closable, mapError_eq_ok, answered, synced]
            simp
            rfl
      | error failure =>
          refine ⟨[.sync (.error failure)], ?_, ?_, ?_, ?_⟩
          · rw [syncs]
            exact .unsynced failure
          · exact noted.trans (by rw [synced])
          · simp [Except.mapError, Except.isOk, Except.toBool, isOpen]
          · rw [syncs, Closable, synced]
            simp [Except.mapError]

/-- Whatever a writer of any sink is asked for, and whichever calls of the sink fail: it counts
the records whose calls succeed. While it is open no call is refused; a close asks the sink to
sync, if it should, and to close, succeeds only when the sink does, and is the one call that can
end the writer's life. One that fails changes nothing but the sink. Once closed the writer stays
as it is and the sink receives nothing more. Watching the sink changes nothing. -/
theorem lifecycle (sink : σ) (name : String) (syncOnClose : Bool) (earlier : List Operation)
    (operation : Operation) :
    let fresh : RecordWriter (Traced σ) := { name, syncOnClose, sink := { sink } }
    let before := (performAll earlier fresh).2
    let reply := (perform operation before).1
    let after := (perform operation before).2
    performAll earlier { name, syncOnClose, sink } =
        ((performAll earlier fresh).1, before.untraced) ∧
      before.syncOnClose = syncOnClose ∧
      before.recordsWritten = (performAll earlier fresh).1.countP isWritten ∧
      (before.closed = false → isLate reply = false ∧
        (after.closed = true ↔ operation = .close ∧ reply = .finished (.ok ())) ∧
        (operation = .close → ∃ calls result,
          reply = .finished result ∧ Closing before calls result after)) ∧
      (before.closed = true → ∀ later : List Operation,
        performAll later before = (later.map refusal, before)) := by
  intro fresh before reply after
  have performed : Performed before operation (reply, after) := performed_perform before operation
  have counted : before.recordsWritten = 0 + (performAll earlier fresh).1.countP isWritten :=
    recordsWritten_performAll fresh earlier
  refine ⟨(bare_performAll fresh earlier).symm, syncOnClose_performAll fresh earlier, ?_,
    ?_, performAll_of_closed before⟩
  · rw [counted, Nat.zero_add]
  · intro isOpen
    refine ⟨performed.inTime isOpen, performed.closed_iff isOpen, ?_⟩
    intro closes
    subst closes
    obtain ⟨calls, closing⟩ := closing_close isOpen
    exact ⟨calls, _, rfl, closing⟩

/-- The sync of the first close fails and the closing of the second one; the third one ends the
life of the writer. -/
theorem lifecycle_thirdClose :
    let sink : LimitedSink := { failingSyncs := 1, failingCloses := 1 }
    let fresh : RecordWriter (Traced LimitedSink) :=
      { name := "segment", syncOnClose := true, sink := { sink } }
    let tried := (performAll [.close, .close] fresh).2
    let last := (perform .close tried).2
    tried.closed = false ∧ last.closed = true ∧
      last.sink.calls =
        [.sync (.error (LimitedSink.injected "sync")), .sync (.ok ()),
          .close (.error (LimitedSink.injected "close")), .sync (.ok ()), .close (.ok ())] ∧
      ∀ later : List Operation, performAll later last = (later.map refusal, last) := by
  intro sink fresh tried last
  have stays : last.closed = true →
      ∀ later : List Operation, performAll later last = (later.map refusal, last) :=
    (lifecycle sink "segment" true [.close, .close, .close] .sync).2.2.2.2
  exact ⟨rfl, rfl, rfl, stays rfl⟩

end RecordWriter

end LineageJournal

import LineageJournal.Journal.Device
import LineageJournal.Proofs.Journal.Filing

/-! Closing file sinks over files that may fail. A close that succeeds has put everything that was
accepted into the file, unless a close has failed before it: such a close gives up what the file
does not take, and every later close succeeds all the same. -/

namespace LineageJournal

open Wire

theorem LimitedFile.isFile : IsFile (fun _ => True) LimitedFile.content where
  of_write_ok := by
    intro bytes file next taken _ written
    have written : file.write bytes = (.ok taken, next) := written
    unfold LimitedFile.write at written
    split at written
    · cases written
    · split at written
      · cases written
      · cases written
        exact ⟨trivial, Nat.min_le_left _ _, ByteLog.toList_append _ _⟩
  of_write_error := by
    intro bytes file next failure _ written
    exact ⟨trivial, congrArg ByteLog.toList (LimitedFile.write_error written).2⟩
  of_sync := by
    intro file _
    refine ⟨trivial, congrArg LimitedFile.content (?_ : file.sync.2 = file)⟩
    unfold LimitedFile.sync
    split <;> rfl

variable {φ : Type} {valid : φ → Prop} {content : φ → List UInt8} {capacity : Nat}

namespace FileSink

theorem keep_keep (first second : List UInt8) (sink : FileSink φ) :
    ((sink.keep first).2.keep second).2 = (sink.keep (first ++ second)).2 := by
  simp only [keep, List.append_assoc, List.length_append, Nat.add_assoc]

variable [BackingFile φ]

theorem closed_writeAll (bytes : List UInt8) (sink : FileSink φ) :
    (writeAll bytes sink).2.closed = sink.closed := by
  fun_induction writeAll bytes sink with
  | case1 sink => rfl
  | case2 sink first rest next written =>
      exact (congrArg (fun outcome => FileSink.closed outcome.2) written).symm.trans
        (closed_write sink _)
  | case3 sink first rest accepted next written ih =>
      exact (ih.trans (congrArg (fun outcome => FileSink.closed outcome.2) written).symm).trans
        (closed_write sink _)
  | case4 sink first rest failure next written interrupted ih =>
      exact (ih.trans (congrArg (fun outcome => FileSink.closed outcome.2) written).symm).trans
        (closed_write sink _)
  | case5 sink first rest failure next written other =>
      exact (congrArg (fun outcome => FileSink.closed outcome.2) written).symm.trans
        (closed_write sink _)

theorem closed_writePieces (pieces : List (List UInt8)) (sink : FileSink φ) :
    (RecordWriter.writePieces pieces sink).2.closed = sink.closed := by
  induction pieces generalizing sink with
  | nil => exact closed_flush sink
  | cons piece rest ih =>
      have first := closed_writeAll piece sink
      rw [RecordWriter.writePieces]
      cases wrote : writeAll piece sink with
      | mk result next =>
          rw [wrote] at first
          cases result with
          | ok _ => exact (ih next).trans first
          | error failure => exact first

theorem flushed_of_sync {sink : FileSink φ} (isOpen : sink.closed = false)
    (done : sink.sync.1 = .ok ()) : sink.sync.2.pending = [] := by
  rw [sync, isOpen, if_neg Bool.false_ne_true] at done ⊢
  split
  · rename_i emptied
    have noneLeft := flushed_of_empty emptied
    exact noneLeft
  · rename_i emptied
    rw [emptied] at done
    cases done

end FileSink

namespace RecordWriter

variable {writer : RecordWriter (Traced (FileSink φ))}

/-- A closed writer has closed its sink. The sink of a writer that syncs before closing is closed
only with it, in a close that does not fail. -/
structure OverFile (valid : φ → Prop) (content : φ → List UInt8) (capacity : Nat)
    (writer : RecordWriter (Traced (FileSink φ))) : Prop where
  filed : FileSink.Filed valid content capacity writer.sink
  shut : writer.closed = true → writer.sink.sink.closed = true
  synced : writer.syncOnClose = true →
    writer.sink.sink.closed = writer.closed ∧ ¬ writer.sink.CloseFailed

namespace OverFile

theorem fresh {file : φ} (start : valid file) (empty : content file = []) (capacity : Nat)
    (name : String) (syncOnClose : Bool) :
    OverFile valid content capacity
      { name, syncOnClose, sink := { sink := { file, capacity } } } := by
  have filed : FileSink.Filed valid content capacity { sink := { file, capacity } } :=
    .fresh start empty capacity
  exact ⟨filed, fun closed => absurd closed Bool.false_ne_true, fun _ => ⟨rfl, filed.inTime rfl⟩⟩

theorem inFile (overFile : OverFile valid content capacity writer) (closed : writer.closed = true)
    (inTime : ¬ writer.sink.CloseFailed) :
    content writer.sink.sink.file = writer.sink.taken := by
  have whole := overFile.filed.whole inTime
  rw [overFile.filed.flushed (overFile.shut closed), List.append_nil] at whole
  exact whole

theorem keep (overFile : OverFile valid content capacity writer) (isOpen : writer.closed = false)
    {sink : Traced (FileSink φ)} (filed : FileSink.Filed valid content capacity sink)
    (same : sink.sink.closed = writer.sink.sink.closed) (recordsWritten : Nat) :
    OverFile valid content capacity { writer with sink, recordsWritten } := by
  refine ⟨filed, fun closed => ?_, fun syncs => ?_⟩
  · cases isOpen.symm.trans closed
  · have notYet := same.trans (overFile.synced syncs).1
    exact ⟨notYet, filed.inTime (notYet.trans isOpen)⟩

variable [BackingFile φ]

theorem writePieces (isFile : IsFile valid content)
    (overFile : OverFile valid content capacity writer) (pieces : List (List UInt8)) :
    FileSink.Filed valid content capacity (RecordWriter.writePieces pieces writer.sink).2 ∧
      (RecordWriter.writePieces pieces writer.sink).2.sink.closed = writer.sink.sink.closed := by
  have bare := congrArg Prod.snd (forget_writePieces pieces writer.sink)
  exact ⟨((FileSink.isAppending_traced isFile).took_writePieces pieces overFile.filed).1,
    (congrArg FileSink.closed bare).trans (FileSink.closed_writePieces pieces writer.sink.sink)⟩

/-- Without a sync before it, a close may fail and still close the sink. -/
theorem closeSink (isFile : IsFile valid content)
    (overFile : OverFile valid content capacity writer) (plain : writer.syncOnClose = false) :
    OverFile valid content capacity writer.closeSink.2 := by
  have filed := overFile.filed.close isFile
  have shut : (ByteSink.close writer.sink).2.sink.closed = true :=
    FileSink.closed_close writer.sink.sink
  have never : ¬ writer.syncOnClose = true := Bool.eq_false_iff.mp plain
  rw [RecordWriter.closeSink]
  cases closed : ByteSink.close writer.sink with
  | mk result sink =>
      rw [closed] at filed shut
      cases result with
      | ok _ =>
          rw [onSink_of_ok closed]
          exact ⟨filed, fun _ => shut, fun syncs => absurd syncs never⟩
      | error failure =>
          rw [onSink_of_error closed]
          exact ⟨filed, fun _ => shut, fun syncs => absurd syncs never⟩

theorem closeSink_of_flushed (isFile : IsFile valid content)
    (overFile : OverFile valid content capacity writer)
    (sinkOpen : writer.sink.sink.closed = false) (flushed : writer.sink.sink.pending = []) :
    OverFile valid content capacity writer.closeSink.2 := by
  have done := FileSink.close_of_flushed sinkOpen flushed
  have closed : ByteSink.close writer.sink =
      (.ok (), { sink := { writer.sink.sink with closed := true }
                 calls := writer.sink.calls ++ [.close (.ok ())] }) := by
    show Traced.watch ByteSink.close .close writer.sink = _
    rw [Traced.watch, done]
  have filed := overFile.filed.close isFile
  have other : ∀ failure, SinkCall.close (.ok ()) ≠ .close (.error failure) := by simp
  rw [closed] at filed
  rw [RecordWriter.closeSink, onSink_of_ok closed]
  exact ⟨filed, fun _ => rfl, fun syncs =>
    ⟨rfl, mt (Traced.closeFailed_call other).mp (overFile.synced syncs).2⟩⟩

theorem close (isFile : IsFile valid content)
    (overFile : OverFile valid content capacity writer) (isOpen : writer.closed = false) :
    OverFile valid content capacity writer.close.2 := by
  rw [RecordWriter.close, if_neg (Bool.eq_false_iff.mp isOpen)]
  cases syncs : writer.syncOnClose with
  | false =>
      rw [if_neg Bool.false_ne_true]
      exact overFile.closeSink isFile syncs
  | true =>
      have sinkOpen := (overFile.synced syncs).1.trans isOpen
      have same : (ByteSink.sync writer.sink).2.sink.closed = writer.sink.sink.closed :=
        FileSink.closed_sync writer.sink.sink
      have kept := overFile.keep isOpen (overFile.filed.sync isFile) same writer.recordsWritten
      have flushed := FileSink.flushed_of_sync sinkOpen
      rw [if_pos rfl]
      cases synced : ByteSink.sync writer.sink with
      | mk result sink =>
          have answered : writer.sink.sink.sync.1 = result := congrArg Prod.fst synced
          rw [synced] at kept same
          cases result with
          | ok _ =>
              have noneLeft := flushed answered
              have last : sink.sink = writer.sink.sink.sync.2 :=
                (congrArg (fun outcome => Traced.sink outcome.2) synced).symm
              rw [← last] at noneLeft
              rw [onSink_of_ok synced]
              exact kept.closeSink_of_flushed isFile (same.trans sinkOpen) noneLeft
          | error failure =>
              rw [onSink_of_error synced]
              exact kept

theorem perform (isFile : IsFile valid content)
    (overFile : OverFile valid content capacity writer) (operation : Operation) :
    OverFile valid content capacity (RecordWriter.perform operation writer).2 := by
  cases closed : writer.closed with
  | true =>
      rw [perform_of_closed writer closed]
      exact overFile
  | false =>
      have notClosed : ¬ writer.closed = true := Bool.eq_false_iff.mp closed
      cases operation with
      | writeHeader =>
          obtain ⟨filed, same⟩ := overFile.writePieces isFile SegmentHeader.current.pieces
          rw [RecordWriter.perform, writeHeader, if_neg notClosed]
          exact overFile.keep closed filed same writer.recordsWritten
      | writeRecord event recordId =>
          rw [RecordWriter.perform, writeRecord, if_neg notClosed]
          cases event.encode recordId with
          | error fault => exact overFile
          | ok record =>
              obtain ⟨filed, same⟩ := overFile.writePieces isFile [record]
              have kept := overFile.keep closed filed same
              simp only [onSink]
              cases (RecordWriter.writePieces [record] writer.sink).1 with
              | ok _ => exact kept (writer.recordsWritten + 1)
              | error failure => exact kept writer.recordsWritten
      | sync =>
          rw [RecordWriter.perform, sync, if_neg notClosed]
          exact overFile.keep closed (overFile.filed.sync isFile)
            (FileSink.closed_sync writer.sink.sink) writer.recordsWritten
      | close => exact overFile.close isFile closed

theorem performAll (isFile : IsFile valid content)
    (overFile : OverFile valid content capacity writer) (operations : List Operation) :
    OverFile valid content capacity (RecordWriter.performAll operations writer).2 := by
  induction operations generalizing writer with
  | nil => exact overFile
  | cons operation later ih => exact ih (overFile.perform isFile operation)

end OverFile

/-- After a close of the sink that has failed, the next close of the writer succeeds. -/
theorem close_of_closeFailed [BackingFile φ] (overFile : OverFile valid content capacity writer)
    (failed : writer.sink.CloseFailed) :
    writer.close.1 = .ok () ∧ writer.close.2.closed = true ∧
      writer.close.2.sink.sink = writer.sink.sink := by
  cases closed : writer.closed with
  | true =>
      rw [close, if_pos closed]
      exact ⟨rfl, closed, rfl⟩
  | false =>
      have plain : ¬ writer.syncOnClose = true := fun syncs => (overFile.synced syncs).2 failed
      have sinkClosed : writer.sink.sink.closed = true := by
        by_contra sinkOpen
        exact overFile.filed.inTime (Bool.eq_false_iff.mpr sinkOpen) failed
      have again : ByteSink.close writer.sink =
          (.ok (), { writer.sink with calls := writer.sink.calls ++ [.close (.ok ())] }) := by
        show Traced.watch ByteSink.close .close writer.sink = _
        rw [Traced.watch, FileSink.close_of_closed sinkClosed]
      rw [close, if_neg (Bool.eq_false_iff.mp closed), if_neg plain, closeSink, onSink_of_ok again]
      exact ⟨rfl, rfl, rfl⟩

/-- What the calls of a writer come to when its sink is watched. -/
structure ClosesLast [BackingFile φ] (content : φ → List UInt8)
    (plain : RecordWriter (FileSink φ)) (operations : List Operation)
    (outcome : List Reply × RecordWriter (Traced (FileSink φ))) : Prop where
  same : RecordWriter.performAll operations plain = bare outcome
  counted : outcome.2.bytesWritten = outcome.2.sink.taken.length
  whole : outcome.2.closed = true → ¬ outcome.2.sink.CloseFailed →
    content outcome.2.sink.sink.file = outcome.2.sink.taken
  synced : plain.syncOnClose = true → ¬ outcome.2.sink.CloseFailed
  closesAgain : outcome.2.sink.CloseFailed →
    outcome.2.close.1 = .ok () ∧ outcome.2.close.2.closed = true ∧
      outcome.2.close.2.sink.sink = outcome.2.sink.sink

end RecordWriter

theorem SinkStep.runAll_of_closed [BackingFile φ] {sink : FileSink φ}
    (isClosed : sink.closed = true) (steps : List SinkStep) : runAll steps sink = sink := by
  induction steps with
  | nil => rfl
  | cons step later ih =>
      have first : (step.perform sink).2 = sink := (perform_of_closed isClosed step).1
      exact (congrArg (runAll later) first).trans ih

namespace FileSink

variable [BackingFile φ]

theorem filed_runAll (isFile : IsFile valid content) {file : φ} (start : valid file)
    (empty : content file = []) (capacity : Nat) (steps : List SinkStep) :
    Filed valid content capacity (SinkStep.runAll steps { sink := { file, capacity } }) := by
  induction steps using List.reverseRecOn with
  | nil => exact .fresh start empty capacity
  | append_singleton steps step ih =>
      rw [SinkStep.runAll_append_singleton]
      exact ((isAppending_traced isFile).perform_step ih step).1

theorem writeAll_of_fits (bytes : List UInt8) {sink : FileSink φ} (isOpen : sink.closed = false)
    (fits : sink.pending.length + bytes.length < sink.capacity) :
    writeAll bytes sink = (.ok (), (sink.keep bytes).2) := by
  have kept : ByteSink.write bytes sink = sink.keep bytes := by
    show sink.write bytes = _
    rw [write, isOpen, if_neg Bool.false_ne_true, if_pos (by omega)]
  refine writeAll_of_write kept fun none => ?_
  rw [none, keep, List.append_nil]
  rfl

theorem writePieces_of_fits (pieces : List (List UInt8)) {sink : FileSink φ}
    (isOpen : sink.closed = false)
    (fits : sink.pending.length + pieces.flatten.length < sink.capacity) :
    RecordWriter.writePieces pieces sink = (sink.keep pieces.flatten).2.flush := by
  induction pieces generalizing sink with
  | nil =>
      rw [List.flatten_nil, keep, List.append_nil]
      rfl
  | cons piece rest ih =>
      rw [List.flatten_cons, List.length_append] at fits
      have stillOpen : (sink.keep piece).2.closed = false := isOpen
      have room : (sink.keep piece).2.pending.length + rest.flatten.length < sink.capacity := by
        show (sink.pending ++ piece).length + rest.flatten.length < sink.capacity
        rw [List.length_append]
        omega
      have later := ih stillOpen room
      rw [keep_keep] at later
      rw [RecordWriter.writePieces, writeAll_of_fits piece isOpen (by omega)]
      exact later

theorem drainTo_fullDevice {pending : List UInt8} (some : pending ≠ []) :
    drainTo pending LimitedFile.fullDevice =
      (.error LimitedFile.noSpace, pending, LimitedFile.fullDevice) := by
  cases pending with
  | nil => exact absurd rfl some
  | cons first rest =>
      have refused : BackingFile.write (first :: rest) LimitedFile.fullDevice =
          (.error LimitedFile.noSpace, LimitedFile.fullDevice) := by
        show LimitedFile.write (first :: rest) LimitedFile.fullDevice = _
        simp [LimitedFile.write, LimitedFile.room, LimitedFile.fullDevice]
      have lasting : LimitedFile.noSpace.kind ≠ .interrupted := by decide
      rw [drainTo]
      split
      all_goals
        rename_i written
        cases refused.symm.trans written
      rw [if_neg lasting]

/-- What the close of a watched sink comes to, and what may follow on it. -/
structure Closes (content : φ → List UInt8) (before : Traced (FileSink φ))
    (outcome : Except IoFailure Unit × Traced (FileSink φ)) : Prop where
  counted : outcome.2.sink.accepted = before.taken.length
  front : content outcome.2.sink.file <+: before.taken
  whole : outcome.1 = .ok () → ¬ before.CloseFailed →
    content outcome.2.sink.file = before.taken
  stays : ∀ later : List SinkStep, (SinkStep.runAll later outcome.2).sink = outcome.2.sink
  closesAgain : ∀ later : List SinkStep,
    (ByteSink.close (SinkStep.runAll later outcome.2)).1 = .ok ()

/-- A sink over a newly opened file that may fail at any time, closed after any steps: it counts
what it has accepted, and the file has a front of it. A close that succeeds when none has failed
before has put all of it into the file. A close that fails closes the sink as well, and whatever
the file has not taken by then is lost: nothing changes the sink any more, and every later close
succeeds. So a closed writer has everything in its file unless a close of the sink has failed.
None fails if the writer syncs before closing; else the next close of the writer succeeds. -/
theorem whole_of_close (isFile : IsFile valid content) {file : φ} (start : valid file)
    (empty : content file = []) (capacity : Nat) (earlier : List SinkStep) :
    let fresh : FileSink φ := { file, capacity }
    let before : Traced (FileSink φ) := SinkStep.runAll earlier { sink := fresh }
    ByteSink.close (SinkStep.runAll earlier fresh) = Traced.forget (ByteSink.close before) ∧
      Closes content before (ByteSink.close before) ∧
      ∀ (name : String) (syncOnClose : Bool) (operations : List RecordWriter.Operation),
        let plain : RecordWriter (FileSink φ) := { name, syncOnClose, sink := fresh }
        RecordWriter.ClosesLast content plain operations
          (RecordWriter.performAll operations plain.watched) := by
  intro fresh before
  let result := (ByteSink.close before).1
  let after := (ByteSink.close before).2
  have filed : Filed valid content capacity after :=
    (filed_runAll isFile start empty capacity earlier).close isFile
  have taken : after.taken = before.taken := Traced.taken_quiet rfl
  have isClosed : after.sink.closed = true := closed_close before.sink
  have noneLeft := filed.flushed isClosed
  have stays (later : List SinkStep) : (SinkStep.runAll later after).sink = after.sink :=
    (SinkStep.sink_runAll later after).trans (SinkStep.runAll_of_closed isClosed later)
  refine ⟨?_, ?_, ?_⟩
  · rw [← SinkStep.sink_runAll earlier { sink := fresh }]
    rfl
  · constructor
    case counted =>
      rw [← taken]
      exact filed.counted
    case front =>
      have front := filed.front
      rw [noneLeft, List.append_nil, taken] at front
      exact front
    case whole =>
      intro done inTime
      have other : ∀ failure, SinkCall.close result ≠ .close (.error failure) := by
        simp [show result = .ok () from done]
      have whole := filed.whole (mt (Traced.closeFailed_call other).mp inTime)
      rw [noneLeft, List.append_nil, taken] at whole
      exact whole
    case stays => exact stays
    case closesAgain =>
      intro later
      have stillClosed : (SinkStep.runAll later after).sink.closed = true := by
        rw [stays later]
        exact isClosed
      exact congrArg Prod.fst (close_of_closed stillClosed)
  · intro name syncOnClose operations plain
    have overFile : RecordWriter.OverFile valid content capacity
        (RecordWriter.performAll operations plain.watched).2 :=
      .performAll isFile (.fresh start empty capacity name syncOnClose) operations
    have setting : (RecordWriter.performAll operations plain.watched).2.syncOnClose = syncOnClose :=
      RecordWriter.syncOnClose_performAll plain.watched operations
    exact ⟨(RecordWriter.bare_performAll plain.watched operations).symm, overFile.filed.counted,
      overFile.inFile, fun syncs => (overFile.synced (setting.trans syncs)).2,
      RecordWriter.close_of_closeFailed overFile⟩

theorem whole_of_close_retried :
    let fresh : FileSink LimitedFile := { file := { failingWrites := 1 }, capacity := 4 }
    let flushed := ByteSink.flush (SinkStep.runAll [.write [1, 2]] fresh)
    let closed := ByteSink.close flushed.2
    flushed.1 = .error LimitedFile.noSpace ∧ closed.1 = .ok () ∧ closed.2.accepted = 2 ∧
      closed.2.file.content = [1, 2] := by
  intro fresh flushed closed
  let full : FileSink LimitedFile := (fresh.keep [1, 2]).2
  let held : FileSink LimitedFile := { full with file := {} }
  have wrote : writeAll [1, 2] ({ sink := fresh } : Traced (FileSink LimitedFile)) =
      (.ok (), { sink := full, calls := [.write [1, 2] (.ok 2)] }) :=
    writeAll_of_write rfl (by simp)
  have refused : drainTo full.pending full.file = (.error LimitedFile.noSpace, [1, 2], {}) := by
    show drainTo [1, 2] fresh.file = _
    rw [drainTo]
    rfl
  have drained : drainTo held.pending held.file = (.ok (), [], { log := .ofList [1, 2] }) := by
    show drainTo [1, 2] ({} : LimitedFile) = _
    rw [drainTo]
    show drainTo [] _ = _
    rw [drainTo]
    rfl
  have failed : ByteSink.flush full = (.error LimitedFile.noSpace, held) := by
    show full.empty = _
    rw [empty, refused]
    rfl
  have done : (ByteSink.close held).1 = .ok () := by
    show held.close.1 = _
    rw [close, empty, drained]
    rfl
  have before : SinkStep.runAll [.write [1, 2], .flush] ({ sink := fresh } : Traced _) =
      { sink := held
        calls := [.write [1, 2] (.ok 2), .flush (.error LimitedFile.noSpace)] } := by
    show (Traced.watch ByteSink.flush .flush (writeAll [1, 2] { sink := fresh }).2).2 = _
    rw [wrote, Traced.watch, failed]
    rfl
  have empty : fresh.file.content = [] := rfl
  obtain ⟨bare, closes, _⟩ :=
    whole_of_close LimitedFile.isFile trivial empty 4 [.write [1, 2], .flush]
  rw [before] at bare closes
  have inTime : ¬ Traced.CloseFailed (σ := FileSink LimitedFile)
      { sink := held
        calls := [.write [1, 2] (.ok 2), .flush (.error LimitedFile.noSpace)] } := by
    simp [Traced.CloseFailed]
  have asked : flushed = (.error LimitedFile.noSpace, held) := by
    show ByteSink.flush (writeAll [1, 2] fresh).2 = _
    rw [writeAll_of_fits [1, 2] rfl (by decide)]
    exact failed
  have same : closed = ByteSink.close held :=
    congrArg (fun outcome => ByteSink.close outcome.2) asked
  refine ⟨congrArg Prod.fst asked, ?_, ?_, ?_⟩
  · rw [same]
    exact done
  · rw [same]
    exact closes.counted
  · rw [same]
    exact closes.whole done inTime

end FileSink

/-- The header stays in the buffer, for the device has no room, and is lost in the first close,
which fails. The second close succeeds, and the closed writer has counted bytes that are not in
the file. -/
theorem RecordWriter.closed_without_header :
    ∃ writer, createOn LimitedFile.fullDevice LimitedFile.fullDeviceName { bufferSize := 1024 } =
        .ok writer ∧
      let outcome := performAll [.writeHeader, .close, .close] writer
      outcome.1 = [.finished (.error (.io LimitedFile.noSpace)),
          .finished (.error (.io LimitedFile.noSpace)), .finished (.ok ())] ∧
        outcome.2.closed = true ∧ outcome.2.bytesWritten = 63 ∧
        outcome.2.sink.file.content = [] := by
  let header := SegmentHeader.current.pieces.flatten
  let fresh : FileSink LimitedFile := { file := LimitedFile.fullDevice, capacity := 1024 }
  let held : FileSink LimitedFile := (fresh.keep header).2
  let lost : FileSink LimitedFile := { held with pending := [], closed := true }
  let writer : RecordWriter (FileSink LimitedFile) :=
    { name := LimitedFile.fullDeviceName, sink := fresh }
  have size : header.length = 63 := rfl
  have some : header ≠ [] := List.ne_nil_of_length_pos (by rw [size]; decide)
  have drained : FileSink.drainTo held.pending held.file =
      (.error LimitedFile.noSpace, header, LimitedFile.fullDevice) :=
    FileSink.drainTo_fullDevice some
  have refused : held.empty = (.error LimitedFile.noSpace, held) := by
    rw [FileSink.empty, drained]
    rfl
  have wrote : writePieces SegmentHeader.current.pieces writer.sink =
      (.error LimitedFile.noSpace, held) :=
    (FileSink.writePieces_of_fits _ rfl (by decide)).trans refused
  have isOpen : held.closed = false := rfl
  have failed : ByteSink.close held = (.error LimitedFile.noSpace, lost) := by
    show held.close = _
    simp only [FileSink.close, isOpen, refused]
    rfl
  have headed : writer.writeHeader =
      (.error (.io LimitedFile.noSpace), { writer with sink := held }) := by
    rw [writeHeader, if_neg Bool.false_ne_true, onSink_of_error wrote]
  have first : close { writer with sink := held } =
      (.error (.io LimitedFile.noSpace), { writer with sink := lost }) := by
    rw [close, if_neg Bool.false_ne_true, if_neg Bool.false_ne_true, closeSink,
      onSink_of_error failed]
  have second : close { writer with sink := lost } =
      (.ok (), { writer with sink := lost, closed := true }) := rfl
  refine ⟨writer, rfl, ?_⟩
  simp only [performAll, perform, headed, first, second]
  exact ⟨trivial, trivial, size, rfl⟩

end LineageJournal

import LineageJournal.Journal.Threads
import LineageJournal.Proofs.Journal.Segment
import LineageJournal.Proofs.Stream.Appending

/-! Offsets after failures. A writer goes on after its sink has failed, so a segment may hold
part of a record that was never counted, or all of it. What a successful call has written is
whole nevertheless, and it begins where the byte count stood before the call. -/

namespace LineageJournal

open Wire

variable {σ : Type} {valid : σ → Prop} {content : σ → List UInt8}

namespace RecordWriter

/-- What a call of `writeRecord` has done to a writer, by what it answers. -/
inductive Appended (content : σ → List UInt8) (event : Event) (recordId : UInt64)
    (before : RecordWriter σ) : Except JournalError Nat × RecordWriter σ → Prop where
  | whole {record : List UInt8} {after : RecordWriter σ}
      (encoded : event.encode recordId = .ok record)
      (more : content after.sink = content before.sink ++ record)
      (counted : after.recordsWritten = before.recordsWritten + 1) :
      Appended content event recordId before (.ok record.length, after)
  | closed (isClosed : before.closed = true) :
      Appended content event recordId before (.error .closed, before)
  | refused {fault : EncodeFault} (refused : event.encode recordId = .error fault) :
      Appended content event recordId before (.error (.ofEncoding fault), before)
  | cut {record part : List UInt8} {failure : Failure} {after : RecordWriter σ}
      (encoded : event.encode recordId = .ok record) (front : part <+: record)
      (more : content after.sink = content before.sink ++ part)
      (counted : after.recordsWritten = before.recordsWritten) :
      Appended content event recordId before (.error (.io failure), after)

theorem Appended.extended {event : Event} {recordId : UInt64} {before : RecordWriter σ}
    {outcome : Except JournalError Nat × RecordWriter σ}
    (appended : Appended content event recordId before outcome) :
    content before.sink <+: content outcome.2.sink := by
  cases appended with
  | whole _ more _ => exact ⟨_, more.symm⟩
  | closed _ => exact List.prefix_rfl
  | refused _ => exact List.prefix_rfl
  | cut _ _ more _ => exact ⟨_, more.symm⟩

def isWritten : Reply → Bool
  | .wrote (.ok _) => true
  | _ => false

/-- From `before` to `after` the sink has only been appended to, and each reply that tells of
a written record has been counted. -/
structure Follows (valid : σ → Prop) (content : σ → List UInt8) (before : RecordWriter σ)
    (replies : List Reply) (after : RecordWriter σ) : Prop where
  valid : valid after.sink
  extended : content before.sink <+: content after.sink
  counted : after.recordsWritten = before.recordsWritten + replies.countP isWritten

namespace Follows

variable {before middle after : RecordWriter σ} {replies more : List Reply}

theorem trans (first : Follows valid content before replies middle)
    (second : Follows valid content middle more after) :
    Follows valid content before (replies ++ more) after where
  valid := second.valid
  extended := first.extended.trans second.extended
  counted := by rw [second.counted, first.counted, List.countP_append, Nat.add_assoc]

theorem reply (follows : Follows valid content before [] after)
    (result : Except JournalError Unit) :
    Follows valid content before [.finished result] after :=
  ⟨follows.valid, follows.extended, follows.counted⟩

theorem refl (start : valid before.sink) : Follows valid content before [] before :=
  ⟨start, List.prefix_rfl, rfl⟩

end Follows

theorem follows_onSink {writer : RecordWriter σ} {operation : σ → Except Failure Unit × σ}
    (kept : valid (operation writer.sink).2)
    (extended : content writer.sink <+: content (operation writer.sink).2) :
    Follows valid content writer [] (writer.onSink operation).2 :=
  ⟨kept, extended, rfl⟩

end RecordWriter

variable [ByteSink σ]

theorem IsAppending.took_writePieces (appending : IsAppending valid content)
    (pieces : List (List UInt8)) {sink : σ} (start : valid sink) :
    Took valid content pieces.flatten sink (RecordWriter.writePieces pieces sink) := by
  induction pieces generalizing sink with
  | nil =>
      obtain ⟨kept, same⟩ := appending.of_flush start
      refine ⟨kept, [], List.prefix_rfl, ?_, fun _ => rfl⟩
      rw [List.append_nil]
      exact same
  | cons piece rest ih =>
      obtain ⟨kept, part, front, more, all⟩ := appending.took_writeAll piece start
      rw [RecordWriter.writePieces]
      cases wrote : writeAll piece sink with
      | mk result next =>
          rw [wrote] at kept more all
          cases result with
          | ok _ =>
              rw [all rfl] at more
              exact (ih kept).after List.flatten_cons more
          | error failure =>
              refine ⟨kept, part, ?_, more, ?_⟩
              · rw [List.flatten_cons]
                exact front.trans (List.prefix_append piece rest.flatten)
              · intro done
                cases done

namespace RecordWriter

variable {writer : RecordWriter σ}

theorem writeRecord_spec (appending : IsAppending valid content) (start : valid writer.sink)
    (event : Event) (recordId : UInt64) :
    valid (writer.writeRecord event recordId).2.sink ∧
      Appended content event recordId writer (writer.writeRecord event recordId) := by
  by_cases closed : writer.closed = true
  · rw [writeRecord, if_pos closed]
    exact ⟨start, .closed closed⟩
  · rw [writeRecord, if_neg closed]
    cases encoded : event.encode recordId with
    | error fault => exact ⟨start, .refused encoded⟩
    | ok record =>
        obtain ⟨kept, part, front, more, all⟩ := appending.took_writePieces [record] start
        have single : [record].flatten = record := List.flatten_singleton
        rw [single] at front all
        cases wrote : writePieces [record] writer.sink with
        | mk result sink =>
            rw [wrote] at kept more all
            cases result with
            | ok _ =>
                rw [all rfl] at more
                have size : ByteSink.bytesWritten sink - ByteSink.bytesWritten writer.sink =
                    record.length := by
                  rw [appending.bytesWritten_eq kept, appending.bytesWritten_eq start, more,
                    List.length_append, Nat.add_sub_cancel_left]
                simp only [onSink_of_ok wrote, size]
                exact ⟨kept, .whole encoded more rfl⟩
            | error failure =>
                simp only [onSink_of_error wrote]
                exact ⟨kept, .cut encoded front more rfl⟩

theorem follows_writeHeader (appending : IsAppending valid content)
    (start : valid writer.sink) : Follows valid content writer [] writer.writeHeader.2 := by
  by_cases closed : writer.closed = true
  · rw [writeHeader, if_pos closed]
    exact .refl start
  · obtain ⟨kept, part, _, more, _⟩ :=
      appending.took_writePieces SegmentHeader.current.pieces start
    rw [writeHeader, if_neg closed]
    exact follows_onSink kept ⟨part, more.symm⟩

theorem follows_writeRecord (appending : IsAppending valid content) (start : valid writer.sink)
    (event : Event) (recordId : UInt64) :
    Follows valid content writer [.wrote (writer.writeRecord event recordId).1]
      (writer.writeRecord event recordId).2 := by
  obtain ⟨kept, appended⟩ := writeRecord_spec appending start event recordId
  generalize writer.writeRecord event recordId = outcome at kept appended
  refine ⟨kept, appended.extended, ?_⟩
  cases appended with
  | whole _ _ counted => exact counted
  | closed _ => rfl
  | refused _ => rfl
  | cut _ _ _ counted => exact counted

theorem follows_sync (appending : IsAppending valid content) (start : valid writer.sink) :
    Follows valid content writer [] (writer.onSink ByteSink.sync).2 := by
  obtain ⟨kept, same⟩ := appending.of_sync start
  exact follows_onSink kept ⟨[], (List.append_nil _).trans same.symm⟩

theorem follows_closeSink (appending : IsAppending valid content) (start : valid writer.sink) :
    Follows valid content writer [] writer.closeSink.2 := by
  obtain ⟨kept, same⟩ := appending.of_close start
  have shut : Follows valid content writer [] (writer.onSink ByteSink.close).2 :=
    follows_onSink kept ⟨[], (List.append_nil _).trans same.symm⟩
  rw [closeSink]
  cases done : writer.onSink ByteSink.close with
  | mk result next =>
      rw [done] at shut
      cases result with
      | ok _ => exact ⟨shut.valid, shut.extended, shut.counted⟩
      | error error => exact shut

theorem follows_close (appending : IsAppending valid content) (start : valid writer.sink) :
    Follows valid content writer [] writer.close.2 := by
  by_cases closed : writer.closed = true
  · rw [close, if_pos closed]
    exact .refl start
  · rw [close, if_neg closed]
    by_cases syncs : writer.syncOnClose = true
    · rw [if_pos syncs]
      have synced := follows_sync appending start
      cases done : writer.onSink ByteSink.sync with
      | mk result next =>
          rw [done] at synced
          cases result with
          | ok _ => exact synced.trans (follows_closeSink appending synced.valid)
          | error error => exact synced
    · rw [if_neg syncs]
      exact follows_closeSink appending start

inductive Operation where
  | writeHeader
  | writeRecord (event : Event) (recordId : UInt64)
  | sync
  | close

def perform : Operation → RecordWriter σ → Reply × RecordWriter σ
  | .writeHeader, writer => (.finished writer.writeHeader.1, writer.writeHeader.2)
  | .writeRecord event recordId, writer =>
    (.wrote (writer.writeRecord event recordId).1, (writer.writeRecord event recordId).2)
  | .sync, writer => (.finished writer.sync.1, writer.sync.2)
  | .close, writer => (.finished writer.close.1, writer.close.2)

def performAll : List Operation → RecordWriter σ → List Reply × RecordWriter σ
  | [], writer => ([], writer)
  | operation :: later, writer =>
    match perform operation writer with
    | (reply, next) =>
      match performAll later next with
      | (replies, last) => (reply :: replies, last)

theorem follows_perform (appending : IsAppending valid content) (start : valid writer.sink)
    (operation : Operation) :
    Follows valid content writer [(perform operation writer).1] (perform operation writer).2 := by
  cases operation with
  | writeHeader => exact (follows_writeHeader appending start).reply _
  | writeRecord event recordId => exact follows_writeRecord appending start event recordId
  | sync =>
      refine Follows.reply ?_ _
      show Follows valid content writer [] writer.sync.2
      by_cases closed : writer.closed = true
      · rw [sync, if_pos closed]
        exact .refl start
      · rw [sync, if_neg closed]
        exact follows_sync appending start
  | close => exact (follows_close appending start).reply _

theorem follows_performAll (appending : IsAppending valid content) (start : valid writer.sink)
    (operations : List Operation) :
    Follows valid content writer (performAll operations writer).1
      (performAll operations writer).2 := by
  induction operations generalizing writer with
  | nil => exact .refl start
  | cons operation later ih =>
      have first := follows_perform appending start operation
      exact first.trans (ih first.valid)

theorem nextRecord_of_skipTo {τ : Type} [ByteFeed τ] {feed : τ} {event : Event}
    {recordId : UInt64} {front record more : List UInt8}
    (encoded : event.encode recordId = .ok record)
    (delivers : Delivers feed (front ++ (record ++ more))) (filename : String) (now : Int64) :
    ∃ opened there next, RecordReader.new feed 7 filename = .ok opened ∧
      opened.skipTo front.length = (.ok (), there) ∧
      there.nextRecord now =
        (.ok (some (event.stored recordId filename front.length)), next) ∧
      next.position = front.length + record.length := by
  have opened := RecordReader.at_of_delivers delivers .claimed filename
  have within : front.length - 0 ≤ (front ++ (record ++ more)).length := by
    rw [List.length_append]
    omega
  obtain ⟨there, skipped, place⟩ := opened.skipTo (Nat.zero_le front.length) within
  rw [Nat.sub_zero, List.drop_left] at place
  obtain ⟨next, answer, after⟩ :=
    place.nextRecord_isRecord (Event.isRecord_of_encode encoded filename front.length) now
  exact ⟨_, there, next, RecordReader.new_of_ofVersion rfl feed filename, skipped, answer,
    after.position⟩

/-- A writer of any appending sink, after any run of operations of which any may have failed,
appends a record as a whole when the call succeeds, and otherwise nothing, or a front of it
when the sink fails. What the sink holds stays at the front of whatever comes later and the
successful calls are counted, so a reader that goes to the byte count before a successful call
reads its event there. -/
theorem appended_between_operations (appending : IsAppending valid content) (sink : σ)
    (start : valid sink) (name : String) (syncOnClose : Bool) (earlier later : List Operation)
    (event : Event) (recordId : UInt64) :
    let fresh : RecordWriter σ := { name, syncOnClose, sink }
    let before := (performAll earlier fresh).2
    let outcome := before.writeRecord event recordId
    let last := (performAll later outcome.2).2
    Appended content event recordId before outcome ∧
      content sink <+: content before.sink ∧ content outcome.2.sink <+: content last.sink ∧
      before.recordsWritten = (performAll earlier fresh).1.countP isWritten ∧
      ∀ size, outcome.1 = .ok size →
        ∃ record, event.encode recordId = .ok record ∧ record.length = size ∧
          ((content last.sink).drop before.bytesWritten).take size = record ∧
          ∀ {τ : Type} [ByteFeed τ] {feed : τ} (filename : String) (now : Int64),
            Delivers feed (content last.sink) →
            ∃ opened there next, RecordReader.new feed 7 filename = .ok opened ∧
              opened.skipTo before.bytesWritten = (.ok (), there) ∧
              there.nextRecord now =
                (.ok (some (event.stored recordId filename before.bytesWritten)), next) ∧
              next.position = before.bytesWritten + size := by
  intro fresh before outcome last
  have reached : Follows valid content fresh (performAll earlier fresh).1 before :=
    follows_performAll appending start earlier
  obtain ⟨kept, appended⟩ : valid outcome.2.sink ∧ Appended content event recordId before outcome :=
    writeRecord_spec appending reached.valid event recordId
  have after : Follows valid content outcome.2 (performAll later outcome.2).1 last :=
    follows_performAll appending kept later
  refine ⟨appended, reached.extended, after.extended, ?_, ?_⟩
  · rw [reached.counted]
    exact Nat.zero_add _
  · intro size succeeded
    have offset : before.bytesWritten = (content before.sink).length :=
      appending.bytesWritten_eq reached.valid
    obtain ⟨more, extended⟩ := after.extended
    generalize outcome = result at appended succeeded extended
    -- Only one of the replies tells of a size, and then the record is there as a whole.
    cases appended with
    | closed _ => cases succeeded
    | refused _ => cases succeeded
    | cut _ _ _ _ => cases succeeded
    | @whole record next encoded grown _ =>
        cases succeeded
        have whole : content last.sink = content before.sink ++ (record ++ more) := by
          rw [← extended, ← List.append_assoc, ← grown]
        have there : (content last.sink).drop before.bytesWritten = record ++ more := by
          rw [whole, offset, List.drop_left]
        refine ⟨record, encoded, rfl, ?_, ?_⟩
        · rw [there, List.take_left]
        · intro τ _ feed filename now delivers
          rw [whole] at delivers
          rw [offset]
          exact nextRecord_of_skipTo encoded delivers filename now

def failingSink : LimitedSink := { failingFlushes := 1, failingSyncs := 1 }

theorem writePieces_of_unbounded (pieces : List (List UInt8)) {sink : LimitedSink}
    (anySize : sink.chunk = none) (roomy : sink.capacity = none) :
    writePieces pieces sink =
      LimitedSink.flush { sink with log := sink.log.append pieces.flatten } := by
  induction pieces generalizing sink with
  | nil =>
      rw [List.flatten_nil, ByteLog.append_nil]
      rfl
  | cons piece rest ih =>
      have later := ih (show (LimitedSink.chunk
        { sink with log := sink.log.append piece }) = none from anySize) roomy
      rw [ByteLog.append_append] at later
      rw [writePieces, LimitedSink.writeAll_eq piece anySize roomy, List.flatten_cons]
      exact later

theorem appended_between_operations_receipt :
    let before := (performAll [.writeHeader] { name := "segment", sink := failingSink }).2
    let last := (performAll [.writeRecord Event.receipt 8, .sync, .close]
      (before.writeRecord Event.receipt 7).2).2
    ∃ record, Event.receipt.encode 7 = .ok record ∧ before.recordsWritten = 0 ∧
      ∃ opened there next,
        RecordReader.new (ScriptedFeed.ofBytes last.sink.bytes) 7 "segment" = .ok opened ∧
        opened.skipTo before.bytesWritten = (.ok (), there) ∧
        there.nextRecord 0 =
          (.ok (some (Event.receipt.stored 7 "segment" before.bytesWritten)), next) ∧
        next.position = before.bytesWritten + record.length := by
  intro before last
  obtain ⟨record, encoded⟩ : ∃ record, Event.receipt.encode 7 = .ok record := ⟨_, rfl⟩
  have header : before.sink =
      { log := (∅ : ByteLog).append SegmentHeader.current.bytes, failingSyncs := 1 } := by
    show (writePieces SegmentHeader.current.pieces failingSink).2 = _
    rw [writePieces_of_unbounded SegmentHeader.current.pieces rfl rfl]
    rfl
  have flushed : writePieces [record] before.sink =
      (.ok (), { before.sink with log := before.sink.log.append record }) := by
    rw [header, writePieces_of_unbounded [record] rfl rfl, List.flatten_singleton]
    rfl
  have wrote : (before.writeRecord Event.receipt 7).1 = .ok record.length := by
    have isOpen : ¬ before.closed = true := Bool.false_ne_true
    rw [writeRecord, if_neg isOpen, encoded]
    simp only [onSink_of_ok flushed]
    exact congrArg Except.ok (Nat.add_sub_cancel_left ..)
  obtain ⟨_, _, _, counted, written⟩ :=
    appended_between_operations LimitedSink.isAppending failingSink trivial "segment" false
      [.writeHeader] [.writeRecord Event.receipt 8, .sync, .close] Event.receipt 7
  obtain ⟨_, _, _, _, reads⟩ := written record.length wrote
  exact ⟨record, encoded, counted,
    reads "segment" 0 (ScriptedFeed.delivers_ofBytes last.sink.bytes)⟩

end RecordWriter

end LineageJournal

import LineageJournal.Journal.Writer
import LineageJournal.Proofs.Journal.Scanning
import LineageJournal.Proofs.Stream.Appending
import LineageJournal.Proofs.Stream.Script
import LineageJournal.Proofs.Wire.Record

/-! Segments read back as they were written. The writer counts bytes where the reader decodes
them, and the two agree on where every record begins, also when events in between could not be
encoded. -/

namespace LineageJournal

open Wire

theorem RecordReader.finish_of_build {draft : Draft} {event : Event}
    (built : draft.build = .ok event) (filename : String) (offset : Nat) :
    finish filename offset draft =
      .ok { event with storage := some ⟨filename, UInt64.ofNat offset⟩ } := by
  rw [finish_eq_ok]
  unfold Draft.build at built ⊢
  cases kind : draft.kind with
  | none => simp [kind] at built
  | some known =>
      simp only [kind, Except.ok.injEq] at built ⊢
      subst built
      rfl

/-- The event as it is read from a record at the offset. -/
def Event.stored (event : Event) (recordId : UInt64) (filename : String) (offset : Nat) : Event :=
  { event.carried recordId with storage := some ⟨filename, UInt64.ofNat offset⟩ }

theorem Event.isRecord_of_encode {event : Event} {recordId : UInt64} {record : List UInt8}
    (encoded : event.encode recordId = .ok record) (filename : String) (offset : Nat) :
    Layout.claimed.IsRecord filename offset record (event.stored recordId filename offset) := by
  have finished := RecordReader.finish_of_build (build_draftOf event recordId) filename offset
  exact Layout.isRecord_of_run (run_record_draftOf encoded [] 0) finished

def Wire.SegmentHeader.bytes (header : SegmentHeader) : List UInt8 := header.pieces.flatten

theorem Wire.SegmentHeader.run_header_current (rest : List UInt8) :
    Decoder.header.run (current.bytes ++ rest) = .ok (current, rest) :=
  Decoder.reads_header current rfl rest

theorem Wire.SegmentHeader.length_bytes (header : SegmentHeader) :
    header.bytes.length = header.encodedLength := by
  simp only [bytes, pieces, encodedLength, List.flatten_cons, List.flatten_nil,
    List.append_nil, List.length_append, bigEndian_length]
  omega

theorem RecordReader.At.readHeader {σ : Type} [ByteFeed σ] {reader : RecordReader σ}
    {layout : Layout} {filename : String} {offset : Nat} {rest : List UInt8}
    (place : reader.At layout filename offset (SegmentHeader.current.bytes ++ rest)) :
    ∃ next : RecordReader σ, reader.readHeader = (.ok .current, next) ∧
      next.At layout filename (offset + SegmentHeader.current.encodedLength) rest := by
  obtain ⟨source, read, after⟩ :=
    place.source.readFrom_of_run (SegmentHeader.run_header_current rest)
  rw [List.length_append, Nat.add_sub_cancel, SegmentHeader.length_bytes] at after
  refine ⟨{ reader with source }, ?_, ⟨place.layout, place.filename, after⟩⟩
  rw [RecordReader.readHeader, read]
  rfl

namespace RecordWriter

variable {σ α : Type} {writer : RecordWriter σ} {operation : σ → Except Failure α × σ} {sink : σ}

theorem onSink_of_ok {value : α} (done : operation writer.sink = (.ok value, sink)) :
    writer.onSink operation = (.ok value, { writer with sink }) := by
  rw [onSink, done]
  rfl

theorem onSink_of_error {failure : Failure}
    (failed : operation writer.sink = (.error failure, sink)) :
    writer.onSink operation = (.error (.io failure), { writer with sink }) := by
  rw [onSink, failed]
  rfl

end RecordWriter

namespace MemorySink

theorem writePieces_eq (pieces : List (List UInt8)) (sink : MemorySink) :
    RecordWriter.writePieces pieces sink = (.ok (), { log := sink.log.append pieces.flatten }) := by
  induction pieces generalizing sink with
  | nil =>
      rw [List.flatten_nil, ByteLog.append_nil]
      rfl
  | cons piece rest ih =>
      rw [RecordWriter.writePieces, writeAll_eq]
      simp only [ih, ByteLog.append_append, List.flatten_cons]

end MemorySink

namespace Event

def recordSize (event : Event) (recordId : UInt64) : Except JournalError Nat :=
  match event.encode recordId with
  | .ok record => .ok record.length
  | .error fault => .error (.ofEncoding fault)

variable {event : Event} {recordId : UInt64}

theorem recordSize_of_encode {record : List UInt8} (encoded : event.encode recordId = .ok record) :
    event.recordSize recordId = .ok record.length := by
  rw [recordSize, encoded]

theorem recordSize_of_fault {fault : EncodeFault}
    (refused : event.encode recordId = .error fault) :
    event.recordSize recordId = .error (.ofEncoding fault) := by
  rw [recordSize, refused]

end Event

namespace RecordWriter

def writeRecords {σ : Type} [ByteSink σ] :
    List (Event × UInt64) → RecordWriter σ → List (Except JournalError Nat) × RecordWriter σ
  | [], writer => ([], writer)
  | (event, recordId) :: later, writer =>
    match writer.writeRecord event recordId with
    | (result, next) =>
      match writeRecords later next with
      | (results, last) => (result :: results, last)

/-- The records of the events that have one. -/
def recordBytes : List (Event × UInt64) → List UInt8
  | [] => []
  | (event, recordId) :: later =>
    match event.encode recordId with
    | .ok record => record ++ recordBytes later
    | .error _ => recordBytes later

/-- The events that have a record as they are read back from the offset on, each with the
offset where its record ends. -/
def readBack (filename : String) : Nat → List (Event × UInt64) → List (Event × Nat)
  | _, [] => []
  | offset, (event, recordId) :: later =>
    match event.encode recordId with
    | .ok record =>
      (event.stored recordId filename offset, offset + record.length) ::
        readBack filename (offset + record.length) later
    | .error _ => readBack filename offset later

theorem sequence_readBack (filename : String) (offset : Nat) (pairs : List (Event × UInt64)) :
    Layout.claimed.Sequence filename offset (recordBytes pairs)
      (readBack filename offset pairs) := by
  induction pairs generalizing offset with
  | nil => exact .nil offset
  | cons pair later ih =>
      obtain ⟨event, recordId⟩ := pair
      cases encoded : event.encode recordId with
      | error fault =>
          simp only [recordBytes, readBack, encoded]
          exact ih offset
      | ok record =>
          simp only [recordBytes, readBack, encoded]
          exact .cons (Event.isRecord_of_encode encoded filename offset) (ih _)

def recordSizes : List (Event × UInt64) → List Nat
  | [] => []
  | (event, recordId) :: later =>
    match event.encode recordId with
    | .ok record => record.length :: recordSizes later
    | .error _ => recordSizes later

theorem filterMap_recordSize (pairs : List (Event × UInt64)) :
    (pairs.map fun pair => pair.1.recordSize pair.2).filterMap Except.toOption =
      recordSizes pairs := by
  induction pairs with
  | nil => rfl
  | cons pair later ih =>
      cases encoded : pair.1.encode pair.2 with
      | error fault =>
          rw [List.map_cons, Event.recordSize_of_fault encoded, recordSizes, encoded]
          exact ih
      | ok record =>
          rw [List.map_cons, Event.recordSize_of_encode encoded, recordSizes, encoded]
          exact congrArg (record.length :: ·) ih

theorem sum_recordSizes (pairs : List (Event × UInt64)) :
    (recordSizes pairs).sum = (recordBytes pairs).length := by
  induction pairs with
  | nil => rfl
  | cons pair later ih =>
      cases encoded : pair.1.encode pair.2 <;>
        simp [recordSizes, recordBytes, encoded, ih]

theorem recordBytes_append (first second : List (Event × UInt64)) :
    recordBytes (first ++ second) = recordBytes first ++ recordBytes second := by
  induction first with
  | nil => rfl
  | cons pair later ih =>
      cases encoded : pair.1.encode pair.2 <;>
        simp [recordBytes, encoded, ih]

theorem recordSizes_append (first second : List (Event × UInt64)) :
    recordSizes (first ++ second) = recordSizes first ++ recordSizes second := by
  induction first with
  | nil => rfl
  | cons pair later ih =>
      cases encoded : pair.1.encode pair.2 <;>
        simp [recordSizes, encoded, ih]

theorem length_readBack (filename : String) (offset : Nat) (pairs : List (Event × UInt64)) :
    (readBack filename offset pairs).length = (recordSizes pairs).length := by
  induction pairs generalizing offset with
  | nil => rfl
  | cons pair later ih =>
      cases encoded : pair.1.encode pair.2 <;>
        simp [recordSizes, readBack, encoded, ih]

theorem writeRecord_of_fault {σ : Type} [ByteSink σ] {writer : RecordWriter σ} {event : Event}
    {recordId : UInt64} {fault : EncodeFault} (isOpen : writer.closed = false)
    (refused : event.encode recordId = .error fault) :
    writer.writeRecord event recordId = (.error (.ofEncoding fault), writer) := by
  rw [writeRecord, isOpen, if_neg Bool.false_ne_true, refused]

variable {writer : RecordWriter MemorySink}

theorem writeHeader_eq (isOpen : writer.closed = false) :
    writer.writeHeader =
      (.ok (),
        { writer with sink := { log := writer.sink.log.append SegmentHeader.current.bytes } }) := by
  have notClosed : ¬ writer.closed = true := Bool.eq_false_iff.mp isOpen
  rw [writeHeader, if_neg notClosed]
  exact onSink_of_ok (MemorySink.writePieces_eq SegmentHeader.current.pieces writer.sink)

theorem writeRecord_of_encode {event : Event} {recordId : UInt64} {record : List UInt8}
    (isOpen : writer.closed = false) (encoded : event.encode recordId = .ok record) :
    writer.writeRecord event recordId =
      (.ok record.length,
        { writer with
          sink := { log := writer.sink.log.append record }
          recordsWritten := writer.recordsWritten + 1 }) := by
  have notClosed : ¬ writer.closed = true := Bool.eq_false_iff.mp isOpen
  have size : (writer.sink.log.append record).size - writer.sink.log.size = record.length :=
    Nat.add_sub_cancel_left ..
  have wrote := onSink_of_ok (MemorySink.writePieces_eq [record] writer.sink)
  rw [List.flatten_singleton] at wrote
  rw [writeRecord, if_neg notClosed, encoded]
  simp only [wrote, ByteSink.bytesWritten, size]

theorem writeRecords_eq (isOpen : writer.closed = false) (pairs : List (Event × UInt64)) :
    writer.writeRecords pairs =
      (pairs.map fun pair => pair.1.recordSize pair.2,
        { writer with
          sink := { log := writer.sink.log.append (recordBytes pairs) }
          recordsWritten := writer.recordsWritten + (recordSizes pairs).length }) := by
  induction pairs generalizing writer with
  | nil =>
      have same : writer.sink.log.append [] = writer.sink.log := ByteLog.append_nil _
      simp only [writeRecords, recordBytes, same]
      rfl
  | cons pair later ih =>
      obtain ⟨event, recordId⟩ := pair
      cases encoded : event.encode recordId with
      | error fault =>
          rw [writeRecords, writeRecord_of_fault isOpen encoded]
          simp only [ih isOpen, List.map_cons, Event.recordSize_of_fault encoded, recordBytes,
            recordSizes, encoded]
      | ok record =>
          have counted (n : Nat) :
              writer.recordsWritten + 1 + n = writer.recordsWritten + (n + 1) := by
            omega
          have after := ih (show (RecordWriter.closed
            { writer with
              sink := { log := writer.sink.log.append record }
              recordsWritten := writer.recordsWritten + 1 }) = false from isOpen)
          rw [writeRecords, writeRecord_of_encode isOpen encoded]
          simp only [after, List.map_cons, Event.recordSize_of_encode encoded, recordBytes,
            recordSizes, encoded, ByteLog.append_append, List.length_cons, counted]

/-- A writer over memory counts what it has written, and a reader of the current version
reads every event that could be encoded back, in order and at its place, and nothing else. -/
theorem nextRecords_of_writeRecords (name : String) (syncOnClose : Bool)
    (pairs : List (Event × UInt64)) :
    ∃ headed results written,
      writeHeader { name, syncOnClose, sink := ({} : MemorySink) } = (.ok (), headed) ∧
      headed.writeRecords pairs = (results, written) ∧
      results = pairs.map (fun pair => pair.1.recordSize pair.2) ∧
      written.bytesWritten =
        SegmentHeader.current.encodedLength + (results.filterMap Except.toOption).sum ∧
      written.sink.bytes.length = written.bytesWritten ∧
      written.recordsWritten = (results.filterMap Except.toOption).length ∧
      ∀ {σ : Type} [ByteFeed σ] {feed : σ} (filename : String),
        Delivers feed written.sink.bytes →
        ∃ opened started, RecordReader.new feed 7 filename = .ok opened ∧
          opened.readHeader = (.ok SegmentHeader.current, started) ∧
          started.position = SegmentHeader.current.encodedLength ∧
          ∀ times : List Int64, started.nextRecords times =
            ((readBack filename SegmentHeader.current.encodedLength pairs).take
                times.length).map (fun record => (.ok (some record.1), record.2)) ++
              List.replicate (times.length - (recordSizes pairs).length)
                (.ok none, written.bytesWritten) := by
  have content : (((∅ : ByteLog).append SegmentHeader.current.bytes).append
      (recordBytes pairs)).toList = SegmentHeader.current.bytes ++ recordBytes pairs := by
    rw [ByteLog.toList_append, ByteLog.toList_append]
    rfl
  have total : (((∅ : ByteLog).append SegmentHeader.current.bytes).append
      (recordBytes pairs)).size =
        SegmentHeader.current.encodedLength + (recordBytes pairs).length := by
    rw [← ByteLog.length_toList, content, List.length_append, SegmentHeader.length_bytes]
  refine ⟨_, _, _, writeHeader_eq rfl, writeRecords_eq rfl pairs, rfl, ?_, ?_, ?_, ?_⟩
  · rw [filterMap_recordSize, sum_recordSizes]
    exact total
  · exact ByteLog.length_toList _
  · rw [filterMap_recordSize]
    exact Nat.zero_add _
  · intro σ _ feed filename delivers
    have delivers : Delivers feed (SegmentHeader.current.bytes ++ recordBytes pairs) :=
      content ▸ delivers
    have opened := RecordReader.at_of_delivers delivers .claimed filename
    obtain ⟨started, header, place⟩ := opened.readHeader
    rw [Nat.zero_add] at place
    refine ⟨_, started, RecordReader.new_of_ofVersion rfl feed filename, header,
      place.position, ?_⟩
    intro times
    have sequence := sequence_readBack filename SegmentHeader.current.encodedLength pairs
    -- Nothing is ahead after the records, so every further call answers that there is none.
    rw [← List.append_nil (recordBytes pairs)] at place
    obtain ⟨last, there, answers⟩ := sequence.nextRecords place times
    rw [answers, there.nextRecords_nil, Layout.readAll_claimed, List.length_drop,
      length_readBack, ← total]
    rfl

theorem nextRecords_of_writeRecords_receipt :
    ∃ (record : List UInt8) (started : RecordReader ScriptedFeed),
      Event.receipt.encode 7 = .ok record ∧ started.position = 63 ∧
        started.nextRecords [0, 0] =
          [(.ok (some (Event.receipt.stored 7 "segment" 63)), 63 + record.length),
            (.ok none, 63 + record.length)] := by
  obtain ⟨record, encoded⟩ : ∃ record, Event.receipt.encode 7 = .ok record := ⟨_, rfl⟩
  obtain ⟨headed, results, written, _, _, same, count, _, _, reads⟩ :=
    nextRecords_of_writeRecords "segment" false [(Event.receipt, 7)]
  obtain ⟨opened, started, _, _, place, answers⟩ :=
    reads "segment" (ScriptedFeed.delivers_ofBytes written.sink.bytes)
  have header : SegmentHeader.current.encodedLength = 63 := by decide
  rw [header] at count place answers
  rw [same, filterMap_recordSize] at count
  simp only [recordSizes, encoded, List.sum_singleton] at count
  refine ⟨record, started, encoded, place, ?_⟩
  rw [answers, count]
  simp only [readBack, recordSizes, encoded]
  rfl

end RecordWriter

end LineageJournal

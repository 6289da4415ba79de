import LineageJournal.Journal.Shared
import LineageJournal.Proofs.Journal.Indexing
import LineageJournal.Proofs.SortedMap
import LineageJournal.Proofs.Stream.Arrival
import LineageJournal.Proofs.Stream.Backing

/-! Files that are written and read at once. Between its calls a writer has nothing in its
buffer, so the file holds all that it has written. A reader's cursor is a place in the content of
the file, and where the file has grown by then, the reader has more ahead of it. -/

namespace LineageJournal

open Wire

def FileCursor.Within (content : List UInt8) (cursor : FileCursor) (bytes : List UInt8) : Prop :=
  ∃ front, content = front ++ bytes ∧ cursor = .file front.length bytes

namespace FileCursor

variable {content bytes : List UInt8} {cursor : FileCursor}

theorem isDelivery_within (content : List UInt8) : IsDelivery none (Within content) where
  of_ok := by
    intro n cursor next bytes chunk within wanted pulled
    obtain ⟨front, split, rfl⟩ := within
    cases pulled
    refine ⟨bytes.drop n, (List.take_append_drop n bytes).symm, ⟨front ++ bytes.take n, ?_, ?_⟩,
      fun nothing => ?_⟩
    · rw [List.append_assoc, List.take_append_drop]
      exact split
    · rw [List.length_append]
    · exact ⟨(List.take_eq_nil_iff.mp nothing).resolve_left (Nat.ne_of_gt wanted), rfl⟩
  of_error := by
    intro n cursor next bytes failure within _ pulled
    obtain ⟨front, _, rfl⟩ := within
    cases pulled

theorem Within.refresh (within : cursor.Within content bytes) (more : List UInt8) :
    (cursor.refresh (content ++ more)).Within (content ++ more) (bytes ++ more) := by
  obtain ⟨front, rfl, rfl⟩ := within
  refine ⟨front, List.append_assoc .., ?_⟩
  rw [FileCursor.refresh, List.append_assoc, List.drop_left]

end FileCursor

namespace FileFeed

def Within (content : List UInt8) : FileFeed → List UInt8 → Prop :=
  Buffered.Ahead (FileCursor.Within content)

theorem isDelivery_within (content : List UInt8) : IsDelivery none (Within content) :=
  Buffered.isDelivery_ahead (FileCursor.isDelivery_within content)

theorem within_openAt (content : List UInt8) (capacity : Nat) :
    Within content (openAt content capacity) content :=
  ⟨content, rfl, [], rfl, rfl⟩

theorem Within.refresh {content bytes : List UInt8} {feed : FileFeed}
    (within : Within content feed bytes) (more : List UInt8) :
    Within (content ++ more) (feed.refresh (content ++ more)) (bytes ++ more) := by
  obtain ⟨later, rfl, inner⟩ := within
  exact ⟨later ++ more, List.append_assoc .., inner.refresh more⟩

theorem refresh_refresh (feed : FileFeed) (first second : List UInt8) :
    (feed.refresh first).refresh second = feed.refresh second := by
  obtain ⟨capacity, pending, cursor⟩ := feed
  cases cursor <;> rfl

end FileFeed

namespace Directory

variable {directory : Directory} {name : String} {content : List UInt8}

theorem checkName_eq_ok :
    directory.checkName name = .ok () ↔
      name.contains '\x00' = false ∧ leadsToDirectory name = false ∧
        ∃ part, name.splitOn "/" = [part] ∧ part ≠ "" ∧
          (Utf8.encode part).length ≤ maxNameLength := by
  unfold checkName
  by_cases nul : name.contains '\x00' = true
  · simp [nul]
  · by_cases leads : leadsToDirectory name = true
    · simp [nul, leads]
    · rcases name.splitOn "/" with _ | ⟨part, _ | ⟨second, rest⟩⟩
      · simp [nul, leads]
      · by_cases empty : part = ""
        · simp [nul, leads, empty]
        · by_cases long : maxNameLength < (Utf8.encode part).length
          · simp [nul, leads, empty, long]
          · simp [nul, leads, empty, long, Nat.not_lt.mp long]
      · simp [nul, leads]

theorem checkName_letter (directory : Directory) : directory.checkName "a" = .ok () := by
  have parts : "a".splitOn "/" = ["a"] := by
    rw [String.splitOn, if_neg (by decide), String.splitOnAux, if_neg (by decide),
      if_neg (by decide), String.splitOnAux, if_pos (by decide)]
    decide
  refine checkName_eq_ok.mpr ⟨?_, ?_, "a", parts, by decide, by decide⟩
  · rw [String.contains_char_eq]
    decide
  · rw [leadsToDirectory, parts]
    decide

theorem content_eq_ok :
    directory.content name = .ok content ↔
      directory.checkName name = .ok () ∧ directory.get? name = some content := by
  rw [Directory.content]
  cases directory.checkName name with
  | error failure => simp [bind, Except.bind]
  | ok _ =>
      cases directory.get? name with
      | none => simp [bind, Except.bind]
      | some other => simp [bind, Except.bind, pure, Except.pure]

theorem content_insert (found : directory.content name = .ok content) (more : List UInt8) :
    Directory.content (directory.insert name more) name = .ok more := by
  obtain ⟨proper, _⟩ := content_eq_ok.mp found
  exact content_eq_ok.mpr
    ⟨checkName_eq_ok.mpr (checkName_eq_ok.mp proper), SortedMap.get?_insert ..⟩

theorem content_create {made : Directory} (created : directory.create name = .ok made) :
    made.content name = .ok [] := by
  rw [create, replace] at created
  cases proper : directory.checkName name with
  | error failure =>
      rw [proper] at created
      cases created
  | ok _ =>
      rw [proper] at created
      cases created
      exact content_eq_ok.mpr
        ⟨checkName_eq_ok.mpr (checkName_eq_ok.mp proper), SortedMap.get?_insert ..⟩

theorem openToRead_of_content (found : directory.content name = .ok content) (capacity : Nat) :
    directory.openToRead name capacity = .ok (.openAt content capacity) := by
  have isFile := (checkName_eq_ok.mp (content_eq_ok.mp found).1).2.1
  rw [openToRead, isFile, found]
  rfl

end Directory

namespace FileSink

variable {sink : FileSink DiskFile}

theorem sync_of_flushed (isOpen : sink.closed = false) (flushed : sink.pending = []) :
    ByteSink.sync sink = (.ok (), sink) := by
  show sink.sync = _
  rw [sync, isOpen, if_neg Bool.false_ne_true, empty_of_flushed flushed]
  rfl

theorem refresh_content (sink : FileSink DiskFile) : sink.refresh sink.file.content = sink := by
  have log : ByteLog.ofList sink.file.content = sink.file.log :=
    ByteLog.ext_toList (ByteLog.toList_ofList _)
  rw [refresh, log]

end FileSink

namespace RecordWriter

variable {writer : RecordWriter (FileSink DiskFile)}

theorem writePieces_file {sink : FileSink DiskFile} (sound : sink.Sound)
    (isOpen : sink.closed = false) (flushed : sink.pending = []) (pieces : List (List UInt8)) :
    ∃ next, writePieces pieces sink = (.ok (), next) ∧ next.Sound ∧ next.closed = false ∧
      next.pending = [] ∧ next.file.content = sink.file.content ++ pieces.flatten := by
  obtain ⟨last, taken, flushes⟩ :=
    writePieces_eq_flush FileSink.isAppending FileSink.isReliable pieces sound isOpen
  obtain ⟨next, emptied, still, noneLeft, same⟩ := FileSink.empty_disk taken.valid
  have closed : last.empty.2.closed = last.closed := rfl
  have lastOpen : last.closed = false := taken.accepts
  have done : ByteSink.flush last = (.ok (), next) := by
    show last.flush = _
    rw [FileSink.flush, lastOpen, if_neg Bool.false_ne_true, emptied]
  rw [emptied] at closed
  refine ⟨next, flushes.trans done, still, closed.trans taken.accepts, noneLeft, ?_⟩
  have whole := same.trans taken.more
  rw [FileSink.bytes, FileSink.bytes, noneLeft, flushed, List.append_nil, List.append_nil] at whole
  exact whole

/-- Between two calls the file holds all that the writer has written, and the sink is closed
with the writer. -/
structure Settled (writer : RecordWriter (FileSink DiskFile)) : Prop where
  sound : writer.sink.Sound
  flushed : writer.sink.pending = []
  closed : writer.sink.closed = writer.closed

namespace Settled

theorem bytesWritten_eq (settled : writer.Settled) :
    writer.bytesWritten = writer.sink.file.content.length := by
  have counted := settled.sound.counted
  rw [FileSink.bytes, settled.flushed, List.append_nil] at counted
  exact counted

theorem writeHeader (settled : writer.Settled) (isOpen : writer.closed = false) :
    ∃ sink, writer.writeHeader = (.ok (), { writer with sink }) ∧
      Settled { writer with sink } ∧
      sink.file.content = writer.sink.file.content ++ SegmentHeader.current.bytes := by
  obtain ⟨sink, wrote, sound, stillOpen, flushed, more⟩ :=
    writePieces_file settled.sound (settled.closed.trans isOpen) settled.flushed
      SegmentHeader.current.pieces
  refine ⟨sink, ?_, ⟨sound, flushed, stillOpen.trans isOpen.symm⟩, more⟩
  rw [RecordWriter.writeHeader, if_neg (Bool.eq_false_iff.mp isOpen)]
  exact onSink_of_ok wrote

theorem writeRecord (settled : writer.Settled) (isOpen : writer.closed = false) {event : Event}
    {recordId : UInt64} {record : List UInt8} (encoded : event.encode recordId = .ok record) :
    ∃ sink recordsWritten, writer.writeRecord event recordId =
        (.ok record.length, { writer with sink, recordsWritten }) ∧
      Settled { writer with sink, recordsWritten } ∧
      sink.file.content = writer.sink.file.content ++ record := by
  obtain ⟨sink, wrote, sound, stillOpen, flushed, more⟩ :=
    writePieces_file settled.sound (settled.closed.trans isOpen) settled.flushed [record]
  rw [List.flatten_singleton] at more
  have after : Settled { writer with sink, recordsWritten := writer.recordsWritten + 1 } :=
    ⟨sound, flushed, stillOpen.trans isOpen.symm⟩
  have size : ByteSink.bytesWritten sink - ByteSink.bytesWritten writer.sink = record.length := by
    have later := after.bytesWritten_eq
    have earlier := settled.bytesWritten_eq
    simp only [bytesWritten] at later earlier
    rw [later, earlier, more, List.length_append, Nat.add_sub_cancel_left]
  refine ⟨sink, writer.recordsWritten + 1, ?_, after, more⟩
  rw [RecordWriter.writeRecord, if_neg (Bool.eq_false_iff.mp isOpen), encoded]
  simp only [onSink_of_ok wrote, size]

theorem sync (settled : writer.Settled) (isOpen : writer.closed = false) :
    writer.sync = (.ok (), writer) := by
  rw [RecordWriter.sync, isOpen, if_neg Bool.false_ne_true]
  exact onSink_of_ok (FileSink.sync_of_flushed (settled.closed.trans isOpen) settled.flushed)

theorem close (settled : writer.Settled) (isOpen : writer.closed = false) :
    writer.close =
      (.ok (), { writer with sink := { writer.sink with closed := true }, closed := true }) := by
  have sinkOpen := settled.closed.trans isOpen
  have synced := onSink_of_ok (FileSink.sync_of_flushed sinkOpen settled.flushed)
  have shut : writer.closeSink =
      (.ok (), { writer with sink := { writer.sink with closed := true }, closed := true }) := by
    rw [closeSink, onSink_of_ok (FileSink.close_of_flushed sinkOpen settled.flushed)]
  rw [RecordWriter.close, if_neg (Bool.eq_false_iff.mp isOpen), synced]
  by_cases syncs : writer.syncOnClose = true
  · rw [if_pos syncs]
    exact shut
  · rw [if_neg syncs]
    exact shut

end Settled

/-- The directory holds the file of the writer as the writer has left it. -/
structure FiledIn (writer : RecordWriter (FileSink DiskFile)) (directory : Directory) : Prop where
  settled : writer.Settled
  held : directory.content writer.name = .ok writer.sink.file.content

variable {directory : Directory}

theorem filedIn_of_create {made : Directory} {path : String} {config : WriterConfig}
    (created : RecordWriter.create directory path config = .ok (made, writer)) :
    writer.FiledIn made ∧ writer.name = path ∧ writer.closed = false ∧
      writer.sink = .create config.bufferSize := by
  rw [RecordWriter.create] at created
  cases valid : config.validate with
  | error fault =>
      rw [valid] at created
      cases created
  | ok _ =>
      cases emptied : directory.create path with
      | error failure =>
          rw [valid, emptied] at created
          cases created
      | ok filed =>
          rw [valid, emptied] at created
          cases created
          exact ⟨⟨⟨⟨rfl, rfl⟩, rfl, rfl⟩, Directory.content_create emptied⟩, rfl, rfl, rfl⟩

namespace FiledIn

theorem onFile_eq {α : Type} (filed : writer.FiledIn directory)
    (operation : RecordWriter (FileSink DiskFile) → α × RecordWriter (FileSink DiskFile)) :
    writer.onFile directory operation =
      ((operation writer).1, (operation writer).2,
        directory.insert writer.name (operation writer).2.sink.file.content) := by
  have held := (Directory.content_eq_ok.mp filed.held).2
  have same : { writer with sink := writer.sink.refresh writer.sink.file.content } = writer := by
    rw [FileSink.refresh_content]
  rw [onFile, held]
  simp only [Option.getD_some, same]

theorem after {next : RecordWriter (FileSink DiskFile)} (filed : writer.FiledIn directory)
    (settled : next.Settled) (same : next.name = writer.name) :
    next.FiledIn (directory.insert writer.name next.sink.file.content) := by
  refine ⟨settled, ?_⟩
  rw [same]
  exact Directory.content_insert filed.held _

end FiledIn

end RecordWriter

namespace RecordReader

variable {reader : RecordReader FileFeed} {layout : Layout} {path : String} {offset : Nat}
  {content more bytes : List UInt8} {directory : Directory}

/-- What the file has got by now is ahead of the reader as well. -/
theorem Place.onFile (place : reader.Place (FileFeed.Within content) layout path offset bytes)
    (held : directory.get? path = some (content ++ more)) :
    (reader.onFile directory).Place (FileFeed.Within (content ++ more)) layout path offset
      (bytes ++ more) := by
  have here : (directory.get? reader.filename).getD [] = content ++ more := by
    rw [place.filename, held]
    rfl
  obtain ⟨inner, split, within⟩ := place.source.supplied
  rw [RecordReader.onFile, here]
  refine ⟨place.layout, place.filename, place.source.isOpen, place.source.position,
    inner ++ more, ?_, within.refresh more⟩
  rw [split, List.append_assoc]

theorem Place.onFile_same (place : reader.Place (FileFeed.Within content) layout path offset bytes)
    (held : directory.get? path = some content) :
    (reader.onFile directory).Place (FileFeed.Within content) layout path offset bytes := by
  have nothing : directory.get? path = some (content ++ []) := by
    rw [List.append_nil, held]
  have still := place.onFile nothing
  rw [List.append_nil, List.append_nil] at still
  exact still

theorem onFile_onFile (reader : RecordReader FileFeed) (earlier later : Directory) :
    (reader.onFile earlier).onFile later = reader.onFile later := by
  simp only [onFile, FileFeed.refresh_refresh]

end RecordReader

end LineageJournal

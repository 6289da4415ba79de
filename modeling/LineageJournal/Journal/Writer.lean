import LineageJournal.Error
import LineageJournal.Journal.Config
import LineageJournal.Journal.SegmentLock
import LineageJournal.Stream.Directory
import LineageJournal.Text.Quoted
import LineageJournal.Wire.Record

/-! Record writers: they append a header and the records of events to one sink. A record is
encoded in full before any of it reaches the sink, and its size is what the sink's own byte
count has grown by, so a record that cannot be encoded leaves no trace. -/

namespace LineageJournal

open Wire

structure RecordWriter (σ : Type) where
  name : String
  syncOnClose : Bool := false
  sink : σ
  recordsWritten : Nat := 0
  closed : Bool := false
  /-- Guards nothing in the writer; callers coordinate by it, and closing takes it. -/
  lock : SegmentLock := .free

def Wire.SegmentHeader.pieces (header : SegmentHeader) : List (List UInt8) :=
  let identifier := Utf8.encode header.identifier
  [bigEndian 2 identifier.length, identifier, bigEndian 4 header.version.toNat]

namespace RecordWriter

variable {σ : Type} [ByteSink σ]

def create (directory : Directory) (path : String) (config : WriterConfig) :
    Except JournalError (Directory × RecordWriter (FileSink DiskFile)) := do
  config.validate.mapError .config
  let directory ← (directory.create path).mapError .io
  return (directory,
    { name := path
      syncOnClose := config.syncOnClose
      sink := FileSink.create config.bufferSize })

def onSink {α : Type} (writer : RecordWriter σ) (operation : σ → Except Failure α × σ) :
    Except JournalError α × RecordWriter σ :=
  match operation writer.sink with
  | (result, sink) => (result.mapError .io, { writer with sink })

def writePieces (pieces : List (List UInt8)) (sink : σ) : Except Failure Unit × σ :=
  match pieces with
  | [] => ByteSink.flush sink
  | piece :: rest =>
    match writeAll piece sink with
    | (.ok (), next) => writePieces rest next
    | (.error failure, next) => (.error failure, next)

def writeHeader (writer : RecordWriter σ) : Except JournalError Unit × RecordWriter σ :=
  if writer.closed then (.error .closed, writer)
  else writer.onSink (writePieces SegmentHeader.current.pieces)

def writeRecord (writer : RecordWriter σ) (event : Event) (recordId : UInt64) :
    Except JournalError Nat × RecordWriter σ :=
  if writer.closed then (.error .closed, writer)
  else
    match event.encode recordId with
    | .error fault => (.error (.ofEncoding fault), writer)
    | .ok bytes =>
      match writer.onSink (writePieces [bytes]) with
      | (.error error, next) => (.error error, next)
      | (.ok (), next) =>
        (.ok (ByteSink.bytesWritten next.sink - ByteSink.bytesWritten writer.sink),
          { next with recordsWritten := next.recordsWritten + 1 })

def bytesWritten (writer : RecordWriter σ) : Nat := ByteSink.bytesWritten writer.sink

def sync (writer : RecordWriter σ) : Except JournalError Unit × RecordWriter σ :=
  if writer.closed then (.error .closed, writer) else writer.onSink ByteSink.sync

def closeSink (writer : RecordWriter σ) : Except JournalError Unit × RecordWriter σ :=
  match writer.onSink ByteSink.close with
  | (.ok (), next) => (.ok (), { next with closed := true })
  | (.error error, next) => (.error error, next)

/-- Closing a closed writer does nothing. The caller's thread is one that gets the segment
lock, which is given back at the end. -/
def close (writer : RecordWriter σ) : Except JournalError Unit × RecordWriter σ :=
  if writer.closed then (.ok (), writer)
  else if writer.syncOnClose then
    match writer.onSink ByteSink.sync with
    | (.ok (), next) => next.closeSink
    | (.error error, next) => (.error error, next)
  else writer.closeSink

def debugText (writer : RecordWriter σ) : String :=
  "RecordWriter \x7b name: " ++ Quoted.encode writer.name ++ ", records_written: " ++
    toString writer.recordsWritten ++ ", closed: " ++ toString writer.closed ++ ", .. \x7d"

end RecordWriter

end LineageJournal

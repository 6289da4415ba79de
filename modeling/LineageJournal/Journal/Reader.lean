import LineageJournal.Journal.Config
import LineageJournal.Stream.Decoding
import LineageJournal.Stream.Directory
import LineageJournal.Stream.Source
import LineageJournal.Wire.LegacyDecoder

/-! Record readers: they decode the records of one segment in order. The layout is chosen
once, from the segment's version. The cursor moves forward only, and each record is stamped
with the place where it began. -/

namespace LineageJournal

open Wire

structure RecordReader (σ : Type) where
  source : Source σ
  filename : String
  layout : Layout

namespace RecordReader

variable {σ : Type}

def new (feed : σ) (version : UInt32) (filename : String) :
    Except JournalError (RecordReader σ) := do
  let layout ← Layout.ofVersion version
  return { source := { feed }, filename, layout }

def position (reader : RecordReader σ) : Nat := reader.source.consumed

def version (reader : RecordReader σ) : UInt32 := reader.layout.version

/-- Opens a file whose version is known, at its first byte. -/
def openAs (directory : Directory) (path : String) (version : UInt32) (config : ReaderConfig) :
    Except JournalError (RecordReader FileFeed) := do
  config.validate.mapError .config
  let layout ← Layout.ofVersion version
  let feed ← (directory.openToRead path config.bufferSize).mapError .io
  return { source := { feed }, filename := path, layout }

def layoutOf (header : SegmentHeader) : Except JournalError Layout :=
  if !header.isValid then
    let identifier := header.identifier
    .error (.invalidHeader s!"unexpected format identifier '{identifier}'")
  else if !header.isSupported then .error (.unsupportedVersion header.version)
  else Layout.ofVersion header.version

/-- Opens a file by its own header, at its first record. -/
def openSegment (directory : Directory) (path : String) (config : ReaderConfig) :
    Except JournalError (RecordReader FileFeed) := do
  config.validate.mapError .config
  let feed ← (directory.openToRead path config.bufferSize).mapError .io
  match Decoder.header.readFrom { feed : Source FileFeed } with
  | (.error failure, _) => .error (.ofHeader failure)
  | (.ok header, source) =>
    let layout ← layoutOf header
    return { source, filename := path, layout }

section Reading

variable [ByteFeed σ]

/-- Reads a header at the cursor; the layout stays what it is. -/
def readHeader (reader : RecordReader σ) :
    Except JournalError SegmentHeader × RecordReader σ :=
  match Decoder.header.readFrom reader.source with
  | (result, source) => (result.mapError .ofHeader, { reader with source })

/-- Stamps the place where the record began and builds the event. -/
def finish (filename : String) (offset : Nat) (draft : Draft) : Except JournalError Event :=
  (Draft.build { draft with storage := some ⟨filename, UInt64.ofNat offset⟩ }).mapError
    fun error => .malformedRecord offset error.message

def decodeRecord (now : Int64) (reader : RecordReader σ) :
    Except JournalError Event × RecordReader σ :=
  let offset := reader.position
  match (reader.layout.record now).readFrom reader.source with
  | (.error failure, source) => (.error (.ofDecoding offset failure), { reader with source })
  | (.ok draft, source) => (finish reader.filename offset draft, { reader with source })

/-- The record at the cursor, or `none` where the data ends before one. -/
def nextRecord (now : Int64) (reader : RecordReader σ) :
    Except JournalError (Option Event) × RecordReader σ :=
  match readByte (reader.source.setMark 1) with
  | (.error failure, source) => (.error (.io failure), { reader with source })
  | (.ok none, source) => (.ok none, { reader with source })
  | (.ok (some _), source) =>
    match source.reset with
    | (.error failure, source) => (.error (.io failure), { reader with source })
    | (.ok (), source) =>
      match decodeRecord now { reader with source } with
      | (result, next) => (result.map some, next)

def skip (n : Nat) (reader : RecordReader σ) : Except JournalError Unit × RecordReader σ :=
  match skipBytes n reader.source with
  | (result, source) => (result.mapError .io, { reader with source })

/-- Moves the cursor to an offset that is not behind it. -/
def skipTo (target : Nat) (reader : RecordReader σ) :
    Except JournalError Unit × RecordReader σ :=
  if target < reader.position then
    (.error (.illegalSeek target reader.position), reader)
  else skip (target - reader.position) reader

end Reading

end RecordReader

/-- The remaining records of a reader, one at a time, up to the end or the first error. -/
structure Records (σ : Type) where
  reader : RecordReader σ
  finished : Bool := false

namespace Records

variable {σ : Type} [ByteFeed σ]

def next (now : Int64) (records : Records σ) :
    Option (Except JournalError Event) × Records σ :=
  if records.finished then (none, records)
  else
    match records.reader.nextRecord now with
    | (.ok (some event), reader) => (some (.ok event), { records with reader })
    | (.ok none, reader) => (none, { reader, finished := true })
    | (.error error, reader) => (some (.error error), { reader, finished := true })

/-- At most `limit` items; tells whether the records ended before the limit. -/
def take (now : Int64) :
    Nat → Records σ → List (Except JournalError Event) × Bool × Records σ
  | 0, records => ([], false, records)
  | limit + 1, records =>
    match records.next now with
    | (none, rest) => ([], true, rest)
    | (some item, rest) =>
      let (items, ended, rest) := take now limit rest
      (item :: items, ended, rest)

end Records

end LineageJournal

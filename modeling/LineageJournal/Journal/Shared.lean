import LineageJournal.Journal.Reader
import LineageJournal.Journal.Writer

/-! Writers and readers of files that others use as well. Each operation starts from what
the file holds at that moment, and what a writer leaves behind is there for everyone. -/

namespace LineageJournal

variable {α : Type}

/-- Runs an operation of a file writer on the file as it is in the directory. -/
def RecordWriter.onFile (writer : RecordWriter (FileSink DiskFile)) (directory : Directory)
    (operation : RecordWriter (FileSink DiskFile) → α × RecordWriter (FileSink DiskFile)) :
    α × RecordWriter (FileSink DiskFile) × Directory :=
  let content := (directory.get? writer.name).getD []
  match operation { writer with sink := writer.sink.refresh content } with
  | (result, next) => (result, next, directory.insert writer.name next.sink.file.content)

def RecordReader.onFile (reader : RecordReader FileFeed) (directory : Directory) :
    RecordReader FileFeed :=
  let content := (directory.get? reader.filename).getD []
  { reader with source := { reader.source with feed := reader.source.feed.refresh content } }

end LineageJournal

import LineageJournal.Journal.Writer

/-! Files that fail. A limited file has room for so many bytes, and its first writes fail as
often as stated; the device that is always full has room for none. -/

namespace LineageJournal

structure LimitedFile where
  log : ByteLog := ∅
  capacity : Option Nat := none
  failingWrites : Nat := 0
  /-- What comes of forcing the data to stable storage, if that fails. -/
  syncFailure : Option Failure := none
  deriving DecidableEq, Repr

namespace LimitedFile

def content (file : LimitedFile) : List UInt8 := file.log.toList

def noSpace : Failure := ⟨.storageFull, "No space left on device (os error 28)"⟩

def notSyncable : Failure := ⟨.invalidInput, "Invalid argument (os error 22)"⟩

def room (file : LimitedFile) (wanted : Nat) : Nat :=
  match file.capacity with
  | some capacity => capacity - file.log.size
  | none => wanted

def write (bytes : List UInt8) (file : LimitedFile) : Except Failure Nat × LimitedFile :=
  match file.failingWrites with
  | left + 1 => (.error noSpace, { file with failingWrites := left })
  | 0 =>
    if 0 < bytes.length ∧ file.room bytes.length = 0 then (.error noSpace, file)
    else
      let taken := min bytes.length (file.room bytes.length)
      (.ok taken, { file with log := file.log.append (bytes.take taken) })

def sync (file : LimitedFile) : Except Failure Unit × LimitedFile :=
  match file.syncFailure with
  | some failure => (.error failure, file)
  | none => (.ok (), file)

theorem write_error {bytes : List UInt8} {file next : LimitedFile} {failure : Failure}
    (written : file.write bytes = (.error failure, next)) :
    failure = noSpace ∧ next.log = file.log := by
  unfold write at written
  split at written
  · cases written
    exact ⟨rfl, rfl⟩
  · split at written
    · cases written
      exact ⟨rfl, rfl⟩
    · cases written

instance : BackingFile LimitedFile where
  write := write
  sync := sync
  patience _ := 0
  patience_of_write _ := Nat.le_refl 0
  patience_of_interrupted written interrupted := by
    rw [(write_error written).1] at interrupted
    cases interrupted

/-- The name under which the full device is found in every directory. -/
def fullDeviceName : String := "/dev/full"

def fullDevice : LimitedFile := { capacity := some 0, syncFailure := some notSyncable }

end LimitedFile

def RecordWriter.createOn {φ : Type} (file : φ) (path : String) (config : WriterConfig) :
    Except JournalError (RecordWriter (FileSink φ)) := do
  config.validate.mapError .config
  return { name := path
           syncOnClose := config.syncOnClose
           sink := { file, capacity := config.bufferSize } }

end LineageJournal

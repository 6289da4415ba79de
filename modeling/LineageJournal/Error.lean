import LineageJournal.Failure
import LineageJournal.Wire.Fault
import LineageJournal.Wire.Header

/-! Errors of journal operations. Each is a cause; `message` words it. Reading never recovers
by itself: after a malformed record or a device failure the cursor is nowhere useful. -/

namespace LineageJournal

inductive ConfigError where
  | bufferTooSmall (size : Nat)
  deriving DecidableEq, Repr

def ConfigError.message : ConfigError → String
  | .bufferTooSmall size => s!"Buffer size must be at least 1KB (got {size} bytes)"

inductive JournalError where
  | unsupportedVersion (version : UInt32)
  /-- The record that begins at `offset` cannot be decoded. -/
  | malformedRecord (offset : Nat) (reason : String)
  /-- A jump to `requested`, behind the cursor at `current`. -/
  | illegalSeek (requested current : Nat)
  | stringTooLong (field : String) (length limit : Nat)
  | invalidHeader (detail : String)
  /-- The writer was used after it was closed. -/
  | closed
  | config (error : ConfigError)
  | io (failure : Failure)
  deriving DecidableEq, Repr

namespace JournalError

def message : JournalError → String
  | unsupportedVersion version =>
      s!"Unsupported serialization version {version}: supported versions are " ++
        s!"{Wire.oldestVersion}-{Wire.currentVersion}"
  | malformedRecord offset reason => s!"Malformed record at offset {offset}: {reason}"
  | illegalSeek requested current =>
      s!"Cannot skip to byte offset {requested}: already at byte offset {current}"
  | stringTooLong field length limit =>
      s!"Field {field} is {length} bytes; limit is {limit} bytes"
  | invalidHeader detail => s!"Invalid segment header: {detail}"
  | closed => "Record writer is closed"
  | config error => "Invalid config: " ++ error.message
  | io failure => "I/O error: " ++ failure.message

def isMalformed : JournalError → Bool
  | malformedRecord _ _ => true
  | _ => false

/-- Sorts a failure met while decoding the record at `offset`: running out of bytes and wrong
bytes are faults of the record, anything else is the device's. -/
def ofDecoding (offset : Nat) (failure : Failure) : JournalError :=
  match failure.kind with
  | .unexpectedEof => .malformedRecord offset ("record truncated: " ++ failure.message)
  | .invalidData => .malformedRecord offset failure.message
  | _ => .io failure

def ofHeader (failure : Failure) : JournalError :=
  match failure.kind with
  | .unexpectedEof => .invalidHeader "segment header is truncated"
  | .invalidData => .invalidHeader failure.message
  | _ => .io failure

def ofEncoding : Wire.EncodeFault → JournalError
  | .stringTooLong field length limit => .stringTooLong field length limit
  | .tooManyEntries count =>
      .io ⟨.invalidInput, s!"collection of {count} entries cannot be encoded"⟩

end JournalError

end LineageJournal

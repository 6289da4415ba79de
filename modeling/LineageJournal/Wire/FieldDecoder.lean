import LineageJournal.Text.ModifiedUtf8
import LineageJournal.Wire.Decoder
import LineageJournal.Wire.Field

/-! Decoders of single fields. Each asks for exactly the bytes of its field. -/

namespace LineageJournal.Wire

namespace Decoder

variable {α : Type}

def word (width : Nat) : Decoder Nat :=
  take width .whole fun bytes => done (ofBigEndian bytes)

def uint64 : Decoder UInt64 := do return UInt64.ofNat (← word 8)

def millis : Decoder Int64 := do return (← uint64).toInt64

/-- Any byte but zero is a raised flag. -/
def flag : Decoder Bool := do return (← word 1) != 0

def count : Decoder Nat := do
  let n := signed32 (← word 4)
  if n < 0 then fail (.negativeCount n) else return n.toNat

/-- Reads standard UTF-8, or failing that modified UTF-8. -/
def textOfShort (bytes : List UInt8) : Decoder String :=
  match Utf8.decode bytes with
  | .ok text => done text
  | .error _ =>
    match ModifiedUtf8.decode? bytes with
    | some text => done text
    | none => fail .notText

def short : Decoder String := do
  let length ← word 2
  take length .whole textOfShort

/-- Reads standard UTF-8 only. -/
def textOfLong (bytes : List UInt8) : Decoder String :=
  match Utf8.decode bytes with
  | .ok text => done text
  | .error fault => fail (.notUtf8 fault)

def long : Decoder String := do
  let length := signed32 (← word 4)
  if length < 0 then fail (.negativeLength length)
  else take length.toNat .blocks textOfLong

def nullable (present : Decoder α) : Decoder (Option α) := do
  if ← flag then return some (← present) else return none

def uuid : Decoder Uuid := do
  let high ← uint64
  let low ← uint64
  return ⟨high, low⟩

def counted (item : Decoder α) : Decoder (List α) := do
  let n ← count
  times item n

def uuids : Decoder (List Uuid) := counted uuid

def parseUuid (text : String) : Decoder Uuid :=
  match Uuid.ofText? text with
  | some id => done id
  | none => fail (.badUuid text)

def textUuid : Decoder Uuid := do parseUuid (← short)

def textUuids : Decoder (List Uuid) := counted textUuid

def attributeEntry : Decoder (String × String) := do
  let key ← long
  let value ← long
  return (key, value)

def updateEntry : Decoder (String × Option String) := do
  let key ← long
  let value ← nullable long
  return (key, value)

/-- Of equal keys the last one counts. -/
def attributes : Decoder Attributes := do return SortedMap.ofList (← counted attributeEntry)

def updates : Decoder AttributeUpdates := do return SortedMap.ofList (← counted updateEntry)

def header : Decoder SegmentHeader := do
  let identifier ← short
  let version ← word 4
  return ⟨identifier, UInt32.ofNat version⟩

def eventKind : Decoder EventKind := do
  let name ← short
  match EventKind.ofName? name with
  | some kind => return kind
  | none => fail (.unknownKind name)

end Decoder

inductive FieldKind where
  | flag
  | count
  | word
  | millis
  | short
  | nullableShort
  | long
  | nullableLong
  | uuid
  | uuids
  | textUuids
  | attributes
  | updates
  | header
  deriving DecidableEq, Repr

def FieldValue.kind : FieldValue → FieldKind
  | flag _ => .flag
  | count _ => .count
  | word _ => .word
  | millis _ => .millis
  | short _ => .short
  | nullableShort _ => .nullableShort
  | long _ => .long
  | nullableLong _ => .nullableLong
  | uuid _ => .uuid
  | uuids _ => .uuids
  | attributes _ => .attributes
  | updates _ => .updates
  | header _ => .header

def FieldKind.decoder : FieldKind → Decoder FieldValue
  | flag => do return .flag (← Decoder.flag)
  | count => do return .count (← Decoder.count)
  | word => do return .word (← Decoder.uint64)
  | millis => do return .millis (← Decoder.millis)
  | short => do return .short (← Decoder.short)
  | nullableShort => do return .nullableShort (← Decoder.nullable Decoder.short)
  | long => do return .long (← Decoder.long)
  | nullableLong => do return .nullableLong (← Decoder.nullable Decoder.long)
  | uuid => do return .uuid (← Decoder.uuid)
  | uuids => do return .uuids (← Decoder.uuids)
  | textUuids => do return .uuids (← Decoder.textUuids)
  | attributes => do return .attributes (← Decoder.attributes)
  | updates => do return .updates (← Decoder.updates)
  | header => do return .header (← Decoder.header)

end LineageJournal.Wire

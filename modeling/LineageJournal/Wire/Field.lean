import LineageJournal.Event
import LineageJournal.Text.Utf8
import LineageJournal.Wire.Emission
import LineageJournal.Wire.Header
import LineageJournal.Wire.Word

/-! The fields that records and headers are made of, and their bytes. Short strings have a
two-byte length, long strings and collections a signed four-byte one, and an absent value is
a single zero flag. -/

namespace LineageJournal.Wire

def maxShortLength : Nat := 65535

/-- Also the largest count of a collection. -/
def maxLongLength : Nat := 2147483647

/-- A value together with the kind of field that holds it. -/
inductive FieldValue where
  | flag (value : Bool)
  | count (value : Nat)
  | word (value : UInt64)
  | millis (value : Int64)
  | short (text : String)
  | nullableShort (text : Option String)
  | long (text : String)
  | nullableLong (text : Option String)
  | uuid (id : Uuid)
  | uuids (ids : List Uuid)
  | attributes (map : Attributes)
  | updates (map : AttributeUpdates)
  | header (header : SegmentHeader)
  deriving DecidableEq

/-- A value under the name that faults report. -/
structure Field where
  name : String := ""
  value : FieldValue
  deriving DecidableEq

namespace Emission

def flag (value : Bool) : Emission := { bytes := [if value then 1 else 0] }

def word (width n : Nat) : Emission := { bytes := bigEndian width n }

def count (n : Nat) : Emission :=
  if n ≤ maxLongLength then word 4 n else refuse (.tooManyEntries n)

def sized (width limit : Nat) (field text : String) : Emission :=
  let bytes := Utf8.encode text
  if bytes.length ≤ limit then { bytes := bigEndian width bytes.length ++ bytes }
  else refuse (.stringTooLong field bytes.length limit)

def short (field text : String) : Emission := sized 2 maxShortLength field text

def long (field text : String) : Emission := sized 4 maxLongLength field text

def nullable {α : Type} (present : α → Emission) : Option α → Emission
  | some value => flag true ++ present value
  | none => flag false

def uuid (id : Uuid) : Emission := word 8 id.high.toNat ++ word 8 id.low.toNat

def counted {α : Type} (item : α → Emission) (items : List α) : Emission :=
  count items.length ++ concat (items.map item)

def attributeEntry (entry : String × String) : Emission :=
  long "attribute key" entry.1 ++ long "attribute value" entry.2

def updateEntry (entry : String × Option String) : Emission :=
  long "attribute key" entry.1 ++ nullable (long "attribute value") entry.2

def header (header : SegmentHeader) : Emission :=
  short "format_identifier" header.identifier ++ word 4 header.version.toNat

end Emission

def Field.emit (field : Field) : Emission :=
  match field.value with
  | .flag value => .flag value
  | .count value => .count value
  | .word value => .word 8 value.toNat
  | .millis value => .word 8 value.toUInt64.toNat
  | .short text => .short field.name text
  | .nullableShort text => .nullable (.short field.name) text
  | .long text => .long field.name text
  | .nullableLong text => .nullable (.long field.name) text
  | .uuid id => .uuid id
  | .uuids ids => .counted .uuid ids
  | .attributes map => .counted .attributeEntry map.entries
  | .updates map => .counted .updateEntry map.entries
  | .header header => .header header

def emitAll (fields : List Field) : Emission := .concat (fields.map Field.emit)

end LineageJournal.Wire

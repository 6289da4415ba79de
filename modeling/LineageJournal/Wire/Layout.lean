import LineageJournal.Error

/-! Record layouts. A segment's version selects one layout, and every record of the segment
has it; the newest layout is the one that is written. -/

namespace LineageJournal.Wire

/-- Versions with the old field order. -/
inductive LegacyVersion where
  | v1
  | v2
  | v3
  | v4
  | v5
  deriving DecidableEq, Repr

namespace LegacyVersion

def number : LegacyVersion → UInt32
  | v1 => 1
  | v2 => 2
  | v3 => 3
  | v4 => 4
  | v5 => 5

/-- Only this version gives each event an identifier of its own. -/
def hasEventUuid (version : LegacyVersion) : Bool := version == v4

def hasDuration (version : LegacyVersion) : Bool := 4 ≤ version.number

def hasChildren (version : LegacyVersion) : Bool := 3 ≤ version.number

def hasSourceSystemId (version : LegacyVersion) : Bool := 4 ≤ version.number

end LegacyVersion

inductive Layout where
  | legacy (version : LegacyVersion)
  /-- The modern field order with a bare content size and one attribute map. -/
  | sized
  /-- The modern field order with content claims and attribute changes. -/
  | claimed
  deriving DecidableEq, Repr

namespace Layout

def current : Layout := claimed

def version : Layout → UInt32
  | legacy version => version.number
  | sized => 6
  | claimed => currentVersion

def ofVersion (version : UInt32) : Except JournalError Layout :=
  match version with
  | 1 => .ok (legacy .v1)
  | 2 => .ok (legacy .v2)
  | 3 => .ok (legacy .v3)
  | 4 => .ok (legacy .v4)
  | 5 => .ok (legacy .v5)
  | 6 => .ok sized
  | 7 => .ok claimed
  | _ => .error (.unsupportedVersion version)

end Layout

end LineageJournal.Wire

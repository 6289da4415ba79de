import LineageJournal.Text.Utf8

/-! Segment headers: the identifier of the format and the version of every record that
follows. A segment begins with one. -/

namespace LineageJournal.Wire

/-- The identifier found in archived segments, kept so that they pass validation. -/
def formatIdentifier : String := "org.apache.nifi.provenance.PersistentProvenanceRepository"

def currentVersion : UInt32 := 7

def oldestVersion : UInt32 := 1

structure SegmentHeader where
  identifier : String
  version : UInt32
  deriving DecidableEq, Repr

namespace SegmentHeader

def current : SegmentHeader := ⟨formatIdentifier, currentVersion⟩

def encodedLength (header : SegmentHeader) : Nat :=
  2 + (Utf8.encode header.identifier).length + 4

def isValid (header : SegmentHeader) : Bool := header.identifier == formatIdentifier

def isSupported (header : SegmentHeader) : Bool :=
  oldestVersion ≤ header.version && header.version ≤ currentVersion

end SegmentHeader

end LineageJournal.Wire

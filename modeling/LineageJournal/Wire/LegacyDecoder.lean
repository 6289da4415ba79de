import LineageJournal.Wire.Layout
import LineageJournal.Wire.ModernDecoder

/-! Decoder of the legacy layouts. They differ in four fields, which are present or not by
version. No entry date was recorded, so the time of reading stands in for it. -/

namespace LineageJournal.Wire

namespace Decoder

variable {α : Type}

def onlyIf (present : Bool) (absent : α) (field : Decoder α) : Decoder α :=
  if present then field else done absent

def nullableTextUuid : Decoder (Option Uuid) := do
  match ← nullable short with
  | some text => return some (← parseUuid text)
  | none => return none

def legacyRecord (version : LegacyVersion) (now : Int64) : Decoder Draft := do
  let eventId ← uint64
  let _ ← onlyIf version.hasEventUuid "" short
  let kind ← eventKind
  let eventTime ← millis
  let duration ← onlyIf version.hasDuration (-1) millis
  let _ ← uint64
  let size ← uint64
  let componentId ← nullable short
  let componentType ← nullable short
  let flowFile ← nullableTextUuid
  let parents ← textUuids
  let children ← onlyIf version.hasChildren [] textUuids
  let sourceUri ← nullable short
  let sourceSystemId ← onlyIf version.hasSourceSystemId none (nullable short)
  let destinationUri ← nullable short
  let _ ← nullable short
  let alternateUri ← nullable short
  let flat ← attributes
  return {
    eventId
    kind := some kind
    eventTime
    entryDate := now
    duration
    flowFile := flowFile.getD Uuid.nil
    componentId
    componentType
    transitUri := sourceUri.or destinationUri
    alternateUri
    sourceSystemId
    updatedAttributes := asUpdates flat
    currentClaim := .sizeOnly size
    parents
    children }

end Decoder

def Layout.record (layout : Layout) (now : Int64) : Decoder Draft :=
  match layout with
  | legacy version => .legacyRecord version now
  | sized => .sizedRecord
  | claimed => .claimedRecord

end LineageJournal.Wire

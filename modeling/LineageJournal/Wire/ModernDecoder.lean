import LineageJournal.Event.Draft
import LineageJournal.Wire.FieldDecoder

/-! Decoders of the two modern layouts. They share the fields up to the lineage start and
those that depend on the kind of event; between them the newer layout has content claims and
attribute changes where the older one has a content size and one attribute map. -/

namespace LineageJournal.Wire

/-- Attributes with no snapshot before them are changes to nothing. -/
def asUpdates (attributes : Attributes) : AttributeUpdates := attributes.mapValues some

namespace Decoder

def claim : Decoder ContentClaim := do
  let container ← short
  let sectionName ← short
  let identifier ← short
  let offset ← uint64
  let size ← uint64
  return .located container sectionName identifier offset size

def modernHead : Decoder (EventKind × Draft) := do
  let eventId ← uint64
  let kind ← eventKind
  let eventTime ← millis
  let entryDate ← millis
  let duration ← millis
  let lineage ← uuids
  let lineageStart ← millis
  return (kind,
    { eventId, kind := some kind, eventTime, entryDate, duration,
      lineage := UuidSet.ofList lineage, lineageStart })

def modernTail (kind : EventKind) (draft : Draft) : Decoder Draft :=
  match kind with
  | .fork | .join | .clone | .replay => do
      let parents ← uuids
      let children ← uuids
      return { draft with parents, children }
  | .receive => do
      let transitUri ← nullable short
      let sourceSystemId ← nullable short
      return { draft with transitUri, sourceSystemId }
  | .send => do return { draft with transitUri := ← nullable short }
  | .addInfo => do return { draft with alternateUri := ← nullable short }
  | .route => do return { draft with relationship := ← nullable short }
  | _ => return draft

def component (draft : Draft) : Decoder Draft := do
  let componentId ← nullable short
  let componentType ← nullable short
  let flowFile ← uuid
  let details ← nullable short
  return { draft with componentId, componentType, flowFile, details }

def sizedRecord : Decoder Draft := do
  let (kind, head) ← modernHead
  let size ← uint64
  let draft ← component head
  let flat ← attributes
  modernTail kind
    { draft with currentClaim := .sizeOnly size, updatedAttributes := asUpdates flat }

def claimedRecord : Decoder Draft := do
  let (kind, head) ← modernHead
  let draft ← component head
  let previousAttributes ← attributes
  let updatedAttributes ← updates
  let currentClaim ← nullable claim
  let previousClaim ← nullable claim
  let sourceQueue ← nullable short
  modernTail kind
    { draft with
      previousAttributes
      updatedAttributes
      currentClaim := currentClaim.getD {}
      previousClaim
      sourceQueue }

end Decoder

end LineageJournal.Wire

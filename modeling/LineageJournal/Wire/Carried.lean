import LineageJournal.Wire.Record

/-! What a record carries. Reading a record of the current layout gives back the event that
was written, less its unresolved claims, the fields of other kinds of event and the place it
was read from before. -/

namespace LineageJournal

def ContentClaim.carried (claim : ContentClaim) : Option ContentClaim :=
  if claim.isResolved then some claim.withDefaultOffset else none

namespace EventKind

def carriesTransitUri (kind : EventKind) : Bool := kind == receive || kind == send

def carriesSourceSystemId (kind : EventKind) : Bool := kind == receive

def carriesAlternateUri (kind : EventKind) : Bool := kind == addInfo

def carriesRelationship (kind : EventKind) : Bool := kind == route

end EventKind

namespace Event

/-- The event as its record under the given id carries it. -/
def carried (event : Event) (recordId : UInt64) : Event :=
  { event with
    eventId := recordId
    transitUri := if event.kind.carriesTransitUri then event.transitUri else none
    alternateUri := if event.kind.carriesAlternateUri then event.alternateUri else none
    relationship := if event.kind.carriesRelationship then event.relationship else none
    sourceSystemId := if event.kind.carriesSourceSystemId then event.sourceSystemId else none
    currentClaim := event.currentClaim.carried.getD {}
    previousClaim := event.previousClaim.bind ContentClaim.carried
    parents := if event.kind.carriesLineageLists then event.parents else []
    children := if event.kind.carriesLineageLists then event.children else []
    storage := none }

end Event

end LineageJournal

import LineageJournal.Event

/-! Drafts of events. A draft starts from defaults, takes edits in any order and is built
into an event once it has a kind, the only required field. Fields are not checked against
each other. -/

namespace LineageJournal

inductive BuildError where
  | missingRequiredField (field : String)
  deriving DecidableEq, Repr

def BuildError.message : BuildError → String
  | .missingRequiredField field => s!"Missing required field: {field}"

structure Draft where
  eventId : UInt64 := 0
  kind : Option EventKind := none
  eventTime : Int64 := 0
  entryDate : Int64 := 0
  duration : Int64 := -1
  lineageStart : Int64 := -1
  flowFile : Uuid := Uuid.nil
  lineage : UuidSet := ∅
  componentId : Option String := none
  componentType : Option String := none
  details : Option String := none
  sourceQueue : Option String := none
  transitUri : Option String := none
  alternateUri : Option String := none
  relationship : Option String := none
  sourceSystemId : Option String := none
  previousAttributes : Attributes := ∅
  updatedAttributes : AttributeUpdates := ∅
  currentClaim : ContentClaim := {}
  previousClaim : Option ContentClaim := none
  parents : List Uuid := []
  children : List Uuid := []
  storage : Option StorageLocation := none
  deriving DecidableEq

namespace Draft

/-- One change to a draft. `attributes` replaces both attribute maps, `lineage` the whole
set; the `add` edits extend what is there. -/
inductive Edit where
  | eventId (id : UInt64)
  | kind (kind : EventKind)
  | eventTime (millis : Int64)
  | entryDate (millis : Int64)
  | duration (millis : Int64)
  | lineageStart (millis : Int64)
  | flowFile (id : Uuid)
  | lineage (ids : List Uuid)
  | addLineage (id : Uuid)
  | componentId (value : Option String)
  | componentType (value : Option String)
  | details (value : Option String)
  | sourceQueue (value : Option String)
  | transitUri (value : Option String)
  | alternateUri (value : Option String)
  | relationship (value : Option String)
  | sourceSystemId (value : Option String)
  | attributes (previous : Attributes) (updates : AttributeUpdates)
  | previousAttribute (key value : String)
  | updatedAttribute (key : String) (value : Option String)
  | currentClaim (claim : ContentClaim)
  | previousClaim (claim : ContentClaim)
  | addParent (id : Uuid)
  | addChild (id : Uuid)
  | storage (filename : String) (offset : UInt64)

def apply (draft : Draft) : Edit → Draft
  | .eventId id => { draft with eventId := id }
  | .kind kind => { draft with kind := some kind }
  | .eventTime millis => { draft with eventTime := millis }
  | .entryDate millis => { draft with entryDate := millis }
  | .duration millis => { draft with duration := millis }
  | .lineageStart millis => { draft with lineageStart := millis }
  | .flowFile id => { draft with flowFile := id }
  | .lineage ids => { draft with lineage := UuidSet.ofList ids }
  | .addLineage id => { draft with lineage := UuidSet.insert draft.lineage id }
  | .componentId value => { draft with componentId := value }
  | .componentType value => { draft with componentType := value }
  | .details value => { draft with details := value }
  | .sourceQueue value => { draft with sourceQueue := value }
  | .transitUri value => { draft with transitUri := value }
  | .alternateUri value => { draft with alternateUri := value }
  | .relationship value => { draft with relationship := value }
  | .sourceSystemId value => { draft with sourceSystemId := value }
  | .attributes previous updates =>
      { draft with previousAttributes := previous, updatedAttributes := updates }
  | .previousAttribute key value =>
      { draft with previousAttributes := draft.previousAttributes.insert key value }
  | .updatedAttribute key value =>
      { draft with updatedAttributes := draft.updatedAttributes.insert key value }
  | .currentClaim claim => { draft with currentClaim := claim }
  | .previousClaim claim => { draft with previousClaim := some claim }
  | .addParent id => { draft with parents := draft.parents ++ [id] }
  | .addChild id => { draft with children := draft.children ++ [id] }
  | .storage filename offset => { draft with storage := some ⟨filename, offset⟩ }

def ofEdits (edits : List Edit) : Draft := edits.foldl apply {}

/-- Resolved claims get an offset here; nothing else about the fields changes. -/
def build (draft : Draft) : Except BuildError Event :=
  match draft.kind with
  | none => .error (.missingRequiredField "event_type")
  | some kind => .ok
    { eventId := draft.eventId
      kind
      eventTime := draft.eventTime
      entryDate := draft.entryDate
      duration := draft.duration
      lineageStart := draft.lineageStart
      flowFile := draft.flowFile
      lineage := draft.lineage
      componentId := draft.componentId
      componentType := draft.componentType
      details := draft.details
      sourceQueue := draft.sourceQueue
      transitUri := draft.transitUri
      alternateUri := draft.alternateUri
      relationship := draft.relationship
      sourceSystemId := draft.sourceSystemId
      previousAttributes := draft.previousAttributes
      updatedAttributes := draft.updatedAttributes
      currentClaim := draft.currentClaim.withDefaultOffset
      previousClaim := draft.previousClaim.map ContentClaim.withDefaultOffset
      parents := draft.parents
      children := draft.children
      storage := draft.storage }

end Draft

end LineageJournal

import LineageJournal.Event
import LineageJournal.Json.Tree

/-! The JSON form of events: one member for each field, maps as objects, absent values as
null and identifiers as hyphenated text. -/

namespace LineageJournal

namespace EventKind

def capitalized : EventKind → String
  | create => "Create"
  | receive => "Receive"
  | send => "Send"
  | drop => "Drop"
  | expire => "Expire"
  | fork => "Fork"
  | join => "Join"
  | clone => "Clone"
  | contentModified => "ContentModified"
  | attributesModified => "AttributesModified"
  | route => "Route"
  | addInfo => "AddInfo"
  | replay => "Replay"
  | unknown => "Unknown"

def screaming (capitalized : String) : String :=
  match capitalized.toList with
  | [] => ""
  | first :: rest =>
    String.ofList (first.toUpper ::
      rest.flatMap fun c => if c.isUpper then ['_', c] else [c.toUpper])

/-- The text of the kind in JSON. It is formed by rule, with one exception. -/
def jsonName : EventKind → String
  | addInfo => "ADDINFO"
  | kind => screaming kind.capitalized

def ofJsonName? (text : String) : Option EventKind := all.find? fun kind => kind.jsonName = text

def toJson (kind : EventKind) : Json := .text kind.jsonName

/-- Reads the text of a kind, alone or as the only key of an object with a null value. -/
def ofJson? : Json → Option EventKind
  | .text name => ofJsonName? name
  | .object [(some name, .null)] => ofJsonName? name
  | _ => none

end EventKind

namespace ContentClaim

def fieldNames : List String := ["container", "section", "identifier", "offset", "size"]

def members (claim : ContentClaim) : List (String × Json) :=
  [("container", .ofText claim.container),
    ("section", .ofText claim.sectionName),
    ("identifier", .ofText claim.identifier),
    ("offset", .ofOption (fun offset => .integer offset.toNat) claim.offset),
    ("size", .integer claim.size.toNat)]

def toJson (claim : ContentClaim) : Json := .record claim.members

def ofJson? (json : Json) : Option ContentClaim := do
  let fields ← json.fields? fieldNames
  let container ← Json.optional? fields "container" Json.text?
  let sectionName ← Json.optional? fields "section" Json.text?
  let identifier ← Json.optional? fields "identifier" Json.text?
  let offset ← Json.optional? fields "offset" Json.uint64?
  let size ← Json.required? fields "size" Json.uint64?
  return { container, sectionName, identifier, offset, size }

end ContentClaim

namespace StorageLocation

def fieldNames : List String := ["filename", "offset"]

def members (location : StorageLocation) : List (String × Json) :=
  [("filename", .text location.filename), ("offset", .integer location.offset.toNat)]

def toJson (location : StorageLocation) : Json := .record location.members

def ofJson? (json : Json) : Option StorageLocation := do
  let fields ← json.fields? fieldNames
  let filename ← Json.required? fields "filename" Json.text?
  let offset ← Json.required? fields "offset" Json.uint64?
  return { filename, offset }

end StorageLocation

namespace Event

def fieldNames : List String :=
  ["event_id", "event_type", "event_time", "flow_file_entry_date", "event_duration",
    "lineage_start_date", "flow_file_uuid", "lineage_identifiers", "component_id",
    "component_type", "details", "source_queue_identifier", "transit_uri",
    "alternate_identifier_uri", "relationship", "source_system_flow_file_identifier",
    "previous_attributes", "updated_attributes", "current_claim", "previous_claim",
    "parent_uuids", "child_uuids", "storage_location"]

def members (event : Event) : List (String × Json) :=
  [("event_id", .integer event.eventId.toNat),
    ("event_type", event.kind.toJson),
    ("event_time", .integer event.eventTime.toInt),
    ("flow_file_entry_date", .integer event.entryDate.toInt),
    ("event_duration", .integer event.duration.toInt),
    ("lineage_start_date", .integer event.lineageStart.toInt),
    ("flow_file_uuid", .ofUuid event.flowFile),
    ("lineage_identifiers", .array (event.lineage.toList.map .ofUuid)),
    ("component_id", .ofText event.componentId),
    ("component_type", .ofText event.componentType),
    ("details", .ofText event.details),
    ("source_queue_identifier", .ofText event.sourceQueue),
    ("transit_uri", .ofText event.transitUri),
    ("alternate_identifier_uri", .ofText event.alternateUri),
    ("relationship", .ofText event.relationship),
    ("source_system_flow_file_identifier", .ofText event.sourceSystemId),
    ("previous_attributes", .ofMap .text event.previousAttributes),
    ("updated_attributes", .ofMap .ofText event.updatedAttributes),
    ("current_claim", event.currentClaim.toJson),
    ("previous_claim", .ofOption ContentClaim.toJson event.previousClaim),
    ("parent_uuids", .array (event.parents.map .ofUuid)),
    ("child_uuids", .array (event.children.map .ofUuid)),
    ("storage_location", .ofOption StorageLocation.toJson event.storage)]

def toJson (event : Event) : Json := .record event.members

def ofJson? (json : Json) : Option Event := do
  let fields ← json.fields? fieldNames
  let eventId ← Json.required? fields "event_id" Json.uint64?
  let kind ← Json.required? fields "event_type" EventKind.ofJson?
  let eventTime ← Json.required? fields "event_time" Json.int64?
  let entryDate ← Json.required? fields "flow_file_entry_date" Json.int64?
  let duration ← Json.required? fields "event_duration" Json.int64?
  let lineageStart ← Json.required? fields "lineage_start_date" Json.int64?
  let flowFile ← Json.required? fields "flow_file_uuid" Json.uuid?
  let lineage ← Json.required? fields "lineage_identifiers" (Json.list? Json.uuid?)
  let componentId ← Json.optional? fields "component_id" Json.text?
  let componentType ← Json.optional? fields "component_type" Json.text?
  let details ← Json.optional? fields "details" Json.text?
  let sourceQueue ← Json.optional? fields "source_queue_identifier" Json.text?
  let transitUri ← Json.optional? fields "transit_uri" Json.text?
  let alternateUri ← Json.optional? fields "alternate_identifier_uri" Json.text?
  let relationship ← Json.optional? fields "relationship" Json.text?
  let sourceSystemId ← Json.optional? fields "source_system_flow_file_identifier" Json.text?
  let previousAttributes ← Json.required? fields "previous_attributes" (Json.map? Json.text?)
  let updatedAttributes ←
    Json.required? fields "updated_attributes" (Json.map? (Json.option? Json.text?))
  let currentClaim ← Json.required? fields "current_claim" ContentClaim.ofJson?
  let previousClaim ← Json.optional? fields "previous_claim" ContentClaim.ofJson?
  let parents ← Json.required? fields "parent_uuids" (Json.list? Json.uuid?)
  let children ← Json.required? fields "child_uuids" (Json.list? Json.uuid?)
  let storage ← Json.optional? fields "storage_location" StorageLocation.ofJson?
  return {
    eventId, kind, eventTime, entryDate, duration, lineageStart, flowFile
    lineage := UuidSet.ofList lineage
    componentId, componentType, details, sourceQueue, transitUri, alternateUri, relationship
    sourceSystemId, previousAttributes, updatedAttributes, currentClaim, previousClaim
    parents, children, storage }

end Event

end LineageJournal

import LineageJournal.Wire.Field

/-! Records of the current layout: the fields that an event is written as, in wire order,
and their bytes. A record carries only the fields of its kind of event and only resolved
claims. -/

namespace LineageJournal

open Wire

namespace ContentClaim

def fieldsOf (container sectionName identifier : String) (offset : Option UInt64)
    (size : UInt64) : List Field :=
  [{ value := .flag true },
    { name := "claim_container", value := .short container },
    { name := "claim_section", value := .short sectionName },
    { name := "claim_identifier", value := .short identifier },
    { value := .word (offset.getD 0) },
    { value := .word size }]

/-- A claim that is missing or not resolved is a single flag. -/
def fields : Option ContentClaim → List Field
  | some ⟨some container, some sectionName, some identifier, offset, size⟩ =>
      fieldsOf container sectionName identifier offset size
  | _ => [{ value := .flag false }]

end ContentClaim

namespace Event

def tailFields (event : Event) : List Field :=
  match event.kind with
  | .fork | .join | .clone | .replay =>
      [{ value := .uuids event.parents }, { value := .uuids event.children }]
  | .receive =>
      [{ name := "transit_uri", value := .nullableShort event.transitUri },
        { name := "source_system_flow_file_identifier",
          value := .nullableShort event.sourceSystemId }]
  | .send => [{ name := "transit_uri", value := .nullableShort event.transitUri }]
  | .addInfo =>
      [{ name := "alternate_identifier_uri", value := .nullableShort event.alternateUri }]
  | .route => [{ name := "relationship", value := .nullableShort event.relationship }]
  | _ => []

def fields (event : Event) (recordId : UInt64) : List Field :=
  [{ value := .word recordId },
    { name := "event_type", value := .short event.kind.name },
    { value := .millis event.eventTime },
    { value := .millis event.entryDate },
    { value := .millis event.duration },
    { value := .uuids event.lineage.toList },
    { value := .millis event.lineageStart },
    { name := "component_id", value := .nullableShort event.componentId },
    { name := "component_type", value := .nullableShort event.componentType },
    { value := .uuid event.flowFile },
    { name := "details", value := .nullableShort event.details },
    { value := .attributes event.previousAttributes },
    { value := .updates event.updatedAttributes }] ++
  ContentClaim.fields (some event.currentClaim) ++
  ContentClaim.fields event.previousClaim ++
  { name := "source_queue_identifier", value := .nullableShort event.sourceQueue } ::
  event.tailFields

def encode (event : Event) (recordId : UInt64) : Except EncodeFault (List UInt8) :=
  (emitAll (event.fields recordId)).toExcept

end Event

end LineageJournal

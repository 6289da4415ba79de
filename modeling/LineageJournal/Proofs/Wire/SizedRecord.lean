import LineageJournal.Proofs.Wire.Record

/-! Records of the modern field order with a bare content size and one attribute list. No program
writes them, so their fields are laid down here one after another, with those at the end that
depend on the kind of event. The decoder takes exactly these bytes and drafts the event that they
mean. -/

namespace LineageJournal

open Wire

/-- What was written of an event. Of the last six fields a record has those of its kind. -/
structure SizedRecord where
  eventId : UInt64
  kind : EventKind
  eventTime : Int64
  entryDate : Int64
  duration : Int64
  lineage : List Uuid
  lineageStart : Int64
  size : UInt64
  componentId : Option String
  componentType : Option String
  flowFile : Uuid
  details : Option String
  attributes : List (String × String)
  parents : List Uuid := []
  children : List Uuid := []
  transitUri : Option String := none
  sourceSystemId : Option String := none
  alternateUri : Option String := none
  relationship : Option String := none

namespace SizedRecord

variable (record : SizedRecord)

def tail : List Emission :=
  match record.kind with
  | .fork | .join | .clone | .replay =>
      [.counted .uuid record.parents, .counted .uuid record.children]
  | .receive =>
      [.nullable (.short "transit_uri") record.transitUri,
        .nullable (.short "source_system_flow_file_identifier") record.sourceSystemId]
  | .send => [.nullable (.short "transit_uri") record.transitUri]
  | .addInfo => [.nullable (.short "alternate_identifier_uri") record.alternateUri]
  | .route => [.nullable (.short "relationship") record.relationship]
  | .create | .drop | .expire | .contentModified | .attributesModified | .unknown => []

def emission : Emission :=
  .concat
    ([.word 8 record.eventId.toNat,
      .short "event_type" record.kind.name,
      .word 8 record.eventTime.toUInt64.toNat,
      .word 8 record.entryDate.toUInt64.toNat,
      .word 8 record.duration.toUInt64.toNat,
      .counted .uuid record.lineage,
      .word 8 record.lineageStart.toUInt64.toNat,
      .word 8 record.size.toNat,
      .nullable (.short "component_id") record.componentId,
      .nullable (.short "component_type") record.componentType,
      .uuid record.flowFile,
      .nullable (.short "details") record.details,
      .counted .attributeEntry record.attributes] ++ record.tail)

def encode : Except EncodeFault (List UInt8) := record.emission.toExcept

def event : Event :=
  { eventId := record.eventId
    kind := record.kind
    eventTime := record.eventTime
    entryDate := record.entryDate
    duration := record.duration
    lineageStart := record.lineageStart
    flowFile := record.flowFile
    lineage := UuidSet.ofList record.lineage
    componentId := record.componentId
    componentType := record.componentType
    details := record.details
    sourceQueue := none
    transitUri := if record.kind.carriesTransitUri then record.transitUri else none
    alternateUri := if record.kind.carriesAlternateUri then record.alternateUri else none
    relationship := if record.kind.carriesRelationship then record.relationship else none
    sourceSystemId := if record.kind.carriesSourceSystemId then record.sourceSystemId else none
    previousAttributes := ∅
    updatedAttributes := asUpdates (.ofList record.attributes)
    currentClaim := .sizeOnly record.size
    previousClaim := none
    parents := if record.kind.carriesLineageLists then record.parents else []
    children := if record.kind.carriesLineageLists then record.children else []
    storage := none }

def shorts : List String :=
  [record.componentId, record.componentType, record.details, record.event.transitUri,
    record.event.sourceSystemId, record.event.alternateUri,
    record.event.relationship].filterMap id

structure Fits : Prop where
  shorts : ∀ text ∈ record.shorts, (Utf8.encode text).length ≤ maxShortLength
  lineage : record.lineage.length ≤ maxLongLength
  parents : record.event.parents.length ≤ maxLongLength
  children : record.event.children.length ≤ maxLongLength
  attributes : record.attributes.length ≤ maxLongLength
  keys : ∀ entry ∈ record.attributes, (Utf8.encode entry.1).length ≤ maxLongLength
  values : ∀ entry ∈ record.attributes, (Utf8.encode entry.2).length ≤ maxLongLength

theorem concat_tail : .concat record.tail = emitAll record.event.tailFields := by
  simp only [tail, event, Event.tailFields]
  cases record.kind <;> rfl

variable {record}

theorem fault_emission (fits : record.Fits) : record.emission.fault = none := by
  have shorts := fits.shorts
  simp only [SizedRecord.shorts, List.forall_mem_filterMap, List.forall_mem_cons] at shorts
  have nullable {text : Option String} (field : String)
      (short : ∀ written, id text = some written →
        (Utf8.encode written).length ≤ maxShortLength) :
      (Emission.nullable (.short field) text).fault = none :=
    Emission.fault_nullable fun written present => Emission.fault_short.mpr (short written present)
  obtain ⟨componentId, componentType, details, transitUri, sourceSystemId, alternateUri,
    relationship, -⟩ := shorts
  have kind : (Emission.short "event_type" record.kind.name).fault = none := by
    cases record.kind <;> decide
  have tail : (Emission.concat record.tail).fault = none := by
    rw [concat_tail]
    exact Event.fault_tailFields fits.parents fits.children (nullable _ transitUri)
      (nullable _ sourceSystemId) (nullable _ alternateUri) (nullable _ relationship)
  rw [Emission.fault_concat] at tail
  simp only [emission, Emission.fault_concat, List.forall_mem_append, List.forall_mem_cons]
  exact ⟨⟨rfl, kind, rfl, rfl, rfl, Emission.fault_uuids fits.lineage, rfl, rfl,
    nullable _ componentId, nullable _ componentType, rfl, nullable _ details,
    Emission.fault_attributes fits.attributes fits.keys fits.values,
    fun _ none => nomatch none⟩, tail⟩

end SizedRecord

namespace Wire.Decoder

def sizedDraft (record : SizedRecord) : Draft :=
  withTail record.event
    { eventId := record.eventId
      kind := some record.kind
      eventTime := record.eventTime
      entryDate := record.entryDate
      duration := record.duration
      lineageStart := record.lineageStart
      flowFile := record.flowFile
      lineage := UuidSet.ofList record.lineage
      componentId := record.componentId
      componentType := record.componentType
      details := record.details
      updatedAttributes := asUpdates (.ofList record.attributes)
      currentClaim := .sizeOnly record.size }

theorem reads_sizedRecord (record : SizedRecord) :
    sizedRecord.Reads record.emission (sizedDraft record) := by
  simp only [sizedRecord, modernHead, component, LawfulMonad.bind_assoc, LawfulMonad.pure_bind]
  apply reads_bind (reads_uint64 record.eventId)
  apply reads_bind (reads_eventKind "event_type" record.kind)
  apply reads_bind (reads_millis record.eventTime)
  apply reads_bind (reads_millis record.entryDate)
  apply reads_bind (reads_millis record.duration)
  apply reads_bind (reads_uuids record.lineage)
  apply reads_bind (reads_millis record.lineageStart)
  apply reads_bind (reads_uint64 record.size)
  apply reads_bind (reads_nullable (reads_short "component_id") record.componentId)
  apply reads_bind (reads_nullable (reads_short "component_type") record.componentType)
  apply reads_bind (reads_uuid record.flowFile)
  apply reads_bind (reads_nullable (reads_short "details") record.details)
  apply reads_bind
    (reads_map SortedMap.ofList (reads_counted reads_attributeEntry record.attributes))
  change (modernTail record.event.kind _).Reads (.concat record.tail) _
  rw [SizedRecord.concat_tail]
  exact reads_modernTail record.event _

theorem build_sizedDraft (record : SizedRecord) :
    (sizedDraft record).build = .ok record.event := by
  obtain ⟨_, kind⟩ := record
  cases kind <;> rfl

end Wire.Decoder

theorem Event.foldl_applyUpdate_asUpdates (flat : Attributes) :
    (asUpdates flat).entries.foldl applyUpdate ∅ = flat :=
  List.foldl_map.trans (SortedMap.foldl_insert_entries flat)

namespace SizedRecord

/-- A record that fits is written, and the decoder takes exactly its bytes, whatever follows them,
and drafts the event that it means. The lineage is the set of the identifiers that are listed. Of
equal attribute keys the last one counts, none is a removal, and the attributes after the event
are those of the list. -/
theorem run_sized_of_fits {record : SizedRecord} (fits : record.Fits) (now : Int64) :
    ∃ bytes, record.encode = .ok bytes ∧
      (∀ rest, ∃ draft, (Layout.sized.record now).run (bytes ++ rest) = .ok (draft, rest) ∧
        draft.build = .ok record.event) ∧
      (∀ id, id ∈ record.event.lineage.toList ↔ id ∈ record.lineage) ∧
      (∀ key, record.event.updatedAttributes.get? key =
        (record.attributes.reverse.lookup key).map some) ∧
      record.event.attributes = SortedMap.ofList record.attributes := by
  have accepted := fault_emission fits
  refine ⟨_, Emission.toExcept_eq_ok.mpr ⟨accepted, rfl⟩, fun rest => ?_, fun id => ?_,
    fun key => ?_, ?_⟩
  · exact ⟨_, Decoder.reads_sizedRecord record accepted rest, Decoder.build_sizedDraft record⟩
  · exact UuidSet.mem_toList_ofList
  · have found := SortedMap.get?_mapValues some (SortedMap.ofList record.attributes) key
    rw [SortedMap.get?_ofList] at found
    exact found
  · exact Event.foldl_applyUpdate_asUpdates _

def duplicate : SizedRecord :=
  { eventId := 5
    kind := .clone
    eventTime := 2
    entryDate := 3
    duration := -1
    lineage := [⟨0, 9⟩, ⟨0, 4⟩, ⟨0, 9⟩]
    lineageStart := 1
    size := 2048
    componentId := some "gate"
    componentType := none
    flowFile := ⟨0xAB, 0⟩
    details := some "é"
    attributes := [("name", "a"), ("path", "/"), ("name", "b")]
    parents := [⟨0, 7⟩]
    children := [⟨0, 8⟩, ⟨0, 8⟩]
    transitUri := some "sftp://host" }

theorem run_sized_of_fits_duplicate :
    ∃ bytes, duplicate.encode = .ok bytes ∧
      (∃ draft, (Layout.sized.record 9).run (bytes ++ [0xFF]) = .ok (draft, [0xFF]) ∧
        draft.build = .ok duplicate.event) ∧
      duplicate.event.updatedAttributes.get? "name" = some (some "b") := by
  have fits : duplicate.Fits :=
    ⟨by decide, by decide, by decide, by decide, by decide, by decide, by decide⟩
  obtain ⟨bytes, encoded, decoded, -, found, -⟩ := run_sized_of_fits fits 9
  exact ⟨bytes, encoded, decoded [0xFF], found "name"⟩

end SizedRecord

end LineageJournal

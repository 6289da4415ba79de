import LineageJournal.Proofs.Uuid
import LineageJournal.Proofs.Wire.Field
import LineageJournal.Wire.LegacyDecoder

/-! Records of the legacy layouts. No program writes them any more, so what archived segments
hold is laid down here: the fields of a record in order, and the versions that have each of
them. The decoder of a version takes exactly these bytes and drafts the event that they mean. -/

namespace LineageJournal

open Wire

/-- An identifier in hyphenated text, in either letter case. -/
structure UuidText where
  id : Uuid
  text : String
  hyphenated : text.toList.map Char.toLower = id.toChars

/-- What was written of an event. A version leaves out the fields that it does not have. -/
structure LegacyRecord where
  eventId : UInt64
  eventUuid : String
  kind : EventKind
  eventTime : Int64
  duration : Int64
  flowFileNumber : UInt64
  size : UInt64
  componentId : Option String
  componentType : Option String
  flowFile : Option UuidText
  parents : List UuidText
  children : List UuidText
  sourceUri : Option String
  sourceSystemId : Option String
  destinationUri : Option String
  contentType : Option String
  alternateUri : Option String
  attributes : List (String × String)

namespace Wire.Emission

def onlyIf (present : Bool) (field : Emission) : Emission := if present then field else empty

def uuidText (field : String) (id : UuidText) : Emission := short field id.text

end Wire.Emission

namespace LegacyRecord

variable (record : LegacyRecord) (version : LegacyVersion)

def emission : Emission :=
  .concat
    [.word 8 record.eventId.toNat,
      .onlyIf (version == .v4) (.short "event_uuid" record.eventUuid),
      .short "event_type" record.kind.name,
      .word 8 record.eventTime.toUInt64.toNat,
      .onlyIf (4 ≤ version.number) (.word 8 record.duration.toUInt64.toNat),
      .word 8 record.flowFileNumber.toNat,
      .word 8 record.size.toNat,
      .nullable (.short "component_id") record.componentId,
      .nullable (.short "component_type") record.componentType,
      .nullable (.uuidText "uuid") record.flowFile,
      .counted (.uuidText "parent") record.parents,
      .onlyIf (3 ≤ version.number) (.counted (.uuidText "child") record.children),
      .nullable (.short "source_uri") record.sourceUri,
      .onlyIf (4 ≤ version.number) (.nullable (.short "source_id") record.sourceSystemId),
      .nullable (.short "destination_uri") record.destinationUri,
      .nullable (.short "content_type") record.contentType,
      .nullable (.short "alternate") record.alternateUri,
      .counted .attributeEntry record.attributes]

def encode : Except EncodeFault (List UInt8) := (record.emission version).toExcept

def nullables : List (Option String) :=
  [record.componentId, record.componentType, record.sourceUri, record.sourceSystemId,
    record.destinationUri, record.contentType, record.alternateUri]

def shorts : List String := record.eventUuid :: record.nullables.filterMap id

structure Fits : Prop where
  shorts : ∀ text ∈ record.shorts, (Utf8.encode text).length ≤ maxShortLength
  parents : record.parents.length ≤ maxLongLength
  children : record.children.length ≤ maxLongLength
  attributes : record.attributes.length ≤ maxLongLength
  keys : ∀ entry ∈ record.attributes, (Utf8.encode entry.1).length ≤ maxLongLength
  values : ∀ entry ∈ record.attributes, (Utf8.encode entry.2).length ≤ maxLongLength

def event (now : Int64) : Event :=
  { eventId := record.eventId
    kind := record.kind
    eventTime := record.eventTime
    entryDate := now
    duration := if 4 ≤ version.number then record.duration else -1
    lineageStart := -1
    flowFile := (record.flowFile.map UuidText.id).getD Uuid.nil
    lineage := ∅
    componentId := record.componentId
    componentType := record.componentType
    details := none
    sourceQueue := none
    transitUri := record.sourceUri.or record.destinationUri
    alternateUri := record.alternateUri
    relationship := none
    sourceSystemId := if 4 ≤ version.number then record.sourceSystemId else none
    previousAttributes := ∅
    updatedAttributes := asUpdates (.ofList record.attributes)
    currentClaim := .sizeOnly record.size
    previousClaim := none
    parents := record.parents.map UuidText.id
    children := if 3 ≤ version.number then record.children.map UuidText.id else []
    storage := none }

end LegacyRecord

namespace Wire.Emission

theorem fault_onlyIf {present : Bool} {field : Emission} (accepted : field.fault = none) :
    (onlyIf present field).fault = none := by
  cases present
  · rfl
  · exact accepted

/-- A character takes at most four bytes, so an identifier always fits. -/
theorem fault_uuidText (field : String) (id : UuidText) : (uuidText field id).fault = none := by
  have bound := Utf8.encodeChars_length_le id.text.toList
  rw [Uuid.length_of_hyphenated id.hyphenated] at bound
  exact fault_short.mpr (Nat.le_trans bound (by decide))

end Wire.Emission

namespace LegacyRecord

theorem fault_emission {record : LegacyRecord} (fits : record.Fits) (version : LegacyVersion) :
    (record.emission version).fault = none := by
  have nullable : ∀ text ∈ record.nullables, ∀ field,
      (Emission.nullable (.short field) text).fault = none := by
    intro text listed field
    apply Emission.fault_nullable
    rintro written rfl
    have short : written ∈ record.shorts :=
      List.mem_cons_of_mem _ (List.mem_filterMap.mpr ⟨some written, listed, rfl⟩)
    exact Emission.fault_short.mpr (fits.shorts written short)
  simp only [nullables, List.forall_mem_cons] at nullable
  obtain ⟨componentId, componentType, sourceUri, sourceSystemId, destinationUri, contentType,
    alternateUri, -⟩ := nullable
  have kind : (Emission.short "event_type" record.kind.name).fault = none := by
    cases record.kind <;> decide
  have uuids (field : String) {ids : List UuidText} (few : ids.length ≤ maxLongLength) :
      (Emission.counted (.uuidText field) ids).fault = none :=
    Emission.fault_counted few fun id _ => Emission.fault_uuidText field id
  have flowFile : (Emission.nullable (.uuidText "uuid") record.flowFile).fault = none :=
    Emission.fault_nullable fun id _ => Emission.fault_uuidText "uuid" id
  have attributes : (Emission.counted .attributeEntry record.attributes).fault = none :=
    Emission.fault_attributes fits.attributes fits.keys fits.values
  have eventUuid : (Emission.short "event_uuid" record.eventUuid).fault = none :=
    Emission.fault_short.mpr (fits.shorts record.eventUuid List.mem_cons_self)
  simp only [emission, Emission.fault_concat, List.forall_mem_cons]
  exact ⟨rfl, Emission.fault_onlyIf eventUuid, kind, rfl, Emission.fault_onlyIf rfl, rfl, rfl,
    componentId _, componentType _, flowFile, uuids _ fits.parents,
    Emission.fault_onlyIf (uuids _ fits.children), sourceUri _,
    Emission.fault_onlyIf (sourceSystemId _), destinationUri _, contentType _, alternateUri _,
    attributes, fun _ none => nomatch none⟩

end LegacyRecord

namespace Wire.Decoder

variable {α : Type}

theorem parseUuid_text (id : UuidText) : parseUuid id.text = done id.id := by
  rw [parseUuid, Uuid.ofText?_of_hyphenated id.hyphenated]

theorem reads_uuidText (field : String) (id : UuidText) :
    textUuid.Reads (.uuidText field id) id.id := by
  rw [← Emission.append_empty (.uuidText field id)]
  apply reads_bind (reads_short field id.text)
  rw [parseUuid_text]
  exact reads_pure id.id

theorem reads_nullableTextUuid (field : String) (id : Option UuidText) :
    nullableTextUuid.Reads (.nullable (.uuidText field) id) (id.map UuidText.id) := by
  have written : Emission.nullable (.uuidText field) id =
      .nullable (.short field) (id.map UuidText.text) := by
    cases id <;> rfl
  rw [written, ← Emission.append_empty (.nullable _ _)]
  apply reads_bind (reads_nullable (reads_short field) _)
  cases id with
  | none => exact reads_pure none
  | some id =>
      rw [Option.map_some]
      simp only [parseUuid_text]
      exact reads_pure (some id.id)

theorem reads_onlyIf {decoder : Decoder α} {emission : Emission} {value : α}
    (read : decoder.Reads emission value) (present : Bool) (absent : α) :
    (onlyIf present absent decoder).Reads (.onlyIf present emission)
      (if present then value else absent) := by
  cases present
  · exact reads_pure absent
  · exact read

def legacyDraft (record : LegacyRecord) (version : LegacyVersion) (now : Int64) : Draft :=
  { eventId := record.eventId
    kind := some record.kind
    eventTime := record.eventTime
    entryDate := now
    duration := if version.hasDuration then record.duration else -1
    flowFile := (record.flowFile.map UuidText.id).getD Uuid.nil
    componentId := record.componentId
    componentType := record.componentType
    transitUri := record.sourceUri.or record.destinationUri
    alternateUri := record.alternateUri
    sourceSystemId := if version.hasSourceSystemId then record.sourceSystemId else none
    updatedAttributes := asUpdates (.ofList record.attributes)
    currentClaim := .sizeOnly record.size
    parents := record.parents.map UuidText.id
    children := if version.hasChildren then record.children.map UuidText.id else [] }

theorem reads_legacyRecord (record : LegacyRecord) (version : LegacyVersion) (now : Int64) :
    (legacyRecord version now).Reads (record.emission version)
      (legacyDraft record version now) := by
  apply reads_bind (reads_uint64 record.eventId)
  apply reads_bind (reads_onlyIf (reads_short "event_uuid" record.eventUuid) _ "")
  apply reads_bind (reads_eventKind "event_type" record.kind)
  apply reads_bind (reads_millis record.eventTime)
  apply reads_bind (reads_onlyIf (reads_millis record.duration) _ (-1))
  apply reads_bind (reads_uint64 record.flowFileNumber)
  apply reads_bind (reads_uint64 record.size)
  apply reads_bind (reads_nullable (reads_short "component_id") record.componentId)
  apply reads_bind (reads_nullable (reads_short "component_type") record.componentType)
  apply reads_bind (reads_nullableTextUuid "uuid" record.flowFile)
  apply reads_bind (reads_counted_map (reads_uuidText "parent") record.parents)
  apply reads_bind
    (reads_onlyIf (reads_counted_map (reads_uuidText "child") record.children) _ [])
  apply reads_bind (reads_nullable (reads_short "source_uri") record.sourceUri)
  apply reads_bind
    (reads_onlyIf (reads_nullable (reads_short "source_id") record.sourceSystemId) _ none)
  apply reads_bind (reads_nullable (reads_short "destination_uri") record.destinationUri)
  apply reads_bind (reads_nullable (reads_short "content_type") record.contentType)
  apply reads_bind (reads_nullable (reads_short "alternate") record.alternateUri)
  apply reads_bind
    (reads_map SortedMap.ofList (reads_counted reads_attributeEntry record.attributes))
  exact reads_pure _

theorem build_legacyDraft (record : LegacyRecord) (version : LegacyVersion) (now : Int64) :
    (legacyDraft record version now).build = .ok (record.event version now) := by
  cases version <;> rfl

end Wire.Decoder

namespace LegacyRecord

/-- A record that fits is written in every version, and the decoder of the version takes exactly
its bytes, whatever follows them, and drafts the event that it means. Of equal attribute keys the
last one counts. -/
theorem run_record_of_fits {record : LegacyRecord} (fits : record.Fits) (version : LegacyVersion)
    (now : Int64) :
    ∃ bytes, record.encode version = .ok bytes ∧
      (∀ rest, ∃ draft,
        ((Layout.legacy version).record now).run (bytes ++ rest) = .ok (draft, rest) ∧
          draft.build = .ok (record.event version now)) ∧
      ∀ key, (record.event version now).updatedAttributes.get? key =
        (record.attributes.reverse.lookup key).map some := by
  have accepted := fault_emission fits version
  refine ⟨_, Emission.toExcept_eq_ok.mpr ⟨accepted, rfl⟩, fun rest => ?_, fun key => ?_⟩
  · exact ⟨_, Decoder.reads_legacyRecord record version now accepted rest,
      Decoder.build_legacyDraft record version now⟩
  · have found := SortedMap.get?_mapValues some (SortedMap.ofList record.attributes) key
    rw [SortedMap.get?_ofList] at found
    exact found

def transfer : LegacyRecord :=
  { eventId := 1
    eventUuid := "e5a3c1f0"
    kind := .send
    eventTime := 2
    duration := 15
    flowFileNumber := 31337
    size := 4096
    componentId := some "gate"
    componentType := none
    flowFile := some ⟨⟨0xAB, 0⟩, "00000000-0000-00aB-0000-000000000000", by decide⟩
    parents := [⟨⟨0, 7⟩, "00000000-0000-0000-0000-000000000007", by decide⟩]
    children := [⟨⟨0, 8⟩, "00000000-0000-0000-0000-000000000008", by decide⟩]
    sourceUri := none
    sourceSystemId := some ""
    destinationUri := some "sftp://host/é"
    contentType := some "text/plain"
    alternateUri := none
    attributes := [("name", "a"), ("path", "/"), ("name", "b")] }

theorem run_record_of_fits_transfer :
    ∃ bytes, transfer.encode .v4 = .ok bytes ∧
      (∃ draft, ((Layout.legacy .v4).record 9).run (bytes ++ [0xFF]) = .ok (draft, [0xFF]) ∧
        draft.build = .ok (transfer.event .v4 9)) ∧
      (transfer.event .v4 9).updatedAttributes.get? "name" = some (some "b") := by
  have fits : transfer.Fits :=
    ⟨by decide, by decide, by decide, by decide, by decide, by decide⟩
  obtain ⟨bytes, encoded, decoded, found⟩ := run_record_of_fits fits .v4 9
  exact ⟨bytes, encoded, decoded [0xFF], found "name"⟩

end LegacyRecord

end LineageJournal

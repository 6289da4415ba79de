import LineageJournal.Proofs.Wire.Field
import LineageJournal.Wire.Carried
import LineageJournal.Wire.LegacyDecoder
import LineageJournal.Wire.Record

/-! Records of the current layout read back. The decoder takes the fields in the order in
which they are written, so it gives back what the record carries of the event and leaves
what follows the record. -/

namespace LineageJournal

open Wire

namespace ContentClaim

theorem withDefaultOffset_of_carried {claim carried : ContentClaim}
    (kept : claim.carried = some carried) : carried.withDefaultOffset = carried := by
  obtain ⟨container, sectionName, identifier, offset, size⟩ := claim
  simp only [ContentClaim.carried] at kept
  split at kept
  · cases kept
    cases offset with
    | none => simp_all [withDefaultOffset, isResolved]
    | some offset => simp [withDefaultOffset]
  · cases kept

theorem withDefaultOffset_getD_carried (claim : ContentClaim) :
    (claim.carried.getD {}).withDefaultOffset = claim.carried.getD {} := by
  cases kept : claim.carried with
  | none => rfl
  | some carried => exact withDefaultOffset_of_carried kept

theorem map_withDefaultOffset_carried (claim : Option ContentClaim) :
    (claim.bind carried).map withDefaultOffset = claim.bind carried := by
  cases kept : claim.bind carried with
  | none => rfl
  | some carried =>
      obtain ⟨written, _, same⟩ := Option.bind_eq_some_iff.mp kept
      exact congrArg some (withDefaultOffset_of_carried same)

theorem fields_getD (claim : Option ContentClaim) :
    fields (some (claim.getD {})) = fields claim := by
  cases claim with
  | none => rfl
  | some claim => rfl

theorem fields_bind_carried (claim : Option ContentClaim) :
    fields (claim.bind carried) = fields claim := by
  obtain _ | ⟨_ | container, _ | sectionName, _ | identifier, offset, size⟩ := claim
  case some.some.some.some => cases offset <;> rfl
  all_goals rfl

end ContentClaim

namespace Wire.Decoder

theorem reads_located (container sectionName identifier : String) (offset : Option UInt64)
    (size : UInt64) :
    (nullable claim).Reads
      (emitAll (ContentClaim.fieldsOf container sectionName identifier offset size))
      (some (.located container sectionName identifier (offset.getD 0) size)) := by
  apply reads_bind (reads_flag true)
  apply reads_map some
  apply reads_bind (reads_short "claim_container" container)
  apply reads_bind (reads_short "claim_section" sectionName)
  apply reads_bind (reads_short "claim_identifier" identifier)
  apply reads_bind (reads_uint64 (offset.getD 0))
  apply reads_bind (reads_uint64 size)
  exact reads_pure _

theorem reads_noClaim :
    (nullable claim).Reads (emitAll [{ value := .flag false }]) none :=
  reads_bind (reads_flag false) (reads_pure none)

theorem reads_claim (written : Option ContentClaim) :
    (nullable claim).Reads (emitAll (ContentClaim.fields written))
      (written.bind ContentClaim.carried) := by
  obtain _ | ⟨_ | container, _ | sectionName, _ | identifier, offset, size⟩ := written
  case some.some.some.some =>
    have kept : ContentClaim.carried
        ⟨some container, some sectionName, some identifier, offset, size⟩ =
          some (.located container sectionName identifier (offset.getD 0) size) := by
      cases offset <;> rfl
    rw [Option.bind_some, kept]
    exact reads_located container sectionName identifier offset size
  all_goals exact reads_noClaim

def withTail (event : Event) (draft : Draft) : Draft :=
  { draft with
    transitUri := if event.kind.carriesTransitUri then event.transitUri else draft.transitUri
    alternateUri :=
      if event.kind.carriesAlternateUri then event.alternateUri else draft.alternateUri
    relationship :=
      if event.kind.carriesRelationship then event.relationship else draft.relationship
    sourceSystemId :=
      if event.kind.carriesSourceSystemId then event.sourceSystemId else draft.sourceSystemId
    parents := if event.kind.carriesLineageLists then event.parents else draft.parents
    children := if event.kind.carriesLineageLists then event.children else draft.children }

theorem reads_modernTail (event : Event) (draft : Draft) :
    (modernTail event.kind draft).Reads (emitAll event.tailFields) (withTail event draft) := by
  simp only [Event.tailFields, withTail]
  cases event.kind
  case fork | join | clone | replay =>
    apply reads_bind (reads_uuids event.parents)
    apply reads_bind (reads_uuids event.children)
    exact reads_pure _
  case receive =>
    apply reads_bind (reads_nullable (reads_short _) event.transitUri)
    apply reads_bind (reads_nullable (reads_short _) event.sourceSystemId)
    exact reads_pure _
  case send =>
    apply reads_bind (reads_nullable (reads_short _) event.transitUri)
    exact reads_pure _
  case addInfo =>
    apply reads_bind (reads_nullable (reads_short _) event.alternateUri)
    exact reads_pure _
  case route =>
    apply reads_bind (reads_nullable (reads_short _) event.relationship)
    exact reads_pure _
  all_goals exact reads_pure _

def draftOf (event : Event) (recordId : UInt64) : Draft :=
  withTail event
    { eventId := recordId
      kind := some event.kind
      eventTime := event.eventTime
      entryDate := event.entryDate
      duration := event.duration
      lineageStart := event.lineageStart
      flowFile := event.flowFile
      lineage := event.lineage
      componentId := event.componentId
      componentType := event.componentType
      details := event.details
      sourceQueue := event.sourceQueue
      previousAttributes := event.previousAttributes
      updatedAttributes := event.updatedAttributes
      currentClaim := event.currentClaim.carried.getD {}
      previousClaim := event.previousClaim.bind ContentClaim.carried }

theorem reads_claimedRecord (event : Event) (recordId : UInt64) :
    claimedRecord.Reads (emitAll (event.fields recordId)) (draftOf event recordId) := by
  simp only [claimedRecord, modernHead, component, LawfulMonad.bind_assoc,
    LawfulMonad.pure_bind, Event.fields, emitAll_append, emitAll_cons, emitAll_nil,
    Emission.append_assoc, Emission.empty_append]
  apply reads_bind (reads_uint64 recordId)
  apply reads_bind (reads_eventKind "event_type" event.kind)
  apply reads_bind (reads_millis event.eventTime)
  apply reads_bind (reads_millis event.entryDate)
  apply reads_bind (reads_millis event.duration)
  apply reads_bind (reads_uuids event.lineage.toList)
  apply reads_bind (reads_millis event.lineageStart)
  apply reads_bind (reads_nullable (reads_short "component_id") event.componentId)
  apply reads_bind (reads_nullable (reads_short "component_type") event.componentType)
  apply reads_bind (reads_uuid event.flowFile)
  apply reads_bind (reads_nullable (reads_short "details") event.details)
  apply reads_bind (reads_attributes event.previousAttributes)
  apply reads_bind (reads_updates event.updatedAttributes)
  apply reads_bind (reads_claim (some event.currentClaim))
  apply reads_bind (reads_claim event.previousClaim)
  refine reads_bind
    (reads_nullable (reads_short "source_queue_identifier") event.sourceQueue) ?_
  rw [UuidSet.ofList_toList]
  exact reads_modernTail event _

end Wire.Decoder

namespace Event

theorem fault_tailFields {event : Event} (parents : event.parents.length ≤ maxLongLength)
    (children : event.children.length ≤ maxLongLength)
    (transitUri : (Emission.nullable (.short "transit_uri") event.transitUri).fault = none)
    (sourceSystemId : (Emission.nullable (.short "source_system_flow_file_identifier")
      event.sourceSystemId).fault = none)
    (alternateUri :
      (Emission.nullable (.short "alternate_identifier_uri") event.alternateUri).fault = none)
    (relationship : (Emission.nullable (.short "relationship") event.relationship).fault = none) :
    (emitAll event.tailFields).fault = none := by
  unfold tailFields
  cases event.kind
  case fork | join | clone | replay =>
    exact Emission.fault_append.mpr
      ⟨Emission.fault_uuids parents, Emission.fault_append.mpr ⟨Emission.fault_uuids children, rfl⟩⟩
  case receive =>
    exact Emission.fault_append.mpr
      ⟨transitUri, Emission.fault_append.mpr ⟨sourceSystemId, rfl⟩⟩
  case send => exact Emission.fault_append.mpr ⟨transitUri, rfl⟩
  case addInfo => exact Emission.fault_append.mpr ⟨alternateUri, rfl⟩
  case route => exact Emission.fault_append.mpr ⟨relationship, rfl⟩
  all_goals rfl

theorem build_draftOf (event : Event) (recordId : UInt64) :
    (Decoder.draftOf event recordId).build = .ok (event.carried recordId) := by
  simp only [Draft.build, Decoder.draftOf, Decoder.withTail, carried,
    ContentClaim.withDefaultOffset_getD_carried, ContentClaim.map_withDefaultOffset_carried]

theorem run_record_draftOf {event : Event} {recordId : UInt64} {bytes : List UInt8}
    (encoded : event.encode recordId = .ok bytes) (rest : List UInt8) (now : Int64) :
    (Layout.claimed.record now).run (bytes ++ rest) =
      .ok (Decoder.draftOf event recordId, rest) := by
  obtain ⟨accepted, rfl⟩ := Emission.toExcept_eq_ok.mp encoded
  exact Decoder.reads_claimedRecord event recordId accepted rest

/-- Decoding the record of an event, whatever follows it, and building gives back what the
record carries of the event and leaves what follows. -/
theorem run_record_of_encode (event : Event) (recordId : UInt64) (bytes rest : List UInt8)
    (now : Int64) (encoded : event.encode recordId = .ok bytes) :
    ∃ draft, (Layout.claimed.record now).run (bytes ++ rest) = .ok (draft, rest) ∧
      draft.build = .ok (event.carried recordId) :=
  ⟨Decoder.draftOf event recordId, run_record_draftOf encoded rest now,
    build_draftOf event recordId⟩

/-- A received event with a resolved claim that lacks its offset, an unresolved previous claim
and fields that its kind does not carry. -/
def receipt : Event :=
  { eventId := 3
    kind := .receive
    eventTime := 1700000000000
    entryDate := -5
    duration := 12
    lineageStart := -1
    flowFile := ⟨1, 2⟩
    lineage := UuidSet.ofList [⟨0, 9⟩, ⟨0, 4⟩]
    componentId := some "gate"
    componentType := none
    details := some ""
    sourceQueue := some "é"
    transitUri := some "sftp://host/in"
    alternateUri := some "dropped"
    relationship := some "dropped"
    sourceSystemId := none
    previousAttributes := SortedMap.ofList [("b", "1"), ("a", "")]
    updatedAttributes := SortedMap.ofList [("b", none), ("c", some "2")]
    currentClaim :=
      { container := some "c", sectionName := some "s", identifier := some "i", size := 8 }
    previousClaim := some { container := some "c", size := 5 }
    parents := [⟨0, 1⟩]
    children := []
    storage := some ⟨"old", 40⟩ }

theorem run_record_of_encode_receipt :
    ∃ bytes, receipt.encode 7 = .ok bytes ∧
      ∃ draft, (Layout.claimed.record 0).run (bytes ++ [0xFF]) = .ok (draft, [0xFF]) ∧
        draft.build = .ok (receipt.carried 7) :=
  ⟨_, rfl, run_record_of_encode receipt 7 _ [0xFF] 0 rfl⟩

end Event

end LineageJournal

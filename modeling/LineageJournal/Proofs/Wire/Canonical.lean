import LineageJournal.Proofs.Wire.Clock
import LineageJournal.Proofs.Wire.Restoring

/-! Records written back. Whatever bytes a record of any version was decoded from, its event
can be written as a record of the current layout. What was a record of that layout already
is not longer than before, and it carries the whole event. -/

namespace LineageJournal

open Wire

namespace ContentClaim

variable {claim : Option ContentClaim}

theorem withDefaultOffset_getD (whole : claim.bind carried = claim) :
    (claim.getD {}).withDefaultOffset = claim.getD {} := by
  cases claim with
  | none => rfl
  | some claim => exact withDefaultOffset_of_carried (show claim.carried = some claim from whole)

theorem carried_getD (whole : claim.bind carried = claim) :
    (claim.getD {}).carried.getD {} = claim.getD {} := by
  cases claim with
  | none => rfl
  | some claim => exact congrArg (Option.getD · {}) (show claim.carried = some claim from whole)

end ContentClaim

namespace Event

/-- The event with the fields that another one of its kind carries for the kind only. -/
def withTailOf (base event : Event) : Event :=
  { base with
    transitUri := if event.kind.carriesTransitUri then event.transitUri else base.transitUri
    alternateUri := if event.kind.carriesAlternateUri then event.alternateUri else base.alternateUri
    relationship := if event.kind.carriesRelationship then event.relationship else base.relationship
    sourceSystemId :=
      if event.kind.carriesSourceSystemId then event.sourceSystemId else base.sourceSystemId
    parents := if event.kind.carriesLineageLists then event.parents else base.parents
    children := if event.kind.carriesLineageLists then event.children else base.children }

variable {base event : Event}

theorem tailFields_withTailOf (same : event.kind = base.kind) :
    (base.withTailOf event).tailFields = event.tailFields := by
  simp only [tailFields, withTailOf, ← same]
  cases event.kind <;> rfl

theorem build_withTail {draft : Draft} (built : draft.build = .ok base) :
    (Decoder.withTail event draft).build = .ok (base.withTailOf event) := by
  unfold Draft.build at built ⊢
  cases known : draft.kind with
  | none => simp [known] at built
  | some kind =>
      simp only [known, Except.ok.injEq] at built
      subst built
      simp only [Decoder.withTail, known]
      rfl

end Event

namespace Wire.Decoder

theorem ensures_claim :
    claim.Ensures fun used value => ContentClaim.carried value = some value ∧
      (emitAll (ContentClaim.fields (some value))).Within (1 + used) := by
  apply ensures_bind (restores_short "claim_container")
  intro _ container first
  apply ensures_bind (restores_short "claim_section")
  intro _ sectionName second
  apply ensures_bind (restores_short "claim_identifier")
  intro _ identifier third
  apply ensures_bind restores_uint64
  intro _ offset fourth
  apply ensures_bind restores_uint64
  intro _ size fifth
  refine ensures_pure ⟨rfl, ?_⟩
  exact (Emission.within_flag true).append (first.append (second.append (third.append
    (fourth.append (fifth.append Emission.within_empty)))))

theorem ensures_nullableClaim :
    (nullable claim).Ensures fun used value => value.bind ContentClaim.carried = value ∧
      (emitAll (ContentClaim.fields value)).Within used := by
  apply ensures_bind ensures_flag
  intro used raised same
  rw [same]
  cases raised with
  | false => exact ensures_pure ⟨rfl, (Emission.within_flag false).append Emission.within_empty⟩
  | true =>
      apply ensures_bind ensures_claim
      intro more value known
      exact ensures_pure known

theorem ensures_modernTail (base : Event) (draft : Draft) :
    (modernTail base.kind draft).Ensures fun used result =>
      ∃ event : Event, event.kind = base.kind ∧ result = withTail event draft ∧
        (emitAll event.tailFields).Within used := by
  -- What is read becomes part of the base, whose other fields are not in the tail.
  cases kind : base.kind
  case fork | join | clone | replay =>
    apply ensures_bind restores_uuids
    intro _ parents first
    apply ensures_bind restores_uuids
    intro _ children second
    refine ensures_pure ⟨{ base with parents, children }, kind, ?_, ?_⟩
    · simp only [withTail, kind]
      rfl
    · simp only [Event.tailFields, kind]
      exact first.append (second.append Emission.within_empty)
  case receive =>
    apply ensures_bind (restores_nullable (restores_short "transit_uri"))
    intro _ transitUri first
    apply ensures_bind
      (restores_nullable (restores_short "source_system_flow_file_identifier"))
    intro _ sourceSystemId second
    refine ensures_pure ⟨{ base with transitUri, sourceSystemId }, kind, ?_, ?_⟩
    · simp only [withTail, kind]
      rfl
    · simp only [Event.tailFields, kind]
      exact first.append (second.append Emission.within_empty)
  case send =>
    apply ensures_bind (restores_nullable (restores_short "transit_uri"))
    intro _ transitUri first
    refine ensures_pure ⟨{ base with transitUri }, kind, ?_, ?_⟩
    · simp only [withTail, kind]
      rfl
    · simp only [Event.tailFields, kind]
      exact first.append Emission.within_empty
  case addInfo =>
    apply ensures_bind (restores_nullable (restores_short "alternate_identifier_uri"))
    intro _ alternateUri first
    refine ensures_pure ⟨{ base with alternateUri }, kind, ?_, ?_⟩
    · simp only [withTail, kind]
      rfl
    · simp only [Event.tailFields, kind]
      exact first.append Emission.within_empty
  case route =>
    apply ensures_bind (restores_nullable (restores_short "relationship"))
    intro _ relationship first
    refine ensures_pure ⟨{ base with relationship }, kind, ?_, ?_⟩
    · simp only [withTail, kind]
      rfl
    · simp only [Event.tailFields, kind]
      exact first.append Emission.within_empty
  all_goals
    refine ensures_pure ⟨base, kind, ?_, ?_⟩
    · simp only [withTail, kind]
      rfl
    · simp only [Event.tailFields, kind]
      exact Emission.within_empty

theorem ensures_claimedRecord :
    claimedRecord.Ensures fun used draft => ∃ event, draft.build = .ok event ∧
      (emitAll (event.fields event.eventId)).Within used ∧
      event.carried event.eventId = event := by
  simp only [claimedRecord, modernHead, component, LawfulMonad.bind_assoc,
    LawfulMonad.pure_bind]
  apply ensures_bind restores_uint64
  intro _ eventId first
  apply ensures_bind (restores_eventKind "event_type")
  intro _ kind second
  apply ensures_bind restores_millis
  intro _ eventTime third
  apply ensures_bind restores_millis
  intro _ entryDate fourth
  apply ensures_bind restores_millis
  intro _ duration fifth
  apply ensures_bind restores_lineage
  intro _ lineage sixth
  apply ensures_bind restores_millis
  intro _ lineageStart seventh
  apply ensures_bind (restores_nullable (restores_short "component_id"))
  intro _ componentId eighth
  apply ensures_bind (restores_nullable (restores_short "component_type"))
  intro _ componentType ninth
  apply ensures_bind restores_uuid
  intro _ flowFile tenth
  apply ensures_bind (restores_nullable (restores_short "details"))
  intro _ details eleventh
  apply ensures_bind restores_attributes
  intro _ previousAttributes twelfth
  apply ensures_bind restores_updates
  intro _ updatedAttributes thirteenth
  apply ensures_bind ensures_nullableClaim
  intro _ currentClaim claimed
  obtain ⟨current, fourteenth⟩ := claimed
  apply ensures_bind ensures_nullableClaim
  intro _ previousClaim before
  obtain ⟨previous, fifteenth⟩ := before
  apply ensures_bind (restores_nullable (restores_short "source_queue_identifier"))
  intro _ sourceQueue sixteenth
  -- The event without what its kind adds, which is decoded last.
  let base : Event :=
    { eventId, kind, eventTime, entryDate, duration, lineageStart, flowFile,
      lineage := UuidSet.ofList lineage, componentId, componentType, details, sourceQueue,
      transitUri := none, alternateUri := none, relationship := none, sourceSystemId := none,
      previousAttributes, updatedAttributes, currentClaim := currentClaim.getD {}, previousClaim,
      parents := [], children := [], storage := none }
  apply (ensures_modernTail base _).imp
  intro _ draft tail
  obtain ⟨event, same, tailed, last⟩ := tail
  have offsets := ContentClaim.withDefaultOffset_getD current
  have others := ContentClaim.map_withDefaultOffset_carried previousClaim
  rw [previous] at others
  refine ⟨base.withTailOf event, ?_, ?_, ?_⟩
  · rw [tailed]
    apply Event.build_withTail
    simp only [Draft.build, offsets, others]
    rfl
  · rw [Event.fields, Event.tailFields_withTailOf same]
    simp only [Event.withTailOf, base, ContentClaim.fields_getD, emitAll_append,
      emitAll_cons, emitAll_nil, Emission.append_assoc, Emission.empty_append]
    exact first.append (second.append (third.append (fourth.append (fifth.append (sixth.append
      (seventh.append (eighth.append (ninth.append (tenth.append (eleventh.append
        (twelfth.append (thirteenth.append (fourteenth.append (fifteenth.append
          (sixteenth.append last)))))))))))))))
  · simp only [Event.carried, Event.withTailOf, base, same, ContentClaim.carried_getD current,
      previous]
    cases kind <;> rfl

end Wire.Decoder

namespace Event

variable {event : Event}

/-- An event of an older layout: it knows the size of its content only, and no attributes from
before. -/
structure IsPlain (event : Event) : Prop where
  content : event.currentClaim = .sizeOnly event.currentClaim.size
  noPrevious : event.previousClaim = none
  noQueue : event.sourceQueue = none
  noSnapshot : event.previousAttributes = ∅

structure Fits (event : Event) : Prop where
  lineage : (Emission.counted .uuid event.lineage.toList).fault = none
  componentId : (Emission.nullable (.short "component_id") event.componentId).fault = none
  componentType : (Emission.nullable (.short "component_type") event.componentType).fault = none
  details : (Emission.nullable (.short "details") event.details).fault = none
  updates : (Emission.counted .updateEntry event.updatedAttributes.entries).fault = none
  tail : (emitAll event.tailFields).fault = none

theorem fault_fields (plain : event.IsPlain) (fits : event.Fits) (recordId : UInt64) :
    (emitAll (event.fields recordId)).fault = none := by
  have kind : (Emission.short "event_type" event.kind.name).fault = none := by
    cases event.kind <;> decide
  simp only [fields, emitAll_append, emitAll_cons, emitAll_nil, Emission.fault_append]
  rw [plain.content, plain.noPrevious, plain.noQueue, plain.noSnapshot]
  exact ⟨⟨⟨⟨rfl, kind, rfl, rfl, rfl, fits.lineage, rfl, fits.componentId, fits.componentType, rfl,
    fits.details, rfl, fits.updates, rfl⟩, rfl⟩, rfl⟩, rfl, fits.tail⟩

end Event

namespace Wire.Decoder

variable {α : Type}

theorem fault_asUpdates {flat : Attributes}
    (accepted : (Emission.counted .attributeEntry flat.entries).fault = none) :
    (Emission.counted .updateEntry (asUpdates flat).entries).fault = none := by
  obtain ⟨few, each, _⟩ := Emission.within_counted_iff.mp ⟨accepted, Nat.le_refl _⟩
  have entries : (asUpdates flat).entries = flat.entries.map fun entry => (entry.1, some entry.2) :=
    rfl
  rw [entries]
  apply Emission.fault_counted
  · rw [List.length_map]
    exact few
  · intro update member
    obtain ⟨entry, listed, rfl⟩ := List.mem_map.mp member
    obtain ⟨key, value⟩ := Emission.fault_append.mp (each entry listed)
    exact Emission.fault_append.mpr ⟨key, Emission.fault_append.mpr ⟨rfl, value⟩⟩

theorem ensures_counted (item : Decoder α) :
    (counted item).Ensures fun _ items => items.length ≤ maxLongLength := by
  have nothing : item.Restores fun _ => .empty := by
    apply (ensures_true item).imp
    intro used value _
    exact Emission.within_empty.mono (Nat.zero_le used)
  apply (restores_counted nothing).imp
  intro used items within
  exact (Emission.within_counted_iff.mp within).1

theorem ensures_onlyIf {field : Decoder α} {post : Nat → α → Prop} {absent : α}
    (ensures : field.Ensures post) (without : post 0 absent) (present : Bool) :
    (onlyIf present absent field).Ensures post := by
  cases present with
  | false => exact ensures_pure without
  | true => exact ensures

theorem ensures_sizedRecord :
    sizedRecord.Ensures fun _ draft => ∃ event : Event, draft.build = .ok event ∧
      event.IsPlain ∧ event.Fits := by
  simp only [sizedRecord, modernHead, component, LawfulMonad.bind_assoc, LawfulMonad.pure_bind]
  apply ensures_bind_any
  intro eventId
  apply ensures_bind_any
  intro kind
  apply ensures_bind_any
  intro eventTime
  apply ensures_bind_any
  intro entryDate
  apply ensures_bind_any
  intro duration
  apply ensures_bind restores_lineage
  intro _ lineage few
  apply ensures_bind_any
  intro lineageStart
  apply ensures_bind_any
  intro size
  apply ensures_bind (restores_nullable (restores_short "component_id"))
  intro _ componentId first
  apply ensures_bind (restores_nullable (restores_short "component_type"))
  intro _ componentType second
  apply ensures_bind_any
  intro flowFile
  apply ensures_bind (restores_nullable (restores_short "details"))
  intro _ details third
  apply ensures_bind restores_attributes
  intro _ flat fourth
  let base : Event :=
    { eventId, kind, eventTime, entryDate, duration, lineageStart, flowFile,
      lineage := UuidSet.ofList lineage, componentId, componentType, details, sourceQueue := none,
      transitUri := none, alternateUri := none, relationship := none, sourceSystemId := none,
      previousAttributes := ∅, updatedAttributes := asUpdates flat,
      currentClaim := .sizeOnly size, previousClaim := none, parents := [], children := [],
      storage := none }
  apply (ensures_modernTail base _).imp
  intro _ draft tail
  obtain ⟨event, same, tailed, last⟩ := tail
  refine ⟨base.withTailOf event, tailed ▸ Event.build_withTail rfl, ⟨rfl, rfl, rfl, rfl⟩, ?_⟩
  refine ⟨few.accepted, first.accepted, second.accepted, third.accepted,
    fault_asUpdates fourth.accepted, ?_⟩
  rw [Event.tailFields_withTailOf same]
  exact last.accepted

theorem ensures_nullableShort (field : String) :
    (nullable short).Ensures fun _ text => (Emission.nullable (.short field) text).fault = none :=
  (restores_nullable (restores_short field)).imp fun _ _ within => within.accepted

theorem ensures_legacyRecord (version : LegacyVersion) (now : Int64) :
    (legacyRecord version now).Ensures fun _ draft => ∃ event : Event,
      draft.build = .ok event ∧ event.IsPlain ∧ event.Fits := by
  unfold legacyRecord
  apply ensures_bind_any
  intro eventId
  apply ensures_bind_any
  intro _
  apply ensures_bind_any
  intro kind
  apply ensures_bind_any
  intro eventTime
  apply ensures_bind_any
  intro duration
  apply ensures_bind_any
  intro _
  apply ensures_bind_any
  intro size
  apply ensures_bind (ensures_nullableShort "component_id")
  intro _ componentId first
  apply ensures_bind (ensures_nullableShort "component_type")
  intro _ componentType second
  apply ensures_bind_any
  intro flowFile
  apply ensures_bind (ensures_counted textUuid)
  intro _ parents few
  apply ensures_bind (ensures_onlyIf (ensures_counted textUuid) (Nat.zero_le _) _)
  intro _ children fewer
  apply ensures_bind (ensures_nullableShort "transit_uri")
  intro _ sourceUri third
  apply ensures_bind (ensures_onlyIf
    (ensures_nullableShort "source_system_flow_file_identifier") rfl _)
  intro _ sourceSystemId fourth
  apply ensures_bind (ensures_nullableShort "transit_uri")
  intro _ destinationUri fifth
  apply ensures_bind_any
  intro _
  apply ensures_bind (ensures_nullableShort "alternate_identifier_uri")
  intro _ alternateUri sixth
  apply ensures_bind restores_attributes
  intro _ flat seventh
  refine ensures_pure ⟨_, rfl, ⟨rfl, rfl, rfl, rfl⟩, ?_⟩
  refine ⟨rfl, first, second, rfl, fault_asUpdates seventh.accepted, ?_⟩
  apply Event.fault_tailFields few fewer _ fourth sixth rfl
  -- One of the two addresses is kept.
  cases sourceUri with
  | none => exact fifth
  | some text => exact third

end Wire.Decoder

namespace Event

/-- What a record of any version was decoded to can be written. If it was a record of the current
version, it is not longer than before, it is decoded to the same event again, and no byte of it
is left. -/
theorem encode_of_run_record {version : UInt32} {layout : Layout}
    (known : Layout.ofVersion version = .ok layout) {now : Int64} {bytes rest : List UInt8}
    {draft : Draft} {event : Event} (read : (layout.record now).run bytes = .ok (draft, rest))
    (built : draft.build = .ok event) :
    ∃ again, event.encode event.eventId = .ok again ∧
      (version = 7 → again.length + rest.length ≤ bytes.length ∧
        ∀ (later : Int64) (more : List UInt8), ∃ redraft,
          (layout.record later).run (again ++ more) = .ok (redraft, more) ∧
            redraft.build = .ok event) := by
  have plainly {same : Event} (equal : draft.build = .ok same) (plain : same.IsPlain)
      (fits : same.Fits) : ∃ again, event.encode event.eventId = .ok again := by
    rw [built, Except.ok.injEq] at equal
    subst equal
    exact ⟨_, Emission.toExcept_eq_ok.mpr ⟨fault_fields plain fits _, rfl⟩⟩
  cases layout with
  | legacy older =>
      obtain ⟨_, _, same, equal, plain, fits⟩ := Decoder.ensures_legacyRecord older now read
      obtain ⟨again, encoded⟩ := plainly equal plain fits
      refine ⟨again, encoded, ?_⟩
      rintro rfl
      cases known
  | sized =>
      obtain ⟨_, _, same, equal, plain, fits⟩ := Decoder.ensures_sizedRecord read
      obtain ⟨again, encoded⟩ := plainly equal plain fits
      refine ⟨again, encoded, ?_⟩
      rintro rfl
      cases known
  | claimed =>
      obtain ⟨used, whole, same, equal, within, carried⟩ := Decoder.ensures_claimedRecord read
      rw [built, Except.ok.injEq] at equal
      subst equal
      have encoded :
          event.encode event.eventId = .ok (emitAll (event.fields event.eventId)).bytes :=
        Emission.toExcept_eq_ok.mpr ⟨within.accepted, rfl⟩
      refine ⟨_, encoded, fun _ => ⟨?_, ?_⟩⟩
      · have short := within.short
        omega
      · intro later more
        have rebuilt := build_draftOf event event.eventId
        rw [carried] at rebuilt
        exact ⟨Decoder.draftOf event event.eventId, run_record_draftOf encoded more later, rebuilt⟩

/-- A record that no program would write: an identifier and a key come twice, a flag is 9 and
another one 255, and the zero character takes two bytes. -/
def looseRecord : List UInt8 :=
  [0, 0, 0, 0, 0, 0, 0, 5, 0, 4, 83, 69, 78, 68, 0, 0, 0, 0, 0, 0, 0, 1, 0, 0, 0, 0, 0, 0, 0, 2,
    0, 0, 0, 0, 0, 0, 0, 3, 0, 0, 0, 3, 0, 0, 0, 0, 0, 0, 0, 0, 0, 0, 0, 0, 0, 0, 0, 9, 0, 0, 0,
    0, 0, 0, 0, 0, 0, 0, 0, 0, 0, 0, 0, 4, 0, 0, 0, 0, 0, 0, 0, 0, 0, 0, 0, 0, 0, 0, 0, 9, 0, 0,
    0, 0, 0, 0, 0, 6, 9, 0, 2, 192, 128, 0, 0, 0, 0, 0, 0, 0, 0, 1, 0, 0, 0, 0, 0, 0, 0, 2, 0, 0,
    0, 0, 2, 0, 0, 0, 1, 97, 0, 0, 0, 1, 49, 0, 0, 0, 1, 97, 0, 0, 0, 1, 50, 0, 0, 0, 0, 0, 0, 0,
    255, 0, 1, 120]

set_option maxRecDepth 4000 in
theorem run_looseRecord :
    ∃ draft event, (Layout.claimed.record 0).run (looseRecord ++ [0xFF]) = .ok (draft, [0xFF]) ∧
      draft.build = .ok event := by
  exact ⟨_, _, rfl, rfl⟩

theorem encode_of_run_record_loose :
    ∃ event again, event.encode event.eventId = .ok again ∧
      again.length ≤ looseRecord.length ∧
      ∃ redraft, (Layout.claimed.record 0).run again = .ok (redraft, []) ∧
        redraft.build = .ok event := by
  obtain ⟨draft, event, read, built⟩ := run_looseRecord
  have known : Layout.ofVersion 7 = .ok .claimed := rfl
  obtain ⟨again, encoded, current⟩ := encode_of_run_record known read built
  obtain ⟨short, reads⟩ := current rfl
  obtain ⟨redraft, reread, rebuilt⟩ := reads 0 []
  rw [List.append_nil] at reread
  rw [List.length_append] at short
  exact ⟨event, again, encoded, Nat.le_of_add_le_add_right short, redraft, reread, rebuilt⟩

end Event

end LineageJournal

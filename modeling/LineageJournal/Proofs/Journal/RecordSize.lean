import LineageJournal.Proofs.Journal.Indexing
import LineageJournal.Proofs.Wire.Size

/-! The size of a record, from the event alone. It is the number by which the encoder, the sink's
count and the decoder all move on, so whoever knows it knows where the next record begins. -/

namespace LineageJournal

open Wire

def ContentClaim.encodedLength (claim : ContentClaim) : Nat :=
  match claim.container, claim.sectionName, claim.identifier with
  | some container, some sectionName, some identifier =>
      23 + container.utf8ByteSize + sectionName.utf8ByteSize + identifier.utf8ByteSize
  | _, _, _ => 1

namespace Event

def tailLength (event : Event) : Nat :=
  match event.kind with
  | .fork | .join | .clone | .replay =>
      8 + 16 * (event.parents.length + event.children.length)
  | .receive => nullableShortSize event.transitUri + nullableShortSize event.sourceSystemId
  | .send => nullableShortSize event.transitUri
  | .addInfo => nullableShortSize event.alternateUri
  | .route => nullableShortSize event.relationship
  | .create | .drop | .expire | .contentModified | .attributesModified | .unknown => 0

/-- The 70 bytes are the fields of fixed size and the lengths and counts that every record has. -/
def encodedLength (event : Event) : Nat :=
  70 + event.kind.name.utf8ByteSize + 16 * event.lineage.size +
    nullableShortSize event.componentId + nullableShortSize event.componentType +
    nullableShortSize event.details +
    (event.previousAttributes.entries.map attributeSize).sum +
    (event.updatedAttributes.entries.map updateSize).sum +
    event.currentClaim.encodedLength + event.previousClaim.elim 1 ContentClaim.encodedLength +
    nullableShortSize event.sourceQueue + event.tailLength

end Event

theorem ContentClaim.totalSize_fields (claim : Option ContentClaim) :
    totalSize (fields claim) = claim.elim 1 encodedLength := by
  obtain _ | ⟨_ | container, _ | sectionName, _ | identifier, offset, size⟩ := claim
  case some.some.some.some =>
    simp only [fields, fieldsOf, totalSize_cons, totalSize_nil, FieldValue.size,
      Option.elim_some, encodedLength]
    omega
  all_goals rfl

namespace Event

theorem totalSize_tailFields (event : Event) :
    totalSize event.tailFields = event.tailLength := by
  simp only [tailFields, tailLength]
  cases event.kind
  case fork | join | clone | replay =>
    simp only [totalSize_cons, totalSize_nil, FieldValue.size]
    omega
  all_goals rfl

theorem totalSize_fields (event : Event) (recordId : UInt64) :
    totalSize (event.fields recordId) = event.encodedLength := by
  have lineage : event.lineage.toList.length = event.lineage.size := List.length_map ..
  simp only [fields, encodedLength, totalSize_append, totalSize_cons, totalSize_nil,
    FieldValue.size, ContentClaim.totalSize_fields, totalSize_tailFields, Option.elim_some, lineage]
  omega

theorem length_of_encode {event : Event} {recordId : UInt64} {record : List UInt8}
    (encoded : event.encode recordId = .ok record) : record.length = event.encodedLength := by
  obtain ⟨accepted, rfl⟩ := Emission.toExcept_eq_ok.mp encoded
  rw [takes_emitAll _ accepted, totalSize_fields]

/-- The record of an event has just the stated size. A writer over a sink that does not fail answers
this number, whatever it has written before, and its sink has taken as many bytes more; the decoder
leaves what comes after as many bytes, and so does a reader, whose position moves on by them. -/
theorem measured_of_encode {event : Event} {recordId : UInt64} {record : List UInt8}
    (encoded : event.encode recordId = .ok record) :
    record.length = event.encodedLength ∧
    (∀ {σ : Type} [ByteSink σ] {valid accepting : σ → Prop} {content : σ → List UInt8}
      {writer : RecordWriter σ}, IsAppending valid content → IsReliable valid accepting →
      valid writer.sink → accepting writer.sink → writer.closed = false →
      ∃ next, writer.writeRecord event recordId = (.ok event.encodedLength, next) ∧
        content next.sink = content writer.sink ++ record ∧
        next.bytesWritten = writer.bytesWritten + event.encodedLength) ∧
    (∀ (rest : List UInt8) (now : Int64), ∃ draft,
      (Layout.claimed.record now).run (record ++ rest) =
        .ok (draft, (record ++ rest).drop event.encodedLength) ∧
      draft.build = .ok (event.carried recordId)) ∧
    ∀ {σ : Type} [ByteFeed σ] {reader : RecordReader σ} {filename : String} {offset : Nat}
      {rest : List UInt8}, reader.At .claimed filename offset (record ++ rest) →
      ∀ now, ∃ read next, reader.nextRecord now = (.ok (some read), next) ∧
        next.position = reader.position + event.encodedLength := by
  have length := length_of_encode encoded
  refine ⟨length, ?_, fun rest now => ?_, ?_⟩
  · intro σ _ valid accepting content writer appending reliable start accepts isOpen
    obtain ⟨sink, wrote, taken⟩ :=
      RecordWriter.writeRecord_taken appending reliable start accepts isOpen encoded
    rw [length] at wrote
    refine ⟨_, wrote, taken.more, ?_⟩
    calc
      ByteSink.bytesWritten sink = (content writer.sink ++ record).length := by
        rw [appending.bytesWritten_eq taken.valid, taken.more]
      _ = writer.bytesWritten + event.encodedLength := by
        rw [List.length_append, length, RecordWriter.bytesWritten,
          appending.bytesWritten_eq start]
  · rw [← length, List.drop_left]
    exact ⟨_, run_record_draftOf encoded rest now, build_draftOf event recordId⟩
  · intro σ _ reader filename offset rest here now
    obtain ⟨next, answer, after⟩ :=
      here.nextRecord_isRecord (isRecord_of_encode encoded filename offset) now
    exact ⟨_, next, answer, by rw [after.position, here.position, length]⟩

theorem measured_of_encode_receipt :
    receipt.encodedLength = 206 ∧ ∃ record, receipt.encode 7 = .ok record ∧
      (∃ next, RecordWriter.writeRecord { name := "s", sink := ({} : MemorySink) } receipt 7 =
          (.ok 206, next) ∧ next.sink.bytes = record ∧ next.bytesWritten = 206) ∧
      ∃ read next, RecordReader.nextRecord 0
          { source := { feed := ScriptedFeed.ofBytes (record ++ [0xFF]) }, filename := "s",
            layout := .claimed } = (.ok (some read), next) ∧ next.position = 206 := by
  obtain ⟨record, encoded⟩ : ∃ record, receipt.encode 7 = .ok record := ⟨_, rfl⟩
  obtain ⟨-, writes, -, reads⟩ := measured_of_encode encoded
  have opened := RecordReader.at_of_delivers
    (ScriptedFeed.delivers_ofBytes (record ++ [0xFF])) .claimed "s"
  exact ⟨rfl, record, encoded,
    writes MemorySink.isAppending MemorySink.isReliable trivial trivial rfl, reads opened 0⟩

end Event

end LineageJournal

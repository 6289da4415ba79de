import LineageJournal.Proofs.Wire.Field
import LineageJournal.Proofs.Wire.Size

/-! Lists of fields read back. Nothing marks where a field ends, so what its decoder takes must
depend on its own bytes alone. Since every decoder reads exactly what was put out for its field,
whatever follows, decoders in a row read fields in a row. -/

namespace LineageJournal.Wire

namespace Field

theorem reads_emit (field : Field) : field.value.kind.decoder.Reads field.emit field.value := by
  obtain ⟨name, value⟩ := field
  cases value with
  | flag value => exact Decoder.reads_map FieldValue.flag (Decoder.reads_flag value)
  | count n => exact Decoder.reads_map FieldValue.count (Decoder.reads_count n)
  | word value => exact Decoder.reads_map FieldValue.word (Decoder.reads_uint64 value)
  | millis value => exact Decoder.reads_map FieldValue.millis (Decoder.reads_millis value)
  | short text => exact Decoder.reads_map FieldValue.short (Decoder.reads_short name text)
  | nullableShort text =>
      exact Decoder.reads_map FieldValue.nullableShort
        (Decoder.reads_nullable (Decoder.reads_short name) text)
  | long text => exact Decoder.reads_map FieldValue.long (Decoder.reads_long name text)
  | nullableLong text =>
      exact Decoder.reads_map FieldValue.nullableLong
        (Decoder.reads_nullable (Decoder.reads_long name) text)
  | uuid id => exact Decoder.reads_map FieldValue.uuid (Decoder.reads_uuid id)
  | uuids ids => exact Decoder.reads_map FieldValue.uuids (Decoder.reads_uuids ids)
  | attributes map => exact Decoder.reads_map FieldValue.attributes (Decoder.reads_attributes map)
  | updates map => exact Decoder.reads_map FieldValue.updates (Decoder.reads_updates map)
  | header header => exact Decoder.reads_map FieldValue.header (Decoder.reads_header header)

theorem reads_emitAll (fields : List Field) :
    ((fields.map fun field => field.value.kind).mapM FieldKind.decoder).Reads (emitAll fields)
      (fields.map Field.value) := by
  induction fields with
  | nil => exact Decoder.reads_pure []
  | cons field rest ih =>
      rw [List.map_cons, List.mapM_cons]
      exact Decoder.reads_bind (reads_emit field) (Decoder.reads_map (field.value :: ·) ih)

theorem emitAll_of_accepted {fields : List Field}
    (accepted : ∀ field ∈ fields, field.emit.fault = none) :
    emitAll fields = { bytes := fields.flatMap fun field => field.emit.bytes } := by
  induction fields with
  | nil => rfl
  | cons field rest ih =>
      obtain ⟨first, others⟩ := List.forall_mem_cons.mp accepted
      rw [emitAll_cons, ih others, List.flatMap_cons]
      cases emitted : field.emit with
      | mk bytes fault =>
          rw [emitted] at first
          cases first
          rfl

theorem short_of_fits {name text : String} (fits : text.utf8ByteSize ≤ 65535) :
    (Emission.short name text).fault = none :=
  Emission.fault_short.mpr (Utf8.length_encode text ▸ fits)

theorem short_of_long {name text : String} (long : 65535 < text.utf8ByteSize) :
    Emission.short name text = .refuse (.stringTooLong name text.utf8ByteSize 65535) := by
  have refused : ¬ text.utf8ByteSize ≤ maxShortLength := Nat.not_le.mpr long
  rw [Emission.short, Emission.sized, Utf8.length_encode, if_neg refused]
  rfl

/-- Fields that can be written are read back by the decoders of their kinds in the same order,
whatever follows them, and what follows is left. A header takes as many bytes as it says. A count
can be written up to 2^31 - 1. A text with a two-byte length, and so the identifier of a header, is
refused just when it is longer than 65535 bytes, and then nothing of it is put out: of a text that
may be missing its flag alone. -/
theorem run_decoders_of_accepted {fields : List Field}
    (accepted : ∀ field ∈ fields, field.emit.fault = none) :
    (∀ rest, ((fields.map fun field => field.value.kind).mapM FieldKind.decoder).run
        (fields.flatMap (fun field => field.emit.bytes) ++ rest) =
      .ok (fields.map Field.value, rest)) ∧
    (∀ name header, (emit ⟨name, .header header⟩).fault = none →
      (emit ⟨name, .header header⟩).bytes.length = header.encodedLength) ∧
    (∀ name n, (emit ⟨name, .count n⟩).fault = none ↔ n ≤ 2147483647) ∧
    (∀ name text version, text.utf8ByteSize ≤ 65535 →
      (emit ⟨name, .short text⟩).fault = none ∧
      (emit ⟨name, .nullableShort (some text)⟩).fault = none ∧
      (emit ⟨name, .header ⟨text, version⟩⟩).fault = none) ∧
    ∀ name text version, 65535 < text.utf8ByteSize →
      emit ⟨name, .short text⟩ = .refuse (.stringTooLong name text.utf8ByteSize 65535) ∧
      emit ⟨name, .nullableShort (some text)⟩ =
        .flag true ++ .refuse (.stringTooLong name text.utf8ByteSize 65535) ∧
      emit ⟨name, .header ⟨text, version⟩⟩ =
        .refuse (.stringTooLong "format_identifier" text.utf8ByteSize 65535) := by
  refine ⟨fun rest => ?_, fun name header => ?_, fun name n => Emission.fault_count,
    fun name text version fits => ?_, fun name text version long => ?_⟩
  · have read := reads_emitAll fields
    rw [emitAll_of_accepted accepted] at read
    exact read rfl rest
  · exact Emission.takes_header header
  · exact ⟨short_of_fits fits, Emission.fault_append.mpr ⟨rfl, short_of_fits fits⟩,
      Emission.fault_append.mpr ⟨short_of_fits fits, rfl⟩⟩
  · refine ⟨short_of_long long, congrArg (Emission.flag true ++ ·) (short_of_long long), ?_⟩
    exact congrArg (· ++ Emission.word 4 version.toNat) (short_of_long long)

/-- Fields of many kinds: a missing text beside empty ones, a removal beside an empty value, the
greatest count and version, and a list with a repetition. -/
def assorted : List Field :=
  [⟨"", .nullableShort none⟩, ⟨"a", .nullableShort (some "")⟩, ⟨"b", .short "é😀"⟩,
    ⟨"", .count 2147483647⟩, ⟨"", .flag true⟩, ⟨"c", .nullableLong (some "")⟩, ⟨"d", .long "x"⟩,
    ⟨"", .uuids [⟨0, 9⟩, ⟨1, 2⟩, ⟨0, 9⟩]⟩, ⟨"", .uuid ⟨0xFFFFFFFFFFFFFFFF, 0⟩⟩,
    ⟨"", .attributes (SortedMap.ofList [("k", ""), ("", "v")])⟩,
    ⟨"", .updates (SortedMap.ofList [("k", none), ("l", some "")])⟩,
    ⟨"", .header ⟨"", 0xFFFFFFFF⟩⟩, ⟨"", .word 5⟩, ⟨"", .millis (-1)⟩]

theorem run_decoders_of_accepted_assorted :
    (∀ field ∈ assorted, field.emit.fault = none) ∧
      ((assorted.map fun field => field.value.kind).mapM FieldKind.decoder).run
          (assorted.flatMap (fun field => field.emit.bytes) ++ [0xC0, 0x80]) =
        .ok (assorted.map Field.value, [0xC0, 0x80]) := by
  have accepted : ∀ field ∈ assorted, field.emit.fault = none := by decide
  exact ⟨accepted, (run_decoders_of_accepted accepted).1 [0xC0, 0x80]⟩

end Field

end LineageJournal.Wire

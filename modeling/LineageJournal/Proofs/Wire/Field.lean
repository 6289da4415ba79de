import LineageJournal.Proofs.SortedMap
import LineageJournal.Proofs.Text.Utf8
import LineageJournal.Proofs.Wire.Decoder
import LineageJournal.Proofs.Wire.Emission
import LineageJournal.Proofs.Wire.Word
import LineageJournal.Wire.FieldDecoder

/-! Fields read back. A decoder reads an emission when it gives back the value from the
bytes that were put out, whatever follows them, provided no part of the emission was refused.
Readings compose like the emissions and the decoders do. -/

namespace LineageJournal.Wire

namespace Decoder

variable {α β : Type}

/-- Nothing is said when the emission was refused. -/
def Reads (decoder : Decoder α) (emission : Emission) (value : α) : Prop :=
  emission.fault = none → ∀ rest, decoder.run (emission.bytes ++ rest) = .ok (value, rest)

theorem reads_pure (value : α) : (pure value : Decoder α).Reads .empty value :=
  fun _ _ => rfl

theorem reads_bind {decoder : Decoder α} {next : α → Decoder β} {first second : Emission}
    {value : α} {result : β} (head : decoder.Reads first value)
    (tail : (next value).Reads second result) :
    (decoder >>= next).Reads (first ++ second) result := by
  intro accepted rest
  obtain ⟨firstAccepted, secondAccepted⟩ := Emission.fault_append.mp accepted
  rw [Emission.bytes_append firstAccepted, List.append_assoc,
    run_bind_of_ok (head firstAccepted _), tail secondAccepted]

theorem reads_map {decoder : Decoder α} {emission : Emission} {value : α} (f : α → β)
    (read : decoder.Reads emission value) :
    (decoder >>= fun read => pure (f read)).Reads emission (f value) := by
  rw [← Emission.append_empty emission]
  exact reads_bind read (reads_pure _)

theorem run_take_append {demand : Demand} {next : List UInt8 → Decoder α} {count : Nat}
    {front : List UInt8} (same : front.length = count) (rest : List UInt8) :
    (take count demand next).run (front ++ rest) = (next front).run rest := by
  have enough : count ≤ (front ++ rest).length := by
    rw [List.length_append]
    omega
  rw [run_take enough, ← same, List.take_left, List.drop_left]

theorem run_word {width n : Nat} (small : n < 256 ^ width) (rest : List UInt8) :
    (word width).run (bigEndian width n ++ rest) = .ok (n, rest) := by
  rw [word, run_take_append (bigEndian_length width n), ofBigEndian_bigEndian_of_lt small]
  rfl

theorem reads_word {width n : Nat} (small : n < 256 ^ width) :
    (word width).Reads (.word width n) n :=
  fun _ rest => run_word small rest

theorem reads_uint64 (value : UInt64) : uint64.Reads (.word 8 value.toNat) value := by
  have read := reads_map UInt64.ofNat
    (reads_word (show value.toNat < 256 ^ 8 from value.toNat_lt))
  rwa [UInt64.ofNat_toNat] at read

theorem reads_millis (value : Int64) : millis.Reads (.word 8 value.toUInt64.toNat) value :=
  reads_map UInt64.toInt64 (reads_uint64 value.toUInt64)

theorem reads_flag (value : Bool) : flag.Reads (.flag value) value := by
  cases value
  · exact reads_map (· != 0) (reads_word (show 0 < 256 ^ 1 by decide))
  · exact reads_map (· != 0) (reads_word (show 1 < 256 ^ 1 by decide))

theorem reads_count (n : Nat) : count.Reads (.count n) n := by
  intro accepted
  by_cases fits : n ≤ maxLongLength
  · have small : n < 0x80000000 := by
      rw [maxLongLength] at fits
      omega
    have read : count.Reads (.word 4 n) n := by
      rw [← Emission.append_empty (.word 4 n)]
      apply reads_bind (reads_word (Nat.lt_of_lt_of_le small (by decide)))
      rw [signed32_of_lt small, if_neg (by omega), Int.toNat_natCast]
      exact reads_pure n
    rw [Emission.count, if_pos fits]
    exact read rfl
  · rw [Emission.count, if_neg fits] at accepted
    cases accepted

theorem textOfShort_encode (text : String) : textOfShort (Utf8.encode text) = done text := by
  rw [textOfShort, Utf8.decode_encode]

theorem textOfLong_encode (text : String) : textOfLong (Utf8.encode text) = done text := by
  rw [textOfLong, Utf8.decode_encode]

theorem reads_short (field text : String) : short.Reads (.short field text) text := by
  intro accepted rest
  by_cases fits : (Utf8.encode text).length ≤ maxShortLength
  · have small : (Utf8.encode text).length < 256 ^ 2 := by
      rw [maxShortLength] at fits
      omega
    rw [Emission.short, Emission.sized, if_pos fits, List.append_assoc, short,
      run_bind_of_ok (run_word small _), run_take_append rfl, textOfShort_encode]
    rfl
  · rw [Emission.short, Emission.sized, if_neg fits] at accepted
    cases accepted

theorem reads_long (field text : String) : long.Reads (.long field text) text := by
  intro accepted rest
  by_cases fits : (Utf8.encode text).length ≤ maxLongLength
  · have small : (Utf8.encode text).length < 0x80000000 := by
      rw [maxLongLength] at fits
      omega
    have word : (Utf8.encode text).length < 256 ^ 4 := Nat.lt_of_lt_of_le small (by decide)
    rw [Emission.long, Emission.sized, if_pos fits, List.append_assoc, long,
      run_bind_of_ok (run_word word _)]
    simp only [signed32_of_lt small]
    rw [if_neg (by omega), Int.toNat_natCast, run_take_append rfl, textOfLong_encode]
    rfl
  · rw [Emission.long, Emission.sized, if_neg fits] at accepted
    cases accepted

theorem reads_nullable {present : Decoder α} {emit : α → Emission}
    (reads : ∀ value, present.Reads (emit value) value) (value : Option α) :
    (nullable present).Reads (.nullable emit value) value := by
  cases value with
  | none =>
      rw [Emission.nullable, ← Emission.append_empty (.flag false)]
      exact reads_bind (reads_flag false) (reads_pure none)
  | some value => exact reads_bind (reads_flag true) (reads_map some (reads value))

theorem reads_eventKind (field : String) (kind : EventKind) :
    eventKind.Reads (.short field kind.name) kind := by
  rw [← Emission.append_empty (.short field kind.name)]
  apply reads_bind (reads_short field kind.name)
  rw [EventKind.ofName?_name]
  exact reads_pure kind

theorem reads_uuid (id : Uuid) : uuid.Reads (.uuid id) id :=
  reads_bind (reads_uint64 id.high) (reads_map (Uuid.mk id.high) (reads_uint64 id.low))

theorem reads_timesFrom {item : Decoder α} {emit : β → Emission} {value : β → α}
    (reads : ∀ written, item.Reads (emit written) (value written)) (earlier : List α)
    (items : List β) :
    (timesFrom item earlier items.length).Reads (.concat (items.map emit))
      (earlier.reverse ++ items.map value) := by
  induction items generalizing earlier with
  | nil =>
      simp only [List.map_nil, List.append_nil]
      exact reads_pure earlier.reverse
  | cons written rest ih =>
      have later := ih (value written :: earlier)
      rw [List.reverse_cons, List.append_assoc, List.singleton_append] at later
      exact reads_bind (reads written) later

/-- The items may be written in one form and read in another one. -/
theorem reads_counted_map {item : Decoder α} {emit : β → Emission} {value : β → α}
    (reads : ∀ written, item.Reads (emit written) (value written)) (items : List β) :
    (counted item).Reads (.counted emit items) (items.map value) :=
  reads_bind (reads_count items.length) (reads_timesFrom reads [] items)

theorem reads_counted {item : Decoder α} {emit : α → Emission}
    (reads : ∀ value, item.Reads (emit value) value) (values : List α) :
    (counted item).Reads (.counted emit values) values := by
  have read := reads_counted_map reads values
  rwa [List.map_id'] at read

theorem reads_uuids (ids : List Uuid) : uuids.Reads (.counted .uuid ids) ids :=
  reads_counted reads_uuid ids

theorem reads_attributeEntry (entry : String × String) :
    attributeEntry.Reads (.attributeEntry entry) entry :=
  reads_bind (reads_long _ entry.1) (reads_map (Prod.mk entry.1) (reads_long _ entry.2))

theorem reads_updateEntry (entry : String × Option String) :
    updateEntry.Reads (.updateEntry entry) entry :=
  reads_bind (reads_long _ entry.1)
    (reads_map (Prod.mk entry.1) (reads_nullable (reads_long _) entry.2))

theorem reads_attributes (map : Attributes) :
    attributes.Reads (.counted .attributeEntry map.entries) map := by
  have read := reads_map SortedMap.ofList (reads_counted reads_attributeEntry map.entries)
  rwa [SortedMap.ofList_entries] at read

theorem reads_updates (map : AttributeUpdates) :
    updates.Reads (.counted .updateEntry map.entries) map := by
  have read := reads_map SortedMap.ofList (reads_counted reads_updateEntry map.entries)
  rwa [SortedMap.ofList_entries] at read

theorem reads_header (value : SegmentHeader) : header.Reads (.header value) value := by
  apply reads_bind (reads_short "format_identifier" value.identifier)
  have read := reads_map (fun version => SegmentHeader.mk value.identifier (UInt32.ofNat version))
    (reads_word (show value.version.toNat < 256 ^ 4 from value.version.toNat_lt))
  rwa [UInt32.ofNat_toNat] at read

end Decoder

end LineageJournal.Wire

import LineageJournal.Proofs.Journal.Scanning
import LineageJournal.Proofs.Stream.Script

/-! Torn tails. A crash leaves the front of a segment, and a writer that goes on leaves more
after it. What is cut inside a record is never taken for a shorter record or for the end: the
whole records before the cut are read as before, and the cut one is reported at its offset. -/

namespace LineageJournal

open Wire

namespace Records

def endingBy (stop : Nat) (records : List (Event × Nat)) : List (Event × Nat) :=
  records.filter (·.2 ≤ stop)

def torn (offset : Nat) (detail : String) (stop : Nat) : Except JournalError Event × Nat :=
  (.error (.malformedRecord offset ("record truncated: " ++ detail)), stop)

end Records

namespace Wire.Layout

variable {layout : Layout} {filename : String} {offset : Nat} {bytes rest : List UInt8}
  {records : List (Event × Nat)}

namespace Sequence

theorem lt_of_mem (sequence : layout.Sequence filename offset bytes records) :
    ∀ record ∈ records, offset < record.2 := by
  induction sequence with
  | nil offset => exact fun record member => absurd member List.not_mem_nil
  | @cons offset bytes rest event records first later ih =>
      have positive := List.length_pos_iff.mpr first.nonempty
      intro record member
      rcases List.mem_cons.mp member with rfl | member
      · exact Nat.lt_add_of_pos_right positive
      · exact Nat.lt_trans (Nat.lt_add_of_pos_right positive) (ih record member)

theorem getLastD_eq (sequence : layout.Sequence filename offset bytes records) :
    (records.map (·.2)).getLastD offset = offset + bytes.length := by
  induction sequence with
  | nil offset => rfl
  | cons first later ih =>
      rw [List.map_cons, List.getLastD_cons, ih, List.length_append, Nat.add_assoc]

end Sequence

/-- The bytes are the front of a record, but not all of it. -/
def IsTorn (layout : Layout) (filename : String) (offset : Nat) (part : List UInt8) : Prop :=
  ∃ missing event, missing ≠ [] ∧ layout.IsRecord filename offset (part ++ missing) event

/-- A cut leaves the records that end before it, and then nothing if it falls between two
records and a torn record otherwise. -/
theorem Sequence.take (sequence : layout.Sequence filename offset bytes records) {size : Nat}
    (within : size ≤ bytes.length) :
    ∃ front part, bytes.take size = front ++ part ∧
      layout.Sequence filename offset front (Records.endingBy (offset + size) records) ∧
      (part = [] ↔ offset + size ∈ offset :: records.map (·.2)) ∧
      (part ≠ [] → layout.IsTorn filename (offset + front.length) part) := by
  induction sequence generalizing size with
  | nil offset =>
      have zero : size = 0 := Nat.le_zero.mp within
      subst zero
      exact ⟨[], [], rfl, .nil offset, iff_of_true rfl List.mem_cons_self,
        fun some => absurd rfl some⟩
  | @cons offset record rest event records first later ih =>
      have positive := List.length_pos_iff.mpr first.nonempty
      by_cases whole : record.length ≤ size
      -- The first record is kept, and what follows it is cut.
      · rw [List.length_append] at within
        obtain ⟨front, part, split, kept, between, torn⟩ :=
          ih (show size - record.length ≤ rest.length by omega)
        have place : offset + record.length + (size - record.length) = offset + size := by omega
        have moved : offset + size ≠ offset := by omega
        rw [place] at kept between
        refine ⟨record ++ front, part, ?_, ?_, ?_, ?_⟩
        · rw [List.take_append, List.take_of_length_le whole, split, List.append_assoc]
        · rw [Records.endingBy, List.filter_cons_of_pos (by simpa using whole)]
          exact .cons first kept
        · rw [List.map_cons, List.mem_cons, or_iff_right moved]
          exact between
        · rw [List.length_append, ← Nat.add_assoc]
          exact torn
      -- The cut comes before the end of the first record, so before every other end too.
      · have beyond : ∀ other ∈ (event, offset + record.length) :: records,
            offset + size < other.2 := by
          intro other member
          rcases List.mem_cons.mp member with rfl | member
          · show offset + size < offset + record.length
            omega
          · have after := later.lt_of_mem other member
            omega
        have none : Records.endingBy (offset + size)
            ((event, offset + record.length) :: records) = [] := by
          rw [Records.endingBy, List.filter_eq_nil_iff]
          intro other member
          simpa using beyond other member
        have outside : offset + size ∉ ((event, offset + record.length) :: records).map (·.2) := by
          intro member
          obtain ⟨other, among, same⟩ := List.mem_map.mp member
          exact Nat.ne_of_gt (beyond other among) same
        refine ⟨[], record.take size, ?_, none ▸ .nil offset, ?_, ?_⟩
        · rw [List.take_append_of_le_length (by omega), List.nil_append]
        · rw [List.mem_cons, or_iff_left outside, List.take_eq_nil_iff,
            or_iff_left first.nonempty, Nat.add_eq_left]
        · intro _
          refine ⟨record.drop size, event, ?_, ?_⟩
          · rw [Ne, List.drop_eq_nil_iff]
            exact whole
          · rw [List.take_append_drop]
            exact first

end Wire.Layout

theorem JournalError.ofDecoding_of_unexpectedEof (failure : Failure)
    (kind : failure.kind = .unexpectedEof) (offset : Nat) :
    ofDecoding offset failure =
      .malformedRecord offset ("record truncated: " ++ failure.message) := by
  rw [ofDecoding, kind]

theorem RecordReader.At.nextRecord_of_isTorn {σ : Type} [ByteFeed σ] {reader : RecordReader σ}
    {layout : Layout} {filename : String} {offset : Nat} {part : List UInt8}
    (place : reader.At layout filename offset part) (nonempty : part ≠ [])
    (torn : layout.IsTorn filename offset part) (now : Int64) :
    ∃ detail next, reader.nextRecord now =
      (.error (.malformedRecord offset ("record truncated: " ++ detail)), next) := by
  obtain ⟨missing, event, cut, isRecord⟩ := torn
  obtain ⟨fault, faulty, kind⟩ := isRecord.run_part cut now
  obtain ⟨next, answer⟩ := place.nextRecord_of_fault nonempty faulty
  refine ⟨fault.message, next, ?_⟩
  rw [answer, JournalError.ofDecoding_of_unexpectedEof fault.failure kind]
  rfl

namespace Records

variable {σ : Type} [ByteFeed σ] {reader : RecordReader σ} {layout : Layout}
  {filename : String} {offset : Nat} {front part : List UInt8} {records : List (Event × Nat)}
  {times : List Int64}

theorem scan_of_sequence (sequence : layout.Sequence filename offset front records)
    (place : reader.At layout filename offset front) (enough : records.length < times.length) :
    scan times { reader } = ((layout.readAll times records).map accepted, true) := by
  rw [← List.append_nil front] at place
  obtain ⟨last, there, scanned⟩ := sequence.scan place times
  cases left : times.drop records.length with
  | nil =>
      have tooFew := List.drop_eq_nil_iff.mp left
      omega
  | cons now later =>
      obtain ⟨next, answer, _⟩ := there.nextRecord_nil now
      rw [scanned, left, scan_of_none answer, List.append_nil]

theorem take_of_sequence (sequence : layout.Sequence filename offset front records)
    (place : reader.At layout filename offset front) (now : Int64) {limit : Nat}
    (enough : records.length < limit) :
    ((take now limit { reader }).1, (take now limit { reader }).2.1) =
      ((layout.readAll (.replicate limit now) records).map fun record => .ok record.1, true) := by
  have more : records.length < (List.replicate limit now).length := by
    rwa [List.length_replicate]
  have scanned := scan_of_sequence sequence place more
  rw [← scan_replicate, scanned, List.map_map]
  rfl

theorem scan_of_isTorn (sequence : layout.Sequence filename offset front records)
    (place : reader.At layout filename offset (front ++ part)) (nonempty : part ≠ [])
    (isTorn : layout.IsTorn filename (offset + front.length) part)
    (enough : records.length + 1 < times.length) :
    ∃ detail stop, scan times { reader } =
      ((layout.readAll times records).map accepted ++
        [torn (offset + front.length) detail stop], true) := by
  obtain ⟨last, there, scanned⟩ := sequence.scan place times
  have lengths : (times.drop records.length).length = times.length - records.length :=
    List.length_drop
  match left : times.drop records.length with
  | [] | [_] =>
      rw [left] at lengths
      simp only [List.length_nil, List.length_singleton] at lengths
      omega
  | now :: time :: later =>
      obtain ⟨detail, next, answer⟩ := there.nextRecord_of_isTorn nonempty isTorn now
      exact ⟨detail, next.position, by rw [scanned, left, scan_of_error answer]; rfl⟩

/-- Where a segment is scanned to a clean end, every front of it is scanned to the records
that end in it, and then to a clean end if it ends with a record, and otherwise to one
malformed record, the one that was cut. Whatever is appended, the records come first. Only
the entry date of the legacy layouts depends on the times. -/
theorem scanFeed_of_clean {feed : σ} {version : UInt32} {filename : String}
    {bytes : List UInt8} {times : List Int64} {records : List (Event × Nat)}
    (delivers : Delivers feed bytes)
    (clean : scanFeed feed version filename times = .ok (records.map accepted, true)) :
    ∃ layout, Layout.ofVersion version = .ok layout ∧
      (∀ cut ≤ bytes.length, ∀ {τ : Type} [ByteFeed τ] {shorter : τ},
        Delivers shorter (bytes.take cut) →
        ∀ times : List Int64, (endingBy cut records).length + 1 < times.length →
          (cut ∈ 0 :: records.map (·.2) →
            scanFeed shorter version filename times =
              .ok ((layout.readAll times (endingBy cut records)).map accepted, true)) ∧
          (cut ∉ 0 :: records.map (·.2) →
            ∃ detail stop, scanFeed shorter version filename times =
              .ok ((layout.readAll times (endingBy cut records)).map accepted ++
                [torn (((endingBy cut records).map (·.2)).getLastD 0) detail stop], true))) ∧
      ∀ (tail : List UInt8) {τ : Type} [ByteFeed τ] {longer : τ},
        Delivers longer (bytes ++ tail) →
        ∀ times : List Int64, ∃ later ended, scanFeed longer version filename times =
          .ok ((layout.readAll times records).map accepted ++ later, ended) := by
  cases known : Layout.ofVersion version with
  | error error =>
      rw [scanFeed, RecordReader.new, known] at clean
      cases clean
  | ok layout =>
      have opened {τ : Type} [ByteFeed τ] (feed : τ) (times : List Int64) :
          scanFeed feed version filename times =
            .ok (scan times { reader := { source := { feed }, filename, layout } }) := by
        rw [scanFeed, RecordReader.new_of_ofVersion known]
        rfl
      rw [opened, Except.ok.injEq] at clean
      have sequence : layout.Sequence filename 0 bytes records :=
        Layout.sequence_of_scan (RecordReader.at_of_delivers delivers layout filename) clean
      refine ⟨layout, rfl, ?_, ?_⟩
      · intro cut within τ _ shorter supplied times enough
        have place := RecordReader.at_of_delivers supplied layout filename
        obtain ⟨front, part, split, kept, between, isTorn⟩ := sequence.take within
        rw [Nat.zero_add] at kept between
        rw [opened, kept.getLastD_eq]
        rw [split] at place
        constructor
        · intro boundary
          rw [between.mpr boundary, List.append_nil] at place
          rw [scan_of_sequence kept place (by omega)]
        · intro inside
          -- A cut between two records would be one of the offsets.
          have nonempty : part ≠ [] := fun empty => inside (between.mp empty)
          obtain ⟨detail, stop, scanned⟩ :=
            scan_of_isTorn kept place nonempty (isTorn nonempty) enough
          exact ⟨detail, stop, by rw [scanned]⟩
      · intro tail τ _ longer supplied times
        obtain ⟨last, _, scanned⟩ :=
          sequence.scan (RecordReader.at_of_delivers supplied layout filename) times
        exact ⟨_, _, by rw [opened, scanned]⟩

/-- A record of the oldest layout, of the version without children and source systems. -/
def droppedRecord : List UInt8 :=
  [0, 0, 0, 0, 0, 0, 0, 1, 0, 4, 68, 82, 79, 80, 0, 0, 0, 0, 0, 0, 0, 2, 0, 0, 0, 0, 0, 0, 0, 0,
    0, 0, 0, 0, 0, 0, 0, 3, 0, 0, 0, 0, 0, 0, 0, 0, 0, 0, 0, 0, 0, 0, 0]

def droppedEvent (now : Int64) (offset : UInt64) : Event :=
  { eventId := 1
    kind := .drop
    eventTime := 2
    entryDate := now
    duration := -1
    lineageStart := -1
    flowFile := Uuid.nil
    lineage := ∅
    componentId := none
    componentType := none
    details := none
    sourceQueue := none
    transitUri := none
    alternateUri := none
    relationship := none
    sourceSystemId := none
    previousAttributes := ∅
    updatedAttributes := ∅
    currentClaim := .sizeOnly 3
    previousClaim := none
    parents := []
    children := []
    storage := some ⟨"segment", offset⟩ }

set_option maxRecDepth 2000 in
theorem isRecord_dropped (offset : Nat) :
    (Layout.legacy .v1).IsRecord "segment" offset droppedRecord
      (droppedEvent 0 (UInt64.ofNat offset)) := by
  have read : ((Layout.legacy .v1).record 0).run (droppedRecord ++ []) =
      .ok ({ eventId := 1, kind := some .drop, eventTime := 2, currentClaim := .sizeOnly 3 },
        []) := by
    rfl
  exact Layout.isRecord_of_run read rfl

theorem scanFeed_of_clean_dropped :
    scanFeed (ScriptedFeed.ofBytes (droppedRecord ++ droppedRecord)) 1 "segment" [4, 5, 6] =
        .ok ([(droppedEvent 4 0, 53), (droppedEvent 5 53, 106)].map accepted, true) ∧
      ∃ detail stop,
        scanFeed (ScriptedFeed.ofBytes ((droppedRecord ++ droppedRecord).take 60)) 1 "segment"
            [7, 8, 9] =
          .ok ([accepted (droppedEvent 7 0, 53), torn 53 detail stop], true) := by
  have second : (Layout.legacy .v1).Sequence "segment" 53 (droppedRecord ++ [])
      [(droppedEvent 0 53, 106)] := .cons (isRecord_dropped 53) (.nil 106)
  have sequence : (Layout.legacy .v1).Sequence "segment" 0 (droppedRecord ++ droppedRecord)
      [(droppedEvent 0 0, 53), (droppedEvent 0 53, 106)] := .cons (isRecord_dropped 0) second
  have clean : scanFeed (ScriptedFeed.ofBytes (droppedRecord ++ droppedRecord)) 1 "segment"
      [4, 5, 6] = .ok ([(droppedEvent 4 0, 53), (droppedEvent 5 53, 106)].map accepted, true) :=
    congrArg Except.ok (scan_of_sequence sequence
      (RecordReader.at_of_delivers (ScriptedFeed.delivers_ofBytes _) (.legacy .v1) "segment")
      (by decide))
  obtain ⟨layout, known, cuts, _⟩ :=
    scanFeed_of_clean (ScriptedFeed.delivers_ofBytes _) clean
  cases known
  exact ⟨clean, (cuts 60 (by decide) (ScriptedFeed.delivers_ofBytes _) [7, 8, 9]
    (by decide)).2 (by decide)⟩

end Records

end LineageJournal

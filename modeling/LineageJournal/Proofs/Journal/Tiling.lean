import LineageJournal.Proofs.Journal.Delivery
import LineageJournal.Proofs.Journal.TornTail

/-! Scans of any bytes. Whatever the bytes are, they begin with a sequence of records, and it
ends where they do or where no record can be decoded. So a scan gives these records and then at
most one error, which names the place behind them. -/

namespace LineageJournal

open Wire

theorem Wire.DecodeFault.ofDecoding_failure (fault : DecodeFault) (offset : Nat) :
    ∃ reason, JournalError.ofDecoding offset fault.failure = .malformedRecord offset reason := by
  cases fault <;> exact ⟨_, rfl⟩

namespace Wire.Decoder

theorem ensures_kind_modernTail (kind : EventKind) {draft : Draft}
    (known : draft.kind.isSome = true) :
    (modernTail kind draft).Ensures fun _ result => result.kind.isSome = true := by
  unfold modernTail
  split
  all_goals repeat (apply ensures_bind_any; intro _)
  all_goals exact ensures_pure known

theorem ensures_kind_record (layout : Layout) (now : Int64) :
    (layout.record now).Ensures fun _ draft => draft.kind.isSome = true := by
  cases layout with
  | legacy version =>
      unfold Layout.record legacyRecord
      repeat (apply ensures_bind_any; intro _)
      exact ensures_pure rfl
  | sized =>
      simp only [Layout.record, sizedRecord, modernHead, component, LawfulMonad.bind_assoc,
        LawfulMonad.pure_bind]
      repeat (apply ensures_bind_any; intro _)
      exact ensures_kind_modernTail _ rfl
  | claimed =>
      simp only [Layout.record, claimedRecord, modernHead, component, LawfulMonad.bind_assoc,
        LawfulMonad.pure_bind]
      repeat (apply ensures_bind_any; intro _)
      exact ensures_kind_modernTail _ rfl

end Wire.Decoder

namespace RecordReader

variable {filename : String} {offset : Nat} {draft : Draft} {event : Event}

theorem exists_finish {layout : Layout} {now : Int64} {bytes rest : List UInt8}
    (read : (layout.record now).run bytes = .ok (draft, rest)) (filename : String)
    (offset : Nat) : ∃ event, finish filename offset draft = .ok event := by
  obtain ⟨_, _, known⟩ := Decoder.ensures_kind_record layout now read
  obtain ⟨kind, same⟩ := Option.isSome_iff_exists.mp known
  unfold finish Draft.build
  simp only [same]
  exact ⟨_, rfl⟩

theorem storage_of_finish (finished : finish filename offset draft = .ok event) :
    event.storage = some ⟨filename, UInt64.ofNat offset⟩ := by
  rw [finish_eq_ok] at finished
  unfold Draft.build at finished
  cases kind : draft.kind with
  | none => simp [kind] at finished
  | some known =>
      simp only [kind, Except.ok.injEq] at finished
      subst finished
      rfl

end RecordReader

namespace Records

def starts (offset : Nat) (records : List (Event × Nat)) : List Nat :=
  (offset :: records.map (·.2)).dropLast

theorem starts_cons (offset : Nat) (record : Event × Nat) (later : List (Event × Nat)) :
    starts offset (record :: later) = offset :: starts record.2 later := rfl

end Records

namespace Wire.Layout

variable {layout : Layout} {filename : String} {offset : Nat} {bytes : List UInt8}
  {records : List (Event × Nat)}

theorem IsRecord.storage {record : List UInt8} {event : Event}
    (isRecord : layout.IsRecord filename offset record event) :
    event.storage = some ⟨filename, UInt64.ofNat offset⟩ := by
  obtain ⟨draft, _, finished⟩ := isRecord.decodes 0 []
  exact (RecordReader.storage_of_finish finished : (layout.readAt 0 event).storage = _)

namespace Sequence

theorem map_storage (sequence : layout.Sequence filename offset bytes records) :
    records.map (·.1.storage) =
      (Records.starts offset records).map fun start => some ⟨filename, UInt64.ofNat start⟩ := by
  induction sequence with
  | nil offset => rfl
  | cons first later ih => rw [Records.starts_cons, List.map_cons, List.map_cons, first.storage, ih]

theorem pairwise (sequence : layout.Sequence filename offset bytes records) :
    (offset :: records.map (·.2)).Pairwise (· < ·) := by
  have after := sequence.lt_of_mem
  induction sequence with
  | nil offset => exact List.pairwise_singleton _ _
  | cons first later ih =>
      refine List.pairwise_cons.mpr ⟨?_, ih later.lt_of_mem⟩
      intro stop member
      obtain ⟨record, among, rfl⟩ := List.mem_map.mp member
      exact after record among

theorem lt_of_mem_starts (sequence : layout.Sequence filename offset bytes records) :
    ∀ start ∈ Records.starts offset records, start < offset + bytes.length := by
  induction sequence with
  | nil offset => exact fun start member => absurd member List.not_mem_nil
  | @cons offset record rest event records first later ih =>
      have positive := List.length_pos_iff.mpr first.nonempty
      intro start member
      rw [List.length_append]
      rcases List.mem_cons.mp member with rfl | member
      · omega
      · have within := ih start member
        omega

end Sequence

/-- Any bytes begin with records, as many as can be decoded. What is behind them is faulty at
any time, unless it is nothing. -/
theorem exists_sequence (layout : Layout) (filename : String) (offset : Nat)
    (bytes : List UInt8) :
    ∃ records front rest, front ++ rest = bytes ∧ layout.Sequence filename offset front records ∧
      (rest ≠ [] → ∃ fault, ∀ now, (layout.record now).run rest = .error fault) := by
  by_cases empty : bytes = []
  · exact ⟨[], [], bytes, rfl, .nil offset, fun some => absurd empty some⟩
  · cases read : (layout.record 0).run bytes with
    -- The time only dates the draft of a record, so a fault does not depend on it.
    | error fault =>
        refine ⟨[], [], bytes, rfl, .nil offset, fun _ => ⟨fault, fun now => ?_⟩⟩
        rw [record_eq_redate, Decoder.run_bind, read]
    | ok decoded =>
        obtain ⟨draft, left⟩ := decoded
        have shorter := length_lt_of_run_record read
        obtain ⟨record, rfl⟩ := Decoder.suffix_of_run read
        obtain ⟨event, finished⟩ := RecordReader.exists_finish read filename offset
        obtain ⟨records, front, rest, rfl, later, faulty⟩ :=
          exists_sequence layout filename (offset + record.length) left
        exact ⟨_, record ++ front, rest, List.append_assoc _ _ _,
          .cons (isRecord_of_run read finished) later, faulty⟩
termination_by bytes.length

end Wire.Layout

namespace Records

variable {σ : Type} [ByteFeed σ]

/-- Calls `next` once for each time, after the end as well. Every item comes with the position
after it. -/
def nextItems : List Int64 → Records σ → List (Option (Except JournalError Event) × Nat)
  | [], _ => []
  | now :: later, records =>
    match records.next now with
    | (item, rest) => (item, rest.reader.position) :: rest.nextItems later

variable {reader next : RecordReader σ} {now : Int64}

theorem nextItems_finished (reader : RecordReader σ) (times : List Int64) :
    nextItems times { reader, finished := true } =
      List.replicate times.length (none, reader.position) := by
  induction times with
  | nil => rfl
  | cons now later ih =>
      show (none, reader.position) :: nextItems later { reader, finished := true } = _
      rw [ih, List.length_cons, List.replicate_succ]

def item (record : Event × Nat) : Option (Except JournalError Event) × Nat :=
  (some (.ok record.1), record.2)

theorem nextItems_of_leads {last : RecordReader σ} {times left : List Int64}
    {records : List (Event × Nat)} (leads : reader.Leads times records left last) :
    nextItems times { reader } = records.map item ++ nextItems left { reader := last } := by
  induction leads with
  | stay times reader => rfl
  | ended reader last => rfl
  | next answer later ih =>
      simp only [nextItems, next_of_some answer, ih]
      rfl

theorem nextItems_nil {layout : Layout} {filename : String} {offset : Nat}
    (place : reader.At layout filename offset []) (times : List Int64) :
    nextItems times { reader } = List.replicate times.length (none, offset) := by
  cases times with
  | nil => rfl
  | cons now later =>
      obtain ⟨next, answer, after⟩ := place.nextRecord_nil now
      simp only [nextItems, next_of_none answer, nextItems_finished, after.position]
      rfl

theorem nextItems_of_fault {layout : Layout} {filename : String} {offset : Nat}
    {bytes : List UInt8} {fault : DecodeFault}
    (place : reader.At layout filename offset bytes) (more : bytes ≠ [])
    (faulty : ∀ now, (layout.record now).run bytes = .error fault) (times : List Int64) :
    ∃ stop, nextItems times { reader } =
      ((some (.error (.ofDecoding offset fault.failure)), stop) ::
        List.replicate times.length (none, stop)).take times.length := by
  cases times with
  | nil => exact ⟨offset, rfl⟩
  | cons now later =>
      obtain ⟨next, answer⟩ := place.nextRecord_of_fault more (faulty now)
      refine ⟨next.position, ?_⟩
      simp [nextItems, next_of_error answer, nextItems_finished, List.take_replicate]

/-- What a scan of the bytes comes to: the records that tile the front of them, and the error,
if the rest is not empty. -/
structure Tiling (layout : Layout) (filename : String) (bytes front rest : List UInt8)
    (records : List (Event × Nat)) (error : Option JournalError) : Prop where
  whole : front ++ rest = bytes
  sequence : layout.Sequence filename 0 front records
  /-- Every record is stamped with its place, which is where the one before it ends. -/
  stamped : records.map (·.1.storage) =
    (starts 0 records).map fun start => some ⟨filename, UInt64.ofNat start⟩
  ascending : (0 :: records.map (·.2)).Pairwise (· < ·)
  within : ∀ start ∈ starts 0 records, start < front.length
  /-- The stamps count the bytes, as long as 64 bits can. -/
  exact : bytes.length ≤ UInt64.size →
    ∀ start ∈ starts 0 records, (UInt64.ofNat start).toNat = start
  last : (records.map (·.2)).getLastD 0 = front.length
  clean : error = none ↔ rest = []
  /-- The error is a fault that the decoder finds in the rest, at any time. -/
  malformed : ∀ reported ∈ error, ∃ fault reason,
    (∀ now, (layout.record now).run rest = .error fault) ∧
      reported = .ofDecoding front.length fault.failure ∧
      reported = .malformedRecord front.length reason

theorem exists_tiling (layout : Layout) (filename : String) (bytes : List UInt8) :
    ∃ front rest records error, Tiling layout filename bytes front rest records error := by
  obtain ⟨records, front, rest, whole, sequence, faulty⟩ :=
    Layout.exists_sequence layout filename 0 bytes
  have last := sequence.getLastD_eq
  have within := sequence.lt_of_mem_starts
  rw [Nat.zero_add] at last within
  have exact : bytes.length ≤ UInt64.size →
      ∀ start ∈ starts 0 records, (UInt64.ofNat start).toNat = start := by
    intro few start member
    have before := within start member
    rw [← whole, List.length_append] at few
    exact UInt64.toNat_ofNat_of_lt' (show start < UInt64.size by omega)
  by_cases empty : rest = []
  · exact ⟨front, rest, records, none, whole, sequence, sequence.map_storage, sequence.pairwise,
      within, exact, last, iff_of_true rfl empty, fun reported none => nomatch none⟩
  · obtain ⟨fault, always⟩ := faulty empty
    obtain ⟨reason, malformed⟩ := fault.ofDecoding_failure front.length
    refine ⟨front, rest, records, some (.ofDecoding front.length fault.failure), whole, sequence,
      sequence.map_storage, sequence.pairwise, within, exact, last, iff_of_false nofun empty, ?_⟩
    intro reported same
    cases same
    exact ⟨fault, reason, always, rfl, malformed⟩

def remainder (error : Option JournalError) (stop count : Nat) :
    List (Option (Except JournalError Event) × Nat) :=
  ((error.toList.map fun reported => some (.error reported)) ++ .replicate count none).map (·, stop)

theorem Tiling.nextItems_rest {layout : Layout} {filename : String} {bytes front rest : List UInt8}
    {records : List (Event × Nat)} {error : Option JournalError}
    (tiling : Tiling layout filename bytes front rest records error)
    (place : reader.At layout filename front.length rest) {times : List Int64} {count : Nat}
    (enough : times.length ≤ count) :
    ∃ stop, (error = none → stop = bytes.length) ∧
      nextItems times { reader } = (remainder error stop count).take times.length := by
  cases error with
  | none =>
      have empty := tiling.clean.mp rfl
      have whole := tiling.whole
      rw [empty, List.append_nil] at whole
      rw [empty, whole] at place
      refine ⟨bytes.length, fun _ => rfl, ?_⟩
      rw [nextItems_nil place]
      simp [remainder, List.take_replicate, enough]
  | some reported =>
      have more : rest ≠ [] := fun empty => nomatch tiling.clean.mpr empty
      obtain ⟨fault, _, always, same, _⟩ := tiling.malformed reported rfl
      obtain ⟨stop, items⟩ := nextItems_of_fault place more always times
      refine ⟨stop, nofun, ?_⟩
      rw [items, same]
      cases times with
      | nil => rfl
      | cons now later =>
          rw [List.length_cons] at enough
          have short : later.length ≤ count := by omega
          simp [remainder, List.take_replicate, short]

/-- The records of any bytes, of any version, are given one after another, then the error, if
the records do not cover the bytes, and then nothing, however often one asks. -/
theorem nextItems_of_delivers {version : UInt32} {layout : Layout}
    (known : Layout.ofVersion version = .ok layout) {feed : σ} {bytes : List UInt8}
    (delivers : Delivers feed bytes) (filename : String) :
    ∃ opened front rest records error, RecordReader.new feed version filename = .ok opened ∧
      Tiling layout filename bytes front rest records error ∧
      ∀ times : List Int64, ∃ stop, (error = none → stop = bytes.length) ∧
        nextItems times { reader := opened } =
          ((layout.readAll times records).map item ++
            remainder error stop times.length).take times.length := by
  obtain ⟨front, rest, records, error, tiling⟩ := exists_tiling layout filename bytes
  refine ⟨_, front, rest, records, error, RecordReader.new_of_ofVersion known feed filename,
    tiling, ?_⟩
  intro times
  have place := RecordReader.at_of_delivers delivers layout filename
  rw [← tiling.whole] at place
  obtain ⟨last, there, leads⟩ := tiling.sequence.leads place times
  have items := nextItems_of_leads leads
  rw [Nat.zero_add] at there
  have fewer : (times.drop records.length).length ≤ times.length := by
    rw [List.length_drop]
    omega
  obtain ⟨stop, atEnd, others⟩ := tiling.nextItems_rest there fewer
  have read : ((layout.readAll times records).map item).length =
      min times.length records.length := by
    rw [List.length_map, Layout.readAll, List.length_zipWith]
  have all : ((layout.readAll times records).map item).take times.length =
      (layout.readAll times records).map item := by
    apply List.take_of_length_le
    omega
  have left : (times.drop records.length).length =
      times.length - min times.length records.length := by
    rw [List.length_drop]
    omega
  refine ⟨stop, atEnd, ?_⟩
  calc
    nextItems times _
      = (layout.readAll times records).map item ++
          (remainder error stop times.length).take (times.drop records.length).length := by
        rw [items, others]
    _ = ((layout.readAll times records).map item ++
          remainder error stop times.length).take times.length := by
        rw [List.take_append, all, read, left]

def strangePart : List UInt8 := [0, 0, 0, 0, 0, 0, 0, 2, 0, 1, 63]

set_option maxRecDepth 2000 in
theorem run_strangePart :
    ((Layout.legacy .v1).record 0).run strangePart = .error (.unknownKind "?") := by
  rfl

theorem nextItems_of_delivers_strange :
    ∃ opened front rest records reason,
      RecordReader.new (ScriptedFeed.ofBytes (droppedRecord ++ strangePart)) 1 "segment" =
        .ok opened ∧
      Tiling (.legacy .v1) "segment" (droppedRecord ++ strangePart) front rest records
        (some (.malformedRecord front.length reason)) := by
  have delivers := ScriptedFeed.delivers_ofBytes (droppedRecord ++ strangePart)
  have known : Layout.ofVersion 1 = .ok (.legacy .v1) := rfl
  obtain ⟨opened, front, rest, records, error, new, tiling, given⟩ :=
    nextItems_of_delivers known delivers "segment"
  cases reported : error with
  | some error =>
      rw [reported] at tiling
      obtain ⟨_, reason, _, _, same⟩ := tiling.malformed error rfl
      exact ⟨opened, front, rest, records, reason, new, same ▸ tiling⟩
  | none =>
      rw [RecordReader.new_of_ofVersion known] at new
      cases new
      have place := RecordReader.at_of_delivers delivers (.legacy .v1) "segment"
      obtain ⟨next, first, after⟩ := place.nextRecord_isRecord (isRecord_dropped 0) 0
      obtain ⟨last, second⟩ := after.nextRecord_of_fault (List.cons_ne_nil _ _) run_strangePart
      obtain ⟨stop, -, items⟩ := given [0, 0]
      simp only [nextItems, next_of_some first, next_of_error second] at items
      have among := List.mem_of_mem_take (items ▸ List.mem_cons_of_mem _ List.mem_cons_self)
      simp [reported, remainder, item] at among

end Records

end LineageJournal

import LineageJournal.Journal.Reader
import LineageJournal.Proofs.Stream.Source
import LineageJournal.Proofs.Wire.Clock

/-! Reading records. A reader whose feed delivers the bytes of a segment answers what the
bytes say: the record that begins at its place, the end, or a malformed record, and after a
record it is at the next one. -/

namespace LineageJournal

open Wire

/-- The event that is read at the time `now` where this one was read before. -/
def Wire.Layout.readAt (layout : Layout) (now : Int64) (event : Event) : Event :=
  { event with entryDate := layout.entryDate now event.entryDate }

/-- The bytes are a record that begins at the offset: whatever follows them, and whenever
they are read, the event is read from them and no more is taken. -/
structure Wire.Layout.IsRecord (layout : Layout) (filename : String) (offset : Nat)
    (record : List UInt8) (event : Event) : Prop where
  nonempty : record ≠ []
  decodes : ∀ now rest, ∃ draft, (layout.record now).run (record ++ rest) = .ok (draft, rest) ∧
    RecordReader.finish filename offset draft = .ok (layout.readAt now event)

namespace RecordReader

variable {filename : String} {offset : Nat} {draft : Draft} {event : Event}

theorem finish_eq_ok :
    finish filename offset draft = .ok event ↔
      Draft.build { draft with storage := some ⟨filename, UInt64.ofNat offset⟩ } = .ok event := by
  rw [finish]
  cases Draft.build { draft with storage := some ⟨filename, UInt64.ofNat offset⟩ } with
  | ok built => exact ⟨fun same => by cases same; rfl, fun same => by cases same; rfl⟩
  | error missing => exact ⟨fun same => (nomatch same), fun same => (nomatch same)⟩

theorem finish_readAt (finished : finish filename offset draft = .ok event) (layout : Layout)
    (now : Int64) :
    finish filename offset { draft with entryDate := layout.entryDate now draft.entryDate } =
      .ok (layout.readAt now event) := by
  rw [finish_eq_ok] at finished ⊢
  unfold Draft.build at finished ⊢
  cases kind : draft.kind with
  | none => simp [kind] at finished
  | some known =>
      simp only [kind, Except.ok.injEq] at finished ⊢
      subst finished
      rfl

end RecordReader

namespace Wire.Layout

theorem ofVersion_of_supported {version : UInt32} (least : 1 ≤ version)
    (most : version ≤ 7) : ∃ layout, ofVersion version = .ok layout ∧ layout.version = version := by
  have lower : 1 ≤ version.toNat := UInt32.le_iff_toNat_le.mp least
  have upper : version.toNat ≤ 7 := UInt32.le_iff_toNat_le.mp most
  have each : version = 1 ∨ version = 2 ∨ version = 3 ∨ version = 4 ∨ version = 5 ∨
      version = 6 ∨ version = 7 := by
    simp only [← UInt32.toNat_inj, UInt32.reduceToNat]
    omega
  rcases each with rfl | rfl | rfl | rfl | rfl | rfl | rfl
  all_goals exact ⟨_, rfl, rfl⟩

variable {layout : Layout} {filename : String} {offset : Nat} {record rest : List UInt8}
  {event : Event} {draft : Draft} {now : Int64}

theorem isRecord_of_run (read : (layout.record now).run (record ++ rest) = .ok (draft, rest))
    (finished : RecordReader.finish filename offset draft = .ok event) :
    layout.IsRecord filename offset record event where
  nonempty := by
    intro empty
    have shorter := length_lt_of_run_record read
    rw [empty] at shorter
    exact Nat.lt_irrefl _ shorter
  decodes := by
    intro later more
    have alone : (layout.record now).run record = .ok (draft, []) :=
      Decoder.run_of_run_append read
    exact ⟨_, Decoder.run_append (run_record_at alone later) more,
      RecordReader.finish_readAt finished layout later⟩

theorem IsRecord.run_part {part missing : List UInt8}
    (isRecord : layout.IsRecord filename offset (part ++ missing) event)
    (cut : missing ≠ []) (now : Int64) :
    ∃ fault, (layout.record now).run part = .error fault ∧ fault.kind = .unexpectedEof := by
  obtain ⟨draft, read, _⟩ := isRecord.decodes now []
  have shorter : part.length + ([] : List UInt8).length < (part ++ missing ++ []).length := by
    have positive := List.length_pos_iff.mpr cut
    simp only [List.length_append, List.length_nil]
    omega
  obtain ⟨fault, faulty, kind⟩ := Decoder.run_take_of_run read shorter
  rw [List.append_nil, List.take_left] at faulty
  exact ⟨fault, faulty, kind⟩

end Wire.Layout

namespace RecordReader

variable {σ : Type} {layout : Layout}

theorem new_of_ofVersion {version : UInt32} (known : Layout.ofVersion version = .ok layout)
    (feed : σ) (filename : String) :
    new feed version filename = .ok { source := { feed }, filename, layout } := by
  rw [new, known]
  rfl

/-- The reader reads this layout under this name, is at the offset, and these bytes are ahead of
it by what is ahead of its feed. -/
structure Place (ahead : σ → List UInt8 → Prop) (reader : RecordReader σ) (layout : Layout)
    (filename : String) (offset : Nat) (bytes : List UInt8) : Prop where
  layout : reader.layout = layout
  filename : reader.filename = filename
  source : reader.source.Place ahead offset bytes

variable {ahead : σ → List UInt8 → Prop} {reader : RecordReader σ} {filename : String}
  {offset : Nat} {bytes : List UInt8}

theorem Place.position (place : reader.Place ahead layout filename offset bytes) :
    reader.position = offset :=
  place.source.position

variable [ByteFeed σ]

structure At (reader : RecordReader σ) (layout : Layout) (filename : String) (offset : Nat)
    (bytes : List UInt8) : Prop where
  layout : reader.layout = layout
  filename : reader.filename = filename
  source : reader.source.At offset bytes

theorem at_of_delivers {feed : σ} (delivers : Delivers feed bytes) (layout : Layout)
    (filename : String) :
    At { source := { feed }, filename, layout } layout filename 0 bytes :=
  ⟨rfl, rfl, Source.at_of_delivers delivers⟩

theorem At.place (here : reader.At layout filename offset bytes) :
    reader.Place (fun feed bytes => Delivers feed bytes) layout filename offset bytes :=
  ⟨here.layout, here.filename, here.source.place⟩

theorem Place.at (place : reader.Place ahead layout filename offset bytes)
    (delivery : IsDelivery none ahead) : reader.At layout filename offset bytes :=
  ⟨place.layout, place.filename, place.source.at delivery⟩

theorem At.position (here : reader.At layout filename offset bytes) :
    reader.position = offset :=
  here.source.position

theorem Place.nextRecord_atEnd {stop : Option Failure}
    (place : reader.Place ahead layout filename offset []) (delivery : IsDelivery stop ahead)
    (now : Int64) :
    (stop = none ∧ ∃ next, reader.nextRecord now = (.ok none, next) ∧
      next.Place ahead layout filename offset []) ∨
    ∃ failure next, stop = some failure ∧
      reader.nextRecord now = (.error (.io failure), next) := by
  rcases place.source.lookAhead_nil delivery with
    ⟨ends, source, looked, after⟩ | ⟨failure, source, stops, looked⟩
  · exact .inl ⟨ends, { reader with source }, by rw [nextRecord, looked], place.layout,
      place.filename, after⟩
  · exact .inr ⟨failure, { reader with source }, stops, by rw [nextRecord, looked]⟩

theorem Place.nextRecord_nil (place : reader.Place ahead layout filename offset [])
    (delivery : IsDelivery none ahead) (now : Int64) :
    ∃ next, reader.nextRecord now = (.ok none, next) ∧
      next.Place ahead layout filename offset [] := by
  rcases place.nextRecord_atEnd delivery now with ⟨-, ended⟩ | ⟨_, _, never, _⟩
  · exact ended
  · cases never

theorem Place.lookAhead_cases {stop : Option Failure}
    (place : reader.Place ahead layout filename offset bytes) (serving : IsServing stop ahead)
    (more : bytes ≠ []) (now : Int64) :
    (∃ middle : RecordReader σ, middle.Place ahead layout filename offset bytes ∧
      reader.nextRecord now =
        ((middle.decodeRecord now).1.map some, (middle.decodeRecord now).2)) ∨
    ∃ failure next, stop = some failure ∧
      reader.nextRecord now = (.error (.io failure), next) := by
  obtain ⟨byte, rest, rfl⟩ := List.exists_cons_of_ne_nil more
  rcases place.source.lookAhead_cases serving with
    ⟨_, source, looked, back, after⟩ | ⟨failure, source, stops, looked⟩
  · refine .inl ⟨{ reader with source }, ⟨place.layout, place.filename, after⟩, ?_⟩
    simp only [nextRecord, looked, back]
  · exact .inr ⟨failure, { reader with source }, stops, by simp only [nextRecord, looked]⟩

theorem Place.nextRecord_ne_nil {stop : Option Failure}
    (place : reader.Place ahead layout filename offset bytes) (delivery : IsDelivery stop ahead)
    (more : bytes ≠ []) (now : Int64) :
    ∃ middle : RecordReader σ, middle.Place ahead layout filename offset bytes ∧
      reader.nextRecord now =
        ((middle.decodeRecord now).1.map some, (middle.decodeRecord now).2) :=
  (place.lookAhead_cases delivery.isServing more now).resolve_right
    fun ⟨_, _, never, _⟩ => nomatch never

theorem Place.decodeRecord_cases {stop : Option Failure} {rest : List UInt8} {draft : Draft}
    {now : Int64} (place : reader.Place ahead layout filename offset bytes)
    (serving : IsServing stop ahead) (read : (layout.record now).run bytes = .ok (draft, rest)) :
    (∃ next, reader.decodeRecord now = (finish filename offset draft, next) ∧
      next.Place ahead layout filename (offset + (bytes.length - rest.length)) rest) ∨
    ∃ failure next, stop = some failure ∧
      reader.decodeRecord now = (.error (.ofDecoding offset failure), next) := by
  rcases place.source.readFrom_cases serving read with
    ⟨source, done, after⟩ | ⟨failure, source, stops, done⟩
  · refine .inl ⟨{ reader with source }, ?_, ⟨place.layout, place.filename, after⟩⟩
    simp only [decodeRecord, place.layout, place.filename, place.position, done]
  · refine .inr ⟨failure, { reader with source }, stops, ?_⟩
    simp only [decodeRecord, place.layout, place.position, done]

theorem Place.nextRecord_cases {stop : Option Failure} {rest : List UInt8} {draft : Draft}
    {now : Int64} (place : reader.Place ahead layout filename offset bytes)
    (serving : IsServing stop ahead) (read : (layout.record now).run bytes = .ok (draft, rest)) :
    (∃ next, reader.nextRecord now = ((finish filename offset draft).map some, next) ∧
      next.Place ahead layout filename (offset + (bytes.length - rest.length)) rest) ∨
    ∃ failure next, stop = some failure ∧ (reader.nextRecord now = (.error (.io failure), next) ∨
      reader.nextRecord now = (.error (.ofDecoding offset failure), next)) := by
  have more : bytes ≠ [] := by
    intro empty
    have shorter := Layout.length_lt_of_run_record read
    rw [empty] at shorter
    exact Nat.not_lt_zero _ shorter
  rcases place.lookAhead_cases serving more now with
    ⟨middle, here, step⟩ | ⟨failure, next, stops, failed⟩
  · rw [step]
    rcases here.decodeRecord_cases serving read with
      ⟨next, done, after⟩ | ⟨failure, next, stops, failed⟩
    · exact .inl ⟨next, by rw [done], after⟩
    · exact .inr ⟨failure, next, stops, .inr (by rw [failed]; rfl)⟩
  · exact .inr ⟨failure, next, stops, .inl failed⟩

theorem Place.nextRecord_of_run {stop : Option Failure} {rest : List UInt8} {draft : Draft}
    {now : Int64} (place : reader.Place ahead layout filename offset bytes)
    (delivery : IsDelivery stop ahead)
    (read : (layout.record now).run bytes = .ok (draft, rest)) :
    ∃ next, reader.nextRecord now = ((finish filename offset draft).map some, next) ∧
      next.Place ahead layout filename (offset + (bytes.length - rest.length)) rest :=
  (place.nextRecord_cases delivery.isServing read).resolve_right
    fun ⟨_, _, never, _⟩ => nomatch never

theorem Place.nextRecord_isRecord {record rest : List UInt8} {event : Event}
    (place : reader.Place ahead layout filename offset (record ++ rest))
    (delivery : IsDelivery none ahead) (isRecord : layout.IsRecord filename offset record event)
    (now : Int64) :
    ∃ next, reader.nextRecord now = (.ok (some (layout.readAt now event)), next) ∧
      next.Place ahead layout filename (offset + record.length) rest := by
  obtain ⟨draft, read, finished⟩ := isRecord.decodes now rest
  obtain ⟨next, done, after⟩ := place.nextRecord_of_run delivery read
  rw [finished] at done
  rw [List.length_append, Nat.add_sub_cancel] at after
  exact ⟨next, done, after⟩

theorem At.nextRecord_nil (here : reader.At layout filename offset []) (now : Int64) :
    ∃ next, reader.nextRecord now = (.ok none, next) ∧ next.At layout filename offset [] := by
  obtain ⟨next, answer, after⟩ := here.place.nextRecord_nil (isDelivery_delivers none) now
  exact ⟨next, answer, after.at (isDelivery_delivers none)⟩

theorem At.nextRecord_ne_nil (here : reader.At layout filename offset bytes)
    (more : bytes ≠ []) (now : Int64) :
    ∃ middle : RecordReader σ, middle.At layout filename offset bytes ∧
      reader.nextRecord now =
        ((middle.decodeRecord now).1.map some, (middle.decodeRecord now).2) := by
  obtain ⟨middle, there, step⟩ :=
    here.place.nextRecord_ne_nil (isDelivery_delivers none) more now
  exact ⟨middle, there.at (isDelivery_delivers none), step⟩

theorem At.nextRecord_of_run {rest : List UInt8} {draft : Draft} {now : Int64}
    (here : reader.At layout filename offset bytes)
    (read : (layout.record now).run bytes = .ok (draft, rest)) :
    ∃ next, reader.nextRecord now = ((finish filename offset draft).map some, next) ∧
      next.At layout filename (offset + (bytes.length - rest.length)) rest := by
  obtain ⟨next, answer, after⟩ := here.place.nextRecord_of_run (isDelivery_delivers none) read
  exact ⟨next, answer, after.at (isDelivery_delivers none)⟩

theorem At.nextRecord_of_fault {fault : DecodeFault} {now : Int64}
    (here : reader.At layout filename offset bytes) (more : bytes ≠ [])
    (faulty : (layout.record now).run bytes = .error fault) :
    ∃ next, reader.nextRecord now = (.error (.ofDecoding offset fault.failure), next) := by
  obtain ⟨middle, there, step⟩ := here.nextRecord_ne_nil more now
  obtain ⟨source, done⟩ := there.source.readFrom_of_fault faulty
  refine ⟨{ middle with source }, ?_⟩
  rw [step]
  simp only [decodeRecord, there.layout, there.position, done]
  rfl

theorem At.nextRecord_isRecord {record rest : List UInt8} {event : Event}
    (here : reader.At layout filename offset (record ++ rest))
    (isRecord : layout.IsRecord filename offset record event) (now : Int64) :
    ∃ next, reader.nextRecord now = (.ok (some (layout.readAt now event)), next) ∧
      next.At layout filename (offset + record.length) rest := by
  obtain ⟨next, answer, after⟩ :=
    here.place.nextRecord_isRecord (isDelivery_delivers none) isRecord now
  exact ⟨next, answer, after.at (isDelivery_delivers none)⟩

theorem At.skipTo (place : reader.At layout filename offset bytes) {target : Nat}
    (ahead : offset ≤ target) (within : target - offset ≤ bytes.length) :
    ∃ next, reader.skipTo target = (.ok (), next) ∧
      next.At layout filename target (bytes.drop (target - offset)) := by
  obtain ⟨source, gathered, after⟩ := place.source.gather_full .copying within
  rw [Nat.add_sub_cancel' ahead] at after
  have notBehind : ¬ target < reader.position := by
    rw [place.position]
    omega
  refine ⟨{ reader with source }, ?_, ⟨place.layout, place.filename, after⟩⟩
  rw [RecordReader.skipTo, if_neg notBehind, skip, skipBytes, place.position, gathered]
  rfl

end RecordReader

end LineageJournal

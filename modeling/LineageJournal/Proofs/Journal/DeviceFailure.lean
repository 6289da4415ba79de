import LineageJournal.Proofs.Journal.Seeking

/-! Devices that fail. Where the feed fails when it is read at some place, a record that ends
before the place is read as ever, for no byte after it is asked for, and a record that goes on
there, or an end that lies there, is reported with the failure and never as data, as an end or
as a malformed record. -/

namespace LineageJournal

open Wire

/-- The failure is no interruption, after which reading goes on, and it does not look like one
that comes from the data. -/
structure Failure.IsForeign (failure : Failure) : Prop where
  lasting : failure.kind ≠ .interrupted
  noEnd : failure.kind ≠ .unexpectedEof
  noFault : failure.kind ≠ .invalidData

theorem JournalError.ofDecoding_of_isForeign {failure : Failure} (foreign : failure.IsForeign)
    (offset : Nat) : ofDecoding offset failure = .io failure := by
  unfold ofDecoding
  split
  · exact absurd ‹_› foreign.noEnd
  · exact absurd ‹_› foreign.noFault
  · rfl

theorem JournalError.ofHeader_of_isForeign {failure : Failure} (foreign : failure.IsForeign) :
    ofHeader failure = .io failure := by
  unfold ofHeader
  split
  · exact absurd ‹_› foreign.noEnd
  · exact absurd ‹_› foreign.noFault
  · rfl

/-- The feed brings the bytes in pieces of whatever sizes, with whatever interruptions, and when
it is read at the place it fails. -/
def FailsAt {σ : Type} [ByteFeed σ] (feed : σ) (bytes : List UInt8) (place : Nat)
    (failure : Failure) : Prop :=
  Delivers feed (bytes.take place) (if place ≤ bytes.length then some failure else none)

theorem ScriptedFeed.failsAt {bytes : List UInt8} {place : Nat} (within : place ≤ bytes.length)
    {failure : Failure} (lasting : failure.kind ≠ .interrupted) (again : Nat)
    (later : List Arrival) {chunk : Option Nat} (positive : chunk ≠ some 0) :
    FailsAt
      ({ arrivals := (bytes.take place).map .byte ++ .failure failure again :: later
         chunk } : ScriptedFeed)
      bytes place failure := by
  rw [FailsAt, if_pos within]
  exact delivers_failing (bytes.take place) lasting again later positive

namespace Source

variable {σ α : Type}

/-- The offset of the next byte that the feed is asked for. -/
def fetched (source : Source σ) : Nat := source.consumed + source.replay.length

variable {ahead : σ → List UInt8 → Prop} {stop : Option Failure} {source : Source σ}
  {offset : Nat} {bytes : List UInt8}

theorem Place.replay_le (place : source.Place ahead offset bytes) :
    source.replay.length ≤ bytes.length := by
  obtain ⟨inner, rfl, -⟩ := place.supplied
  rw [List.length_append]
  exact Nat.le_add_right _ _

variable [ByteFeed σ]

theorem Place.front {front beyond : List UInt8}
    (place : source.Place ahead offset (front ++ beyond))
    (replayed : source.replay.length ≤ front.length) :
    source.Place
      (fun feed bytes => (∃ beyond, ahead feed (bytes ++ beyond)) ∧
        ∃ reached, reached + bytes.length = offset + front.length ∧
          PullsWithin (offset + front.length) source.fetched source.feed reached feed)
      offset front := by
  obtain ⟨inner, split, supplied⟩ := place.supplied
  obtain ⟨served, rfl⟩ := List.prefix_of_prefix_length_le
    (show source.replay <+: front ++ beyond from ⟨inner, split.symm⟩)
    (List.prefix_append front beyond) replayed
  rw [List.append_assoc] at split
  rw [← List.append_cancel_left split] at supplied
  refine ⟨place.isOpen, place.position, served, rfl, ⟨beyond, supplied⟩, source.fetched, ?_,
    .start⟩
  rw [fetched, place.position, List.length_append, Nat.add_assoc]

theorem Place.readFrom_kept (place : source.Place ahead offset bytes)
    (delivery : IsDelivery stop ahead) (decoder : Decoder α) :
    (∃ used ≤ bytes.length,
      (decoder.readFrom source).2.Place ahead (offset + used) (bytes.drop used)) ∨
    ∃ failure next, stop = some failure ∧ decoder.readFrom source = (.error failure, next) := by
  induction decoder generalizing source offset bytes with
  | done value => exact .inl ⟨0, Nat.zero_le _, place⟩
  | fail fault => exact .inl ⟨0, Nat.zero_le _, place⟩
  | take count demand continuation ih =>
      rcases place.gather_cases delivery demand.pace count with
        ⟨enough, next, gathered, after⟩ | ⟨-, -, next, gathered, after⟩ |
          ⟨-, failure, next, stops, gathered⟩
      · rw [Decoder.readFrom, gathered]
        rcases ih _ after with ⟨used, within, reached⟩ | failed
        · rw [List.length_drop] at within
          rw [List.drop_drop, Nat.add_assoc] at reached
          exact .inl ⟨count + used, by omega, reached⟩
        · exact .inr failed
      · rw [Decoder.readFrom, gathered]
        refine .inl ⟨bytes.length, Nat.le_refl _, ?_⟩
        rw [List.drop_length]
        exact after
      · exact .inr ⟨failure, next, stops, by rw [Decoder.readFrom, gathered]⟩

end Source

namespace RecordReader

variable {σ : Type}

def Answer.failure? : Answer → Option Failure
  | .header (.error (.io failure)) => some failure
  | .record (.error (.io failure)) => some failure
  | .moved (.error (.io failure)) => some failure
  | _ => none

variable {ahead : σ → List UInt8 → Prop} {stop : Option Failure} {layout : Layout}
  {filename : String} {offset : Nat} {bytes : List UInt8} {reader : RecordReader σ}

def IsFurther (ahead : σ → List UInt8 → Prop) (layout : Layout) (filename : String)
    (offset : Nat) (bytes : List UInt8) (reader : RecordReader σ) : Prop :=
  ∃ used ≤ bytes.length, reader.Place ahead layout filename (offset + used) (bytes.drop used)

theorem Place.isFurther (place : reader.Place ahead layout filename offset bytes) :
    reader.IsFurther ahead layout filename offset bytes :=
  ⟨0, Nat.zero_le _, place⟩

variable [ByteFeed σ]

def movedBy (clock : Nat → Int64) : List Move → RecordReader σ → RecordReader σ
  | [], reader => reader
  | move :: later, reader => movedBy (clock <| · + 1) later (reader.perform (clock 0) move).2

theorem Place.readHeader_kept (place : reader.Place ahead layout filename offset bytes)
    (delivery : IsDelivery stop ahead) :
    reader.readHeader.2.IsFurther ahead layout filename offset bytes ∨
    ∃ failure, stop = some failure ∧ reader.readHeader.1 = .error (.ofHeader failure) := by
  rcases place.source.readFrom_kept delivery Decoder.header with
    ⟨used, within, after⟩ | ⟨failure, next, stops, failed⟩
  · exact .inl ⟨used, within, place.layout, place.filename, after⟩
  · refine .inr ⟨failure, stops, ?_⟩
    rw [readHeader, failed]
    rfl

theorem Place.skip_kept (place : reader.Place ahead layout filename offset bytes)
    (delivery : IsDelivery stop ahead) (n : Nat) :
    (reader.skip n).2.IsFurther ahead layout filename offset bytes ∨
    ∃ failure, stop = some failure ∧ (reader.skip n).1 = .error (.io failure) := by
  rcases place.source.gather_cases delivery .copying n with
    ⟨enough, next, gathered, after⟩ | ⟨-, -, next, gathered, after⟩ |
      ⟨-, failure, next, stops, gathered⟩
  · rw [skip, skipBytes, gathered]
    exact .inl ⟨n, enough, place.layout, place.filename, after⟩
  · rw [skip, skipBytes, gathered]
    refine .inl ⟨bytes.length, Nat.le_refl _, place.layout, place.filename, ?_⟩
    rw [List.drop_length]
    exact after
  · rw [skip, skipBytes, gathered]
    exact .inr ⟨failure, stops, rfl⟩

theorem Place.nextRecord_kept (place : reader.Place ahead layout filename offset bytes)
    (delivery : IsDelivery stop ahead) (now : Int64) :
    (reader.nextRecord now).2.IsFurther ahead layout filename offset bytes ∨
    ∃ failure, stop = some failure ∧ ((reader.nextRecord now).1 = .error (.io failure) ∨
      (reader.nextRecord now).1 = .error (.ofDecoding offset failure)) := by
  by_cases empty : bytes = []
  · subst empty
    rcases place.nextRecord_atEnd delivery now with
      ⟨-, next, answer, after⟩ | ⟨failure, next, stops, failed⟩
    · rw [answer]
      exact .inl after.isFurther
    · exact .inr ⟨failure, stops, .inl (by rw [failed])⟩
  · obtain ⟨middle, here, answer⟩ := place.nextRecord_ne_nil delivery empty now
    rcases here.source.readFrom_kept delivery (middle.layout.record now) with
      ⟨used, within, after⟩ | ⟨failure, next, stops, failed⟩
    · rw [answer, decodeRecord_of_readFrom rfl]
      exact .inl ⟨used, within, here.layout, here.filename, after⟩
    · rw [answer, decodeRecord_of_readFrom failed, here.position]
      exact .inr ⟨failure, stops, .inr rfl⟩

theorem Place.perform_kept (place : reader.Place ahead layout filename offset bytes)
    (delivery : IsDelivery stop ahead)
    (foreign : ∀ failure, stop = some failure → failure.IsForeign) (now : Int64) (move : Move) :
    (reader.perform now move).2.IsFurther ahead layout filename offset bytes ∨
    ∃ failure, stop = some failure ∧ (reader.perform now move).1.failure? = some failure := by
  cases move with
  | readHeader =>
      rcases place.readHeader_kept delivery with further | ⟨failure, stops, failed⟩
      · exact .inl further
      · rw [JournalError.ofHeader_of_isForeign (foreign failure stops)] at failed
        exact .inr ⟨failure, stops, by simp only [perform, failed, Answer.failure?]⟩
  | nextRecord =>
      rcases place.nextRecord_kept delivery now with further | ⟨failure, stops, failed⟩
      · exact .inl further
      · rw [JournalError.ofDecoding_of_isForeign (foreign failure stops), or_self] at failed
        exact .inr ⟨failure, stops, by simp only [perform, failed, Answer.failure?]⟩
  | skip n =>
      rcases place.skip_kept delivery n with further | ⟨failure, stops, failed⟩
      · exact .inl further
      · exact .inr ⟨failure, stops, by simp only [perform, failed, Answer.failure?]⟩
  | skipTo target =>
      by_cases behind : target < reader.position
      · rw [perform, skipTo, if_pos behind]
        exact .inl place.isFurther
      · rw [perform, skipTo, if_neg behind]
        rcases place.skip_kept delivery (target - reader.position) with
          further | ⟨failure, stops, failed⟩
        · exact .inl further
        · exact .inr ⟨failure, stops, by simp only [failed, Answer.failure?]⟩
  | position => exact .inl place.isFurther

theorem Place.movedBy_isFurther (place : reader.Place ahead layout filename offset bytes)
    (delivery : IsDelivery stop ahead)
    (foreign : ∀ failure, stop = some failure → failure.IsForeign) (clock : Nat → Int64)
    (moves : List Move)
    (unhurt : ∀ answer ∈ performAll clock moves reader, ∀ failure, stop = some failure →
      answer.1.failure? ≠ some failure) :
    (reader.movedBy clock moves).IsFurther ahead layout filename offset bytes := by
  induction moves generalizing reader offset bytes clock with
  | nil => exact place.isFurther
  | cons move later ih =>
      simp only [performAll, List.forall_mem_cons] at unhurt
      rcases place.perform_kept delivery foreign (clock 0) move with
        ⟨used, within, after⟩ | ⟨failure, stops, told⟩
      · obtain ⟨more, fits, reached⟩ := ih after (clock <| · + 1) unhurt.2
        rw [List.length_drop] at fits
        rw [List.drop_drop, Nat.add_assoc] at reached
        exact ⟨used + more, by omega, reached⟩
      · exact absurd told (unhurt.1 failure stops)

theorem Place.nextRecord_within (place : reader.Place ahead layout filename offset bytes)
    (delivery : IsDelivery stop ahead) {now : Int64} {record rest : List UInt8} {draft : Draft}
    (split : bytes = record ++ rest)
    (read : (layout.record now).run record = .ok (draft, [])) :
    ∃ next reached, reader.nextRecord now = ((finish filename offset draft).map some, next) ∧
      next.position = offset + record.length ∧
      PullsWithin (offset + record.length) reader.source.fetched reader.source.feed reached
        next.source.feed := by
  -- What is replayed may go beyond the record, and nothing is asked for then.
  let more := reader.source.replay.length - record.length
  have split : bytes = record ++ rest.take more ++ rest.drop more := by
    rw [List.append_assoc, List.take_append_drop, split]
  have replayed : reader.source.replay.length ≤ (record ++ rest.take more).length := by
    have fits := place.source.replay_le
    rw [split] at fits
    simp only [List.length_append, List.length_take, List.length_drop] at fits ⊢
    omega
  have source := place.source
  rw [split] at source
  have here : reader.Place _ layout filename offset (record ++ rest.take more) :=
    ⟨place.layout, place.filename, source.front replayed⟩
  have longer := Decoder.run_append read (rest.take more)
  rw [List.nil_append] at longer
  rcases here.nextRecord_cases (delivery.isServing_front.pullsWithin _ _ _) longer with
    ⟨next, done, after⟩ | ⟨_, _, never, _⟩
  · rw [List.length_append, Nat.add_sub_cancel] at after
    obtain ⟨_, _, _, reached, _, pulls⟩ := after.source.supplied
    refine ⟨next, reached, done, after.position, ?_⟩
    rcases Nat.le_total reader.source.replay.length record.length with short | long
    · have none : more = 0 := Nat.sub_eq_zero_of_le short
      rw [none, List.take_zero] at pulls
      exact pulls
    · have used : offset + (record.length + (rest.take more).length) ≤
          reader.source.fetched := by
        rw [Source.fetched, place.source.position, List.length_take]
        omega
      obtain ⟨rfl, same⟩ := pulls.eq_start used
      rw [same]
      exact .start
  · cases never

theorem Place.nextRecord_cut {failure : Failure}
    (place : reader.Place ahead layout filename offset bytes)
    (delivery : IsDelivery (some failure) ahead) (foreign : failure.IsForeign) {now : Int64}
    {missing : List UInt8} {draft : Draft} (lacking : missing ≠ [])
    (read : (layout.record now).run (bytes ++ missing) = .ok (draft, [])) :
    (reader.nextRecord now).1 = .error (.io failure) := by
  obtain ⟨inner, rfl, supplied⟩ := place.source.supplied
  have cut : reader.Place
      (fun feed bytes => ∃ front missing,
        bytes = front ++ missing ∧ missing ≠ [] ∧ ahead feed front)
      layout filename offset (reader.source.replay ++ inner ++ missing) :=
    ⟨place.layout, place.filename, place.source.isOpen, place.source.position, inner ++ missing,
      List.append_assoc .., inner, missing, rfl, lacking, supplied⟩
  rcases cut.nextRecord_cases delivery.isServing_cut read with
    ⟨next, _, after⟩ | ⟨_, next, ⟨⟩, failed⟩
  · -- The whole record cannot have been there, for some of it was never delivered.
    obtain ⟨others, nothing, front, left, rfl, more, _⟩ := after.source.supplied
    have none := (List.append_eq_nil_iff.mp nothing.symm).2
    exact absurd (List.append_eq_nil_iff.mp none).2 more
  · rw [JournalError.ofDecoding_of_isForeign foreign, or_self] at failed
    rw [failed]

theorem At.run_of_nextRecord (here : reader.At layout filename offset bytes) {now : Int64}
    {event : Event} {next : RecordReader σ}
    (answer : reader.nextRecord now = (.ok (some event), next)) :
    ∃ record rest draft, bytes = record ++ rest ∧
      (layout.record now).run record = .ok (draft, []) ∧
      finish filename offset draft = .ok event ∧ next.position = offset + record.length := by
  by_cases empty : bytes = []
  · subst empty
    obtain ⟨_, atEnd, _⟩ := here.nextRecord_nil now
    cases atEnd.symm.trans answer
  · cases read : (layout.record now).run bytes with
    | error fault =>
        obtain ⟨_, failed⟩ := here.nextRecord_of_fault empty read
        cases failed.symm.trans answer
    | ok result =>
        obtain ⟨draft, rest⟩ := result
        obtain ⟨record, rfl⟩ := Decoder.suffix_of_run read
        obtain ⟨_, done, after⟩ := here.nextRecord_of_run read
        rw [List.length_append, Nat.add_sub_cancel] at after
        have alone : (layout.record now).run (record ++ rest) = .ok (draft, [] ++ rest) := read
        refine ⟨record, rest, draft, rfl, Decoder.run_of_run_append alone, ?_⟩
        have same := done.symm.trans answer
        cases finished : finish filename offset draft with
        | error error =>
            rw [finished] at same
            cases same
        | ok built =>
            rw [finished] at same
            cases same
            exact ⟨rfl, after.position⟩

/-- A reader of the bytes that has gone to the offset and never meets a failure. -/
def standingAt (layout : Layout) (filename : String) (bytes : List UInt8) (offset : Nat) :
    RecordReader ScriptedFeed :=
  ((ofBytes layout filename bytes).skipTo offset).2

theorem standingAt_at (within : offset ≤ bytes.length) :
    (standingAt layout filename bytes offset).At layout filename offset (bytes.drop offset) := by
  obtain ⟨next, arrived, there⟩ :=
    (ofBytes_at layout filename bytes).skipTo (Nat.zero_le offset) within
  rw [standingAt, arrived]
  exact there

/-- What the reader makes of the next record where its feed fails at the place. -/
structure MeetsFailure (bytes : List UInt8) (place : Nat) (failure : Failure) (now : Int64)
    (reader : RecordReader σ) : Prop where
  notPast : reader.position ≤ place
  /-- The failure comes before the end of a record. -/
  inside : ∀ event after,
    (standingAt reader.layout reader.filename bytes reader.position).nextRecord now =
      (.ok (some event), after) →
    place < after.position → (reader.nextRecord now).1 = .error (.io failure)
  /-- The failure comes after the record, and no byte from there on is asked for. -/
  beyond : ∀ event after,
    (standingAt reader.layout reader.filename bytes reader.position).nextRecord now =
      (.ok (some event), after) →
    after.position ≤ place →
      ∃ next reached, reader.nextRecord now = (.ok (some event), next) ∧
        next.position = after.position ∧
        PullsWithin after.position reader.source.fetched reader.source.feed reached
          next.source.feed
  atEnd : reader.position = bytes.length → place = bytes.length →
    (reader.nextRecord now).1 = .error (.io failure)

theorem Place.meetsFailure {place : Nat} {failure : Failure}
    (here : reader.Place ahead layout filename offset ((bytes.take place).drop offset))
    (within : offset ≤ (bytes.take place).length)
    (delivery : IsDelivery (if place ≤ bytes.length then some failure else none) ahead)
    (foreign : failure.IsForeign) (now : Int64) :
    reader.MeetsFailure bytes place failure now := by
  rw [List.length_take] at within
  have there : (standingAt layout filename bytes offset).At layout filename offset
      (bytes.drop offset) := standingAt_at (by omega)
  have part : (bytes.take place).drop offset = (bytes.drop offset).take (place - offset) :=
    List.drop_take
  rw [part] at here
  refine ⟨?_, ?_, ?_, ?_⟩
  · rw [here.position]
    omega
  · intro event after answer cut
    rw [here.layout, here.filename, here.position] at answer
    obtain ⟨record, rest, draft, split, read, -, ends⟩ := there.run_of_nextRecord answer
    have lengths := congrArg List.length split
    rw [List.length_drop, List.length_append] at lengths
    -- The record goes on beyond the place, so the place is within the bytes.
    have stops : place ≤ bytes.length := by omega
    rw [if_pos stops] at delivery
    rw [split, List.take_append_of_le_length (by omega)] at here
    have lacking : record.drop (place - offset) ≠ [] := by
      rw [Ne, List.drop_eq_nil_iff]
      omega
    rw [← List.take_append_drop (place - offset) record] at read
    exact here.nextRecord_cut delivery foreign lacking read
  · intro event after answer later
    rw [here.layout, here.filename, here.position] at answer
    obtain ⟨record, rest, draft, split, read, finished, ends⟩ := there.run_of_nextRecord answer
    have front : (bytes.drop offset).take (place - offset) =
        record ++ rest.take (place - offset - record.length) := by
      rw [split, List.take_append, List.take_of_length_le (by omega)]
    obtain ⟨next, reached, done, position, pulls⟩ := here.nextRecord_within delivery front read
    rw [finished] at done
    rw [ends]
    exact ⟨next, reached, done, position, pulls⟩
  · intro position same
    rw [here.position] at position
    rw [same, position, Nat.sub_self, List.take_zero] at here
    rw [if_pos (Nat.le_of_eq same)] at delivery
    rcases here.nextRecord_atEnd delivery now with ⟨never, _⟩ | ⟨_, next, ⟨⟩, failed⟩
    · cases never
    · rw [failed]

/-- Whatever moves a reader has made, as long as none of them was answered with the failure: a
record that ends before the place of the failure is read as it is read without one, and a record
that goes on there, or an end that lies there, is answered with the failure. -/
theorem meetsFailure_of_failsAt {feed : σ} {place : Nat} {failure : Failure}
    (fails : FailsAt feed bytes place failure) (foreign : failure.IsForeign) {version : UInt32}
    (least : 1 ≤ version) (most : version ≤ 7) (filename : String) :
    ∃ fresh, RecordReader.new feed version filename = .ok fresh ∧
      ∀ clock moves,
        (∀ answer ∈ performAll clock moves fresh, answer.1.failure? ≠ some failure) →
        ∀ now, (fresh.movedBy clock moves).MeetsFailure bytes place failure now := by
  obtain ⟨layout, known, -⟩ := Layout.ofVersion_of_supported least most
  refine ⟨_, new_of_ofVersion known feed filename, fun clock moves unhurt now => ?_⟩
  obtain ⟨ahead, delivery, start⟩ := fails
  have fresh : Place ahead { source := { feed }, filename, layout } layout filename 0
      (bytes.take place) :=
    ⟨rfl, rfl, rfl, rfl, _, rfl, start⟩
  have only : ∀ other, (if place ≤ bytes.length then some failure else none) = some other →
      other = failure := by
    intro other same
    split at same
    · cases same
      rfl
    · cases same
  obtain ⟨used, within, here⟩ := fresh.movedBy_isFurther delivery
    (fun other same => by rw [only other same]; exact foreign) clock moves
    (fun answer mem other same => by rw [only other same]; exact unhurt answer mem)
  rw [Nat.zero_add] at here
  exact here.meetsFailure within delivery foreign now

def failingDropped (place : Nat) : ScriptedFeed :=
  { arrivals := (Records.droppedRecord.take place).map .byte ++
      [.failure ⟨.timedOut, "injected"⟩ 0]
    chunk := some 7 }

theorem meetsFailure_of_failsAt_dropped :
    (∃ fresh, RecordReader.new (failingDropped 20) 1 "segment" = .ok fresh ∧
      (fresh.nextRecord 9).1 = .error (.io ⟨.timedOut, "injected"⟩)) ∧
    ∃ fresh next, RecordReader.new (failingDropped 53) 1 "segment" = .ok fresh ∧
      fresh.nextRecord 9 = (.ok (some (Records.droppedEvent 9 0)), next) := by
  have foreign : (⟨.timedOut, "injected"⟩ : Failure).IsForeign :=
    ⟨by decide, by decide, by decide⟩
  have fails (place : Nat) (within : place ≤ 53) :
      FailsAt (failingDropped place) Records.droppedRecord place ⟨.timedOut, "injected"⟩ :=
    ScriptedFeed.failsAt within (by decide) 0 [] (by decide)
  have there : (standingAt (.legacy .v1) "segment" Records.droppedRecord 0).At (.legacy .v1)
      "segment" 0 Records.droppedRecord := standingAt_at (Nat.zero_le _)
  rw [← List.append_nil Records.droppedRecord] at there
  obtain ⟨after, answer, ends⟩ := there.nextRecord_isRecord (Records.isRecord_dropped 0) 9
  have opens (feed : ScriptedFeed) := new_of_ofVersion
    (show Layout.ofVersion 1 = .ok (.legacy .v1) from rfl) feed "segment"
  have least : (1 : UInt32) ≤ 1 := by decide
  have most : (1 : UInt32) ≤ 7 := by decide
  constructor
  · obtain ⟨fresh, opened, meets⟩ :=
      meetsFailure_of_failsAt (fails 20 (by decide)) foreign least most "segment"
    cases (opens (failingDropped 20)).symm.trans opened
    have told := (meets (fun _ => 9) [] (by simp [performAll]) 9).inside _ after answer
    exact ⟨_, opened, told (by rw [ends.position]; decide)⟩
  · obtain ⟨fresh, opened, meets⟩ :=
      meetsFailure_of_failsAt (fails 53 (by decide)) foreign least most "segment"
    cases (opens (failingDropped 53)).symm.trans opened
    have read := (meets (fun _ => 9) [] (by simp [performAll]) 9).beyond _ after answer
    obtain ⟨next, _, done, _⟩ := read (by rw [ends.position]; decide)
    exact ⟨_, next, opened, done⟩

end RecordReader

end LineageJournal

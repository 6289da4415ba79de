import LineageJournal.Proofs.Stream.Delivery
import LineageJournal.Stream.Source

/-! Sources deliver what is to be replayed and then what their feed delivers, and their
position counts what has been delivered. A mark keeps what passes after it up to its limit,
so looking ahead by one byte and going back leaves the source where it was. -/

namespace LineageJournal

namespace Source

variable {σ : Type}

theorem record_nil {mark : Mark} (within : mark.recorded.size ≤ mark.limit) :
    record mark [] = some mark := by
  have kept : ¬ mark.limit < mark.recorded.size + ([] : List UInt8).length :=
    Nat.not_lt.mpr within
  rw [record, if_neg kept, ByteLog.append_nil]

theorem record_append (mark : Mark) (first second : List UInt8) :
    (record mark first).bind (record · second) = record mark (first ++ second) := by
  have lengths : (first ++ second).length = first.length + second.length := List.length_append
  by_cases full : mark.limit < mark.recorded.size + first.length
  · rw [record, if_pos full, record, if_pos (by omega)]
    rfl
  · rw [record, if_neg full, Option.bind_some]
    by_cases later : mark.limit < mark.recorded.size + (first ++ second).length
    · rw [record, if_pos (by simp only [ByteLog.append]; omega), record, if_pos later]
    · rw [record, if_neg (by simp only [ByteLog.append]; omega), record, if_neg later,
        ByteLog.append_append]

/-- The source `source` was reached from `start` while `whole` was ahead, and `bytes` of it
are ahead now. What has passed is counted, and a mark that was fresh at the start has
recorded it. -/
structure Follows (ahead : σ → List UInt8 → Prop) (start : Source σ) (whole : List UInt8)
    (source : Source σ) (bytes : List UInt8) : Prop where
  isOpen : source.closed = false
  supplied : ∃ inner, bytes = source.replay ++ inner ∧ ahead source.feed inner
  passed : ∃ front, whole = front ++ bytes ∧ source.consumed = start.consumed + front.length ∧
    ∀ mark, start.mark = some mark → mark.recorded = ∅ → source.mark = record mark front

variable {ahead : σ → List UInt8 → Prop} {start source : Source σ} {whole bytes : List UInt8}

theorem Follows.refl (isOpen : source.closed = false)
    (supplied : ∃ inner, bytes = source.replay ++ inner ∧ ahead source.feed inner) :
    Follows ahead source bytes source bytes where
  isOpen := isOpen
  supplied := supplied
  passed := by
    refine ⟨[], rfl, rfl, fun mark fresh empty => ?_⟩
    rw [fresh, record_nil]
    rw [empty]
    exact Nat.zero_le mark.limit

theorem Follows.deliver {chunk rest : List UInt8} {feed : σ} {replay : List UInt8}
    (follows : Follows ahead start whole source (chunk ++ rest))
    (supplied : ∃ inner, rest = replay ++ inner ∧ ahead feed inner) :
    Follows ahead start whole (deliver { source with feed, replay } chunk) rest where
  isOpen := follows.isOpen
  supplied := supplied
  passed := by
    obtain ⟨front, split, counted, marked⟩ := follows.passed
    refine ⟨front ++ chunk, by rw [split, List.append_assoc], ?_, ?_⟩
    · rw [Source.deliver, List.length_append]
      simp only [counted]
      omega
    · intro mark fresh empty
      rw [Source.deliver]
      simp only [marked mark fresh empty]
      exact record_append mark front chunk

/-- The source is open at an offset, with these bytes ahead of it by what is ahead of its feed. -/
structure Place (ahead : σ → List UInt8 → Prop) (source : Source σ) (offset : Nat)
    (bytes : List UInt8) : Prop where
  isOpen : source.closed = false
  position : source.consumed = offset
  supplied : ∃ inner, bytes = source.replay ++ inner ∧ ahead source.feed inner

variable {offset : Nat}

theorem Follows.place (follows : Follows ahead start whole source bytes) :
    source.Place ahead (start.consumed + (whole.length - bytes.length)) bytes where
  isOpen := follows.isOpen
  position := by
    obtain ⟨front, split, counted, _⟩ := follows.passed
    rw [counted, split, List.length_append, Nat.add_sub_cancel]
  supplied := follows.supplied

theorem Place.follows (place : source.Place ahead offset bytes) :
    Follows ahead source bytes source bytes :=
  .refl place.isOpen place.supplied

theorem Place.setMark (place : source.Place ahead offset bytes) (limit : Nat) :
    (source.setMark limit).Place ahead offset bytes :=
  ⟨place.isOpen, place.position, place.supplied⟩

theorem take_ne_nil {replay : List UInt8} (replaying : replay ≠ []) {n : Nat} (wanted : 0 < n) :
    replay.take n ≠ [] := by
  intro nothing
  rcases List.take_eq_nil_iff.mp nothing with zero | empty
  · omega
  · exact replaying empty

theorem Follows.replayed {inner : List UInt8}
    (follows : Follows ahead start whole source (source.replay ++ inner))
    (supply : ahead source.feed inner) (n : Nat) :
    Follows ahead start whole
      (Source.deliver { source with replay := source.replay.drop n } (source.replay.take n))
      (source.replay.drop n ++ inner) := by
  have split : source.replay ++ inner =
      source.replay.take n ++ (source.replay.drop n ++ inner) := by
    rw [← List.append_assoc, List.take_append_drop]
  rw [split] at follows
  exact follows.deliver ⟨inner, rfl, supply⟩

variable [ByteFeed σ]

inductive Reads (n : Nat) (source : Source σ) : Except Failure (List UInt8) → Source σ → Prop where
  | replayed (replaying : source.replay ≠ []) :
      Reads n source (.ok (source.replay.take n))
        (Source.deliver { source with replay := source.replay.drop n } (source.replay.take n))
  | fetched {chunk : List UInt8} {feed : σ} (noReplay : source.replay = [])
      (pulled : ByteFeed.pull n source.feed = (.ok chunk, feed)) :
      Reads n source (.ok chunk) (Source.deliver { source with feed } chunk)
  | failed {failure : Failure} {feed : σ} (noReplay : source.replay = [])
      (pulled : ByteFeed.pull n source.feed = (.error failure, feed)) :
      Reads n source (.error failure) { source with feed }

theorem reads_of_read (isOpen : source.closed = false) {n : Nat}
    {result : Except Failure (List UInt8)} {next : Source σ}
    (done : source.read n = (result, next)) : Reads n source result next := by
  rw [read, if_neg (Bool.eq_false_iff.mp isOpen)] at done
  split at done
  · rename_i noReplay
    have noReplay : source.replay = [] := List.isEmpty_iff.mp noReplay
    split at done
    · rename_i pulled
      cases done
      exact .fetched noReplay pulled
    · rename_i pulled
      cases done
      exact .failed noReplay pulled
  · rename_i replaying
    cases done
    exact .replayed fun noReplay => replaying (List.isEmpty_iff.mpr noReplay)

theorem isDelivery_follows {stop : Option Failure} (delivery : IsDelivery stop ahead)
    (start : Source σ) (whole : List UInt8) :
    IsDelivery stop (Follows ahead start whole) where
  of_ok := by
    intro n source next bytes chunk follows wanted pulled
    obtain ⟨inner, rfl, supply⟩ := follows.supplied
    cases reads_of_read follows.isOpen pulled with
    | replayed replaying =>
        refine ⟨source.replay.drop n ++ inner, ?_, follows.replayed supply n, ?_⟩
        · rw [← List.append_assoc, List.take_append_drop]
        · exact fun nothing => absurd nothing (take_ne_nil replaying wanted)
    | fetched noReplay fetched =>
        rw [noReplay, List.nil_append] at follows ⊢
        obtain ⟨rest, rfl, later, atEnd⟩ := delivery.of_ok supply wanted fetched
        refine ⟨rest, rfl, ?_, atEnd⟩
        exact follows.deliver ⟨rest, rfl, later⟩
  of_error := by
    intro n source next bytes failure follows wanted pulled
    obtain ⟨inner, rfl, supply⟩ := follows.supplied
    cases reads_of_read follows.isOpen pulled with
    | failed noReplay fetched =>
        rcases delivery.of_error supply wanted fetched with ⟨interrupted, later⟩ | atEnd
        · exact .inl ⟨interrupted, follows.isOpen, ⟨inner, rfl, later⟩, follows.passed⟩
        · rw [noReplay, List.nil_append]
          exact .inr atEnd

theorem isServing_follows {stop : Option Failure} (serving : IsServing stop ahead)
    (start : Source σ) (whole : List UInt8) :
    IsServing stop (Follows ahead start whole) where
  of_ok := by
    intro n source next bytes chunk follows wanted within pulled
    obtain ⟨inner, rfl, supply⟩ := follows.supplied
    cases reads_of_read follows.isOpen pulled with
    | replayed replaying =>
        refine ⟨take_ne_nil replaying wanted, source.replay.drop n ++ inner, ?_,
          follows.replayed supply n⟩
        rw [← List.append_assoc, List.take_append_drop]
    | fetched noReplay fetched =>
        rw [noReplay, List.nil_append] at follows within ⊢
        obtain ⟨nonempty, rest, rfl, later⟩ := serving.of_ok supply wanted within fetched
        refine ⟨nonempty, rest, rfl, ?_⟩
        exact follows.deliver ⟨rest, rfl, later⟩
  of_error := by
    intro n source next bytes failure follows wanted within pulled
    obtain ⟨inner, rfl, supply⟩ := follows.supplied
    cases reads_of_read follows.isOpen pulled with
    | failed noReplay fetched =>
        rw [noReplay, List.nil_append] at within
        rcases serving.of_error supply wanted within fetched with ⟨interrupted, later⟩ | stopped
        · exact .inl ⟨interrupted, follows.isOpen, ⟨inner, rfl, later⟩, follows.passed⟩
        · exact .inr stopped

structure At (source : Source σ) (offset : Nat) (bytes : List UInt8) : Prop where
  isOpen : source.closed = false
  position : source.consumed = offset
  supplied : ∃ inner, bytes = source.replay ++ inner ∧ Delivers source.feed inner

theorem at_of_delivers {feed : σ} (delivers : Delivers feed bytes) :
    At { feed : Source σ } 0 bytes :=
  ⟨rfl, rfl, bytes, rfl, delivers⟩

variable {α : Type}

theorem At.place (here : source.At offset bytes) :
    source.Place (fun feed bytes => Delivers feed bytes) offset bytes :=
  ⟨here.isOpen, here.position, here.supplied⟩

theorem Place.at (place : source.Place ahead offset bytes) (delivery : IsDelivery none ahead) :
    source.At offset bytes where
  isOpen := place.isOpen
  position := place.position
  supplied := by
    obtain ⟨inner, split, supply⟩ := place.supplied
    exact ⟨inner, split, ahead, delivery, supply⟩

theorem Place.gather_cases {stop : Option Failure} (place : source.Place ahead offset bytes)
    (delivery : IsDelivery stop ahead) (pace : Pace) (count : Nat) :
    (count ≤ bytes.length ∧ ∃ next, gather pace count source = (.full (bytes.take count), next) ∧
      next.Place ahead (offset + count) (bytes.drop count)) ∨
    (bytes.length < count ∧ stop = none ∧ ∃ next, gather pace count source = (.short bytes, next) ∧
      next.Place ahead (offset + bytes.length) []) ∨
    (bytes.length < count ∧ ∃ failure next, stop = some failure ∧
      gather pace count source = (.failed failure, next)) := by
  rcases (isDelivery_follows delivery source bytes).gather_cases pace count place.follows with
    ⟨enough, next, gathered, after⟩ | ⟨tooFew, ends, next, gathered, after⟩ | failed
  · have reached := after.place
    rw [place.position, List.length_drop, Nat.sub_sub_self enough] at reached
    exact .inl ⟨enough, next, gathered, reached⟩
  · have reached := after.place
    rw [place.position] at reached
    exact .inr (.inl ⟨tooFew, ends, next, gathered, reached⟩)
  · exact .inr (.inr failed)

theorem Place.gather_full {stop : Option Failure} (place : source.Place ahead offset bytes)
    (delivery : IsDelivery stop ahead) (pace : Pace) {count : Nat}
    (enough : count ≤ bytes.length) :
    ∃ next, gather pace count source = (.full (bytes.take count), next) ∧
      next.Place ahead (offset + count) (bytes.drop count) := by
  rcases place.gather_cases delivery pace count with ⟨-, full⟩ | ⟨tooFew, _⟩ | ⟨tooFew, _⟩
  · exact full
  · omega
  · omega

theorem Place.gather_short (place : source.Place ahead offset bytes)
    (delivery : IsDelivery none ahead) (pace : Pace) {count : Nat}
    (tooFew : bytes.length < count) :
    ∃ next, gather pace count source = (.short bytes, next) ∧
      next.Place ahead (offset + bytes.length) [] := by
  rcases place.gather_cases delivery pace count with
    ⟨enough, _⟩ | ⟨-, -, short⟩ | ⟨-, _, _, never, _⟩
  · omega
  · exact short
  · cases never

theorem Place.readFrom_cases {stop : Option Failure} (place : source.Place ahead offset bytes)
    (serving : IsServing stop ahead) {decoder : Wire.Decoder α} {value : α} {rest : List UInt8}
    (read : decoder.run bytes = .ok (value, rest)) :
    (∃ next, decoder.readFrom source = (.ok value, next) ∧
      next.Place ahead (offset + (bytes.length - rest.length)) rest) ∨
    ∃ failure next, stop = some failure ∧ decoder.readFrom source = (.error failure, next) := by
  rcases (isServing_follows serving source bytes).readFrom_cases place.follows read with
    ⟨next, done, after⟩ | failed
  · have reached := after.place
    rw [place.position] at reached
    exact .inl ⟨next, done, reached⟩
  · exact .inr failed

theorem Place.readFrom_of_run {stop : Option Failure} (place : source.Place ahead offset bytes)
    (delivery : IsDelivery stop ahead) {decoder : Wire.Decoder α} {value : α}
    {rest : List UInt8} (read : decoder.run bytes = .ok (value, rest)) :
    ∃ next, decoder.readFrom source = (.ok value, next) ∧
      next.Place ahead (offset + (bytes.length - rest.length)) rest :=
  (place.readFrom_cases delivery.isServing read).resolve_right fun ⟨_, _, never, _⟩ => nomatch never

theorem Place.readFrom_of_fault (place : source.Place ahead offset bytes)
    (delivery : IsDelivery none ahead) {decoder : Wire.Decoder α} {fault : Wire.DecodeFault}
    (faulty : decoder.run bytes = .error fault) :
    ∃ next, decoder.readFrom source = (.error fault.failure, next) :=
  (isDelivery_follows delivery source bytes).readFrom_of_fault place.follows faulty

theorem At.gather_full (here : source.At offset bytes) (pace : Pace) {count : Nat}
    (enough : count ≤ bytes.length) :
    ∃ next, gather pace count source = (.full (bytes.take count), next) ∧
      next.At (offset + count) (bytes.drop count) := by
  obtain ⟨next, gathered, reached⟩ :=
    here.place.gather_full (isDelivery_delivers none) pace enough
  exact ⟨next, gathered, reached.at (isDelivery_delivers none)⟩

theorem At.gather_short (here : source.At offset bytes) (pace : Pace) {count : Nat}
    (tooFew : bytes.length < count) :
    ∃ next, gather pace count source = (.short bytes, next) ∧
      next.At (offset + bytes.length) [] := by
  obtain ⟨next, gathered, reached⟩ :=
    here.place.gather_short (isDelivery_delivers none) pace tooFew
  exact ⟨next, gathered, reached.at (isDelivery_delivers none)⟩

theorem At.readFrom_of_run (here : source.At offset bytes) {decoder : Wire.Decoder α}
    {value : α} {rest : List UInt8} (read : decoder.run bytes = .ok (value, rest)) :
    ∃ next, decoder.readFrom source = (.ok value, next) ∧
      next.At (offset + (bytes.length - rest.length)) rest := by
  obtain ⟨next, done, reached⟩ := here.place.readFrom_of_run (isDelivery_delivers none) read
  exact ⟨next, done, reached.at (isDelivery_delivers none)⟩

theorem At.readFrom_of_fault (here : source.At offset bytes) {decoder : Wire.Decoder α}
    {fault : Wire.DecodeFault} (faulty : decoder.run bytes = .error fault) :
    ∃ next, decoder.readFrom source = (.error fault.failure, next) :=
  here.place.readFrom_of_fault (isDelivery_delivers none) faulty

/-- What a decoder makes of a source, and how far it goes, is settled by the bytes ahead, also
where it fails. -/
theorem At.readFrom_settled (decoder : Wire.Decoder α) (bytes : List UInt8) :
    ∃ result, ∃ used ≤ bytes.length,
      ∀ {σ : Type} [ByteFeed σ] {source : Source σ} {offset : Nat}, source.At offset bytes →
        ∃ next, decoder.readFrom source = (result, next) ∧
          next.At (offset + used) (bytes.drop used) := by
  induction decoder generalizing bytes with
  | done value => exact ⟨.ok value, 0, Nat.zero_le _, fun place => ⟨_, rfl, place⟩⟩
  | fail fault => exact ⟨.error fault.failure, 0, Nat.zero_le _, fun place => ⟨_, rfl, place⟩⟩
  | take count demand continuation ih =>
      by_cases enough : count ≤ bytes.length
      · obtain ⟨result, used, within, settled⟩ := ih (bytes.take count) (bytes.drop count)
        rw [List.length_drop] at within
        refine ⟨result, count + used, by omega, ?_⟩
        intro σ _ source offset place
        obtain ⟨middle, gathered, after⟩ := place.gather_full demand.pace enough
        obtain ⟨next, done, reached⟩ := settled after
        rw [List.drop_drop, Nat.add_assoc] at reached
        refine ⟨next, ?_, reached⟩
        rw [Wire.Decoder.readFrom, gathered]
        exact done
      · refine ⟨.error (demand.shortage count bytes.length).failure, bytes.length,
          Nat.le_refl _, ?_⟩
        intro σ _ source offset place
        obtain ⟨next, gathered, after⟩ :=
          place.gather_short demand.pace (Nat.lt_of_not_le enough)
        rw [List.drop_length]
        exact ⟨next, by rw [Wire.Decoder.readFrom, gathered], after⟩

theorem Place.lookAhead_nil {stop : Option Failure} (place : source.Place ahead offset [])
    (delivery : IsDelivery stop ahead) :
    (stop = none ∧ ∃ next, readByte (source.setMark 1) = (.ok none, next) ∧
      next.Place ahead offset []) ∨
    ∃ failure next, stop = some failure ∧
      readByte (source.setMark 1) = (.error failure, next) := by
  rcases (place.setMark 1).gather_cases delivery .whole 1 with
    ⟨never, _⟩ | ⟨-, ends, next, gathered, after⟩ | ⟨-, failure, next, stops, gathered⟩
  · exact absurd never (Nat.not_succ_le_zero 0)
  · exact .inl ⟨ends, next, by rw [readByte, gathered], after⟩
  · exact .inr ⟨failure, next, stops, by rw [readByte, gathered]⟩

theorem Place.lookAhead_cases {stop : Option Failure} {byte : UInt8} {rest : List UInt8}
    (place : source.Place ahead offset (byte :: rest)) (serving : IsServing stop ahead) :
    (∃ middle next, readByte (source.setMark 1) = (.ok (some byte), middle) ∧
      middle.reset = (.ok (), next) ∧ next.Place ahead offset (byte :: rest)) ∨
    ∃ failure next, stop = some failure ∧
      readByte (source.setMark 1) = (.error failure, next) := by
  rcases (isServing_follows serving (source.setMark 1) (byte :: rest)).gather_cases .whole
      (place.setMark 1).follows
      (show 1 ≤ (byte :: rest).length from Nat.le_add_left 1 rest.length) with
    ⟨middle, gathered, after⟩ | ⟨failure, next, stops, gathered⟩
  · obtain ⟨front, split, _, marked⟩ := after.passed
    have one : front = [byte] :=
      (List.append_cancel_right (show [byte] ++ rest = front ++ rest from split)).symm
    have kept := marked ⟨source.consumed, 1, ∅⟩ rfl rfl
    rw [one] at kept
    obtain ⟨inner, supply, left⟩ := after.supplied
    refine .inl ⟨middle, _, by rw [readByte, gathered]; rfl, by rw [reset, kept]; rfl, ?_⟩
    exact ⟨after.isOpen, place.position, inner, congrArg (byte :: ·) supply, left⟩
  · exact .inr ⟨failure, next, stops, by rw [readByte, gathered]⟩

end Source

end LineageJournal

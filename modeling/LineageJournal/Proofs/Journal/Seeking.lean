import LineageJournal.Proofs.Journal.TornTail

/-! Random access. A reader may skip and jump between records, and its source replays what the
look ahead has taken; all the same its position is the number of bytes it has gone, and what it
answers is what the bytes from there on say to a reader that starts at them. -/

namespace LineageJournal

open Wire

namespace RecordReader

inductive Move where
  | readHeader
  | nextRecord
  | skip (n : Nat)
  | skipTo (target : Nat)
  | position
  deriving DecidableEq, Repr

inductive Answer where
  | header (result : Except JournalError SegmentHeader)
  | record (result : Except JournalError (Option Event))
  | moved (result : Except JournalError Unit)
  | offset (value : Nat)

section Moves

variable {σ : Type} [ByteFeed σ]

def perform (now : Int64) (reader : RecordReader σ) : Move → Answer × RecordReader σ
  | .readHeader => (.header reader.readHeader.1, reader.readHeader.2)
  | .nextRecord => (.record (reader.nextRecord now).1, (reader.nextRecord now).2)
  | .skip n => (.moved (reader.skip n).1, (reader.skip n).2)
  | .skipTo target => (.moved (reader.skipTo target).1, (reader.skipTo target).2)
  | .position => (.offset reader.position, reader)

/-- Makes the moves in order, the `n`-th one at the time `clock n`. Every answer comes with the
position after it. -/
def performAll (clock : Nat → Int64) : List Move → RecordReader σ → List (Answer × Nat)
  | [], _ => []
  | move :: later, reader =>
    match reader.perform (clock 0) move with
    | (answer, next) => (answer, next.position) :: performAll (clock <| · + 1) later next

end Moves

end RecordReader

def JournalError.shift (distance : Nat) : JournalError → JournalError
  | malformedRecord offset reason => malformedRecord (offset + distance) reason
  | error => error

def StorageLocation.shift (distance : Nat) (place : StorageLocation) : StorageLocation :=
  { place with offset := place.offset + UInt64.ofNat distance }

def Event.shift (distance : Nat) (event : Event) : Event :=
  { event with storage := event.storage.map (.shift distance) }

namespace RecordReader

def shift (distance : Nat) (result : Except JournalError (Option Event)) :
    Except JournalError (Option Event) :=
  (result.mapError (.shift distance)).map (Option.map (.shift distance))

def ofBytes (layout : Layout) (filename : String) (bytes : List UInt8) :
    RecordReader ScriptedFeed :=
  { source := { feed := .ofBytes bytes }, filename, layout }

/-- Why `n` bytes cannot be skipped where only `left` are. -/
def endedAfter (left n : Nat) : Failure :=
  ⟨.unexpectedEof, s!"stream ended after skipping {left} of {n} bytes"⟩

variable (layout : Layout) (filename : String) (bytes : List UInt8)

def jumpFrom (offset target : Nat) : Answer × Nat :=
  if target ≤ bytes.length then (.moved (.ok ()), target)
  else (.moved (.error (.io (endedAfter (bytes.length - offset) (target - offset)))), bytes.length)

/-- What a move from an offset answers, and the offset to which it leads. Records and headers are
those that a fresh reader finds at the front of the bytes from the offset on. -/
def answerFrom (now : Int64) (offset : Nat) : Move → Answer × Nat
  | .readHeader =>
    let read := (ofBytes layout filename (bytes.drop offset)).readHeader
    (.header read.1, offset + read.2.position)
  | .nextRecord =>
    let read := (ofBytes layout filename (bytes.drop offset)).nextRecord now
    (.record (shift offset read.1), offset + read.2.position)
  | .skip n => jumpFrom bytes offset (offset + n)
  | .skipTo target =>
    if target < offset then (.moved (.error (.illegalSeek target offset)), offset)
    else jumpFrom bytes offset target
  | .position => (.offset offset, offset)

def answersFrom (clock : Nat → Int64) (offset : Nat) : List Move → List (Answer × Nat)
  | [] => []
  | move :: later =>
    let reached := answerFrom layout filename bytes (clock 0) offset move
    reached :: answersFrom (clock <| · + 1) reached.2 later

end RecordReader

namespace RecordReader

theorem shift_zero (result : Except JournalError (Option Event)) : shift 0 result = result := by
  have place (place : StorageLocation) : place.shift 0 = place := by
    rw [StorageLocation.shift]
    exact congrArg (StorageLocation.mk place.filename) (UInt64.add_zero place.offset)
  have event (event : Event) : event.shift 0 = event := by
    rw [Event.shift, funext place, Option.map_id']
  cases result with
  | error error => cases error <;> rfl
  | ok found =>
      cases found with
      | none => rfl
      | some found => exact congrArg (fun found => Except.ok (some found)) (event found)

def report (filename : String) (offset : Nat) :
    Except Failure Draft → Except JournalError (Option Event)
  | .error failure => .error (.ofDecoding offset failure)
  | .ok draft => (finish filename offset draft).map some

/-- The offset only goes into the place of the event, or into the error. -/
theorem report_eq_shift (filename : String) (offset : Nat) (outcome : Except Failure Draft) :
    report filename offset outcome = shift offset (report filename 0 outcome) := by
  have malformed (reason : String) : JournalError.malformedRecord offset reason =
      (JournalError.malformedRecord 0 reason).shift offset :=
    congrArg (JournalError.malformedRecord · reason) (Nat.zero_add offset).symm
  cases outcome with
  | error failure =>
      have same : JournalError.ofDecoding offset failure =
          (JournalError.ofDecoding 0 failure).shift offset := by
        unfold JournalError.ofDecoding
        split
        · exact malformed _
        · exact malformed _
        · rfl
      exact congrArg Except.error same
  | ok draft =>
      have place : StorageLocation.mk filename (UInt64.ofNat offset) =
          (StorageLocation.mk filename (UInt64.ofNat 0)).shift offset :=
        congrArg (StorageLocation.mk filename) (UInt64.zero_add _).symm
      simp only [report, finish, Draft.build]
      cases draft.kind with
      | none => exact congrArg Except.error (malformed _)
      | some kind =>
          rw [place]
          rfl

section Reading

variable {σ : Type} [ByteFeed σ] {reader : RecordReader σ} {now : Int64}

theorem decodeRecord_of_readFrom {outcome : Except Failure Draft} {source : Source σ}
    (decoded : (reader.layout.record now).readFrom reader.source = (outcome, source)) :
    ((reader.decodeRecord now).1.map some, (reader.decodeRecord now).2) =
      (report reader.filename reader.position outcome, { reader with source }) := by
  rw [decodeRecord, decoded]
  cases outcome <;> rfl

end Reading

theorem At.readHeader_settled (layout : Layout) (filename : String) (bytes : List UInt8) :
    ∃ result, ∃ used ≤ bytes.length,
      ∀ {σ : Type} [ByteFeed σ] {reader : RecordReader σ} {offset : Nat},
        reader.At layout filename offset bytes →
          ∃ next : RecordReader σ, reader.readHeader = (result, next) ∧
            next.At layout filename (offset + used) (bytes.drop used) := by
  obtain ⟨outcome, used, within, settled⟩ := Source.At.readFrom_settled Decoder.header bytes
  refine ⟨outcome.mapError .ofHeader, used, within, ?_⟩
  intro σ _ reader offset place
  obtain ⟨source, done, after⟩ := settled place.source
  exact ⟨{ reader with source }, by rw [readHeader, done],
    ⟨place.layout, place.filename, after⟩⟩

theorem At.nextRecord_settled (layout : Layout) (filename : String) (bytes : List UInt8)
    (now : Int64) :
    ∃ result, ∃ used ≤ bytes.length,
      ∀ {σ : Type} [ByteFeed σ] {reader : RecordReader σ} {offset : Nat},
        reader.At layout filename offset bytes →
          ∃ next : RecordReader σ, reader.nextRecord now = (shift offset result, next) ∧
            next.At layout filename (offset + used) (bytes.drop used) := by
  by_cases empty : bytes = []
  · subst empty
    refine ⟨.ok none, 0, Nat.le_refl 0, ?_⟩
    intro σ _ reader offset place
    exact place.nextRecord_nil now
  · obtain ⟨outcome, used, within, settled⟩ :=
      Source.At.readFrom_settled (layout.record now) bytes
    refine ⟨report filename 0 outcome, used, within, ?_⟩
    intro σ _ reader offset place
    obtain ⟨middle, here, answer⟩ := place.nextRecord_ne_nil empty now
    obtain ⟨source, done, after⟩ := settled here.source
    rw [← here.layout] at done
    refine ⟨{ middle with source }, ?_, ⟨here.layout, here.filename, after⟩⟩
    rw [answer, decodeRecord_of_readFrom done, here.filename, here.position, report_eq_shift]

variable {layout : Layout} {filename : String} {bytes : List UInt8} {offset : Nat} {σ : Type}
  [ByteFeed σ] {reader : RecordReader σ}

theorem ofBytes_at (layout : Layout) (filename : String) (bytes : List UInt8) :
    (ofBytes layout filename bytes).At layout filename 0 bytes :=
  at_of_delivers (ScriptedFeed.delivers_ofBytes bytes) layout filename

structure Arrives (layout : Layout) (filename : String) (bytes : List UInt8)
    (reached : Answer × RecordReader σ) (expected : Answer × Nat) : Prop where
  answer : reached.1 = expected.1
  within : expected.2 ≤ bytes.length
  place : reached.2.At layout filename expected.2 (bytes.drop expected.2)

theorem At.skip_arrives (place : reader.At layout filename offset (bytes.drop offset))
    (within : offset ≤ bytes.length) (now : Int64) (n : Nat) :
    Arrives layout filename bytes (reader.perform now (.skip n))
      (answerFrom layout filename bytes now offset (.skip n)) := by
  have left : (bytes.drop offset).length = bytes.length - offset := List.length_drop
  by_cases fits : offset + n ≤ bytes.length
  · have enough : n ≤ (bytes.drop offset).length := by omega
    obtain ⟨source, gathered, after⟩ := place.source.gather_full .copying enough
    rw [List.drop_drop] at after
    have skipped : reader.skip n = (.ok (), { reader with source }) := by
      rw [skip, skipBytes, gathered]
      rfl
    rw [perform, skipped, answerFrom, jumpFrom, if_pos fits]
    exact ⟨rfl, fits, place.layout, place.filename, after⟩
  · have tooFew : (bytes.drop offset).length < n := by omega
    obtain ⟨source, gathered, after⟩ := place.source.gather_short .copying tooFew
    rw [left, Nat.add_sub_cancel' within] at after
    have skipped : reader.skip n =
        (.error (.io (endedAfter (bytes.length - offset) n)), { reader with source }) := by
      rw [skip, skipBytes, gathered]
      simp only [left]
      rfl
    rw [perform, skipped, answerFrom, jumpFrom, if_neg fits, Nat.add_sub_cancel_left]
    refine ⟨rfl, Nat.le_refl _, place.layout, place.filename, ?_⟩
    rw [List.drop_length]
    exact after

theorem At.perform_arrives (place : reader.At layout filename offset (bytes.drop offset))
    (within : offset ≤ bytes.length) (now : Int64) (move : Move) :
    Arrives layout filename bytes (reader.perform now move)
      (answerFrom layout filename bytes now offset move) := by
  have left : (bytes.drop offset).length = bytes.length - offset := List.length_drop
  have fresh := ofBytes_at layout filename (bytes.drop offset)
  -- What the bytes ahead settle is the same for this reader and for the fresh one.
  cases move with
  | readHeader =>
      obtain ⟨result, used, bound, settled⟩ :=
        At.readHeader_settled layout filename (bytes.drop offset)
      obtain ⟨next, answer, after⟩ := settled place
      obtain ⟨other, same, there⟩ := settled fresh
      rw [List.drop_drop] at after
      have reached : offset + other.position = offset + used := by
        rw [there.position, Nat.zero_add]
      simp only [perform, answer, answerFrom, same, reached]
      exact ⟨rfl, by omega, after⟩
  | nextRecord =>
      obtain ⟨result, used, bound, settled⟩ :=
        At.nextRecord_settled layout filename (bytes.drop offset) now
      obtain ⟨next, answer, after⟩ := settled place
      obtain ⟨other, same, there⟩ := settled fresh
      rw [List.drop_drop] at after
      have reached : offset + other.position = offset + used := by
        rw [there.position, Nat.zero_add]
      simp only [perform, answer, answerFrom, same, shift_zero, reached]
      exact ⟨rfl, by omega, after⟩
  | skip n => exact place.skip_arrives within now n
  | skipTo target =>
      by_cases behind : target < offset
      · have refused : reader.skipTo target = (.error (.illegalSeek target offset), reader) := by
          rw [RecordReader.skipTo, place.position, if_pos behind]
        rw [perform, refused, answerFrom, if_pos behind]
        exact ⟨rfl, within, place⟩
      · have skipped : reader.skipTo target = reader.skip (target - offset) := by
          rw [RecordReader.skipTo, place.position, if_neg behind]
        have ahead : offset + (target - offset) = target := by omega
        have arrives := place.skip_arrives within now (target - offset)
        rw [answerFrom, ahead] at arrives
        rw [perform, skipped, answerFrom, if_neg behind]
        exact arrives
  | position =>
      rw [perform, place.position, answerFrom]
      exact ⟨rfl, within, place⟩

theorem At.performAll_eq (place : reader.At layout filename offset (bytes.drop offset))
    (within : offset ≤ bytes.length) (clock : Nat → Int64) (moves : List Move) :
    performAll clock moves reader = answersFrom layout filename bytes clock offset moves := by
  induction moves generalizing reader offset clock with
  | nil => rfl
  | cons move later ih =>
      have arrives := place.perform_arrives within (clock 0) move
      have rest := ih arrives.place arrives.within (clock <| · + 1)
      simp only [performAll, answersFrom, arrives.answer, arrives.place.position, rest]

/-- Whatever the moves of a reader are, each is answered as the bytes from its position on
answer a fresh reader, with the place of the record stamped. Its position is the number of bytes
that it has gone. A jump leads wherever the bytes go, and a jump back is refused and changes
nothing. -/
theorem performAll_eq_answersFrom {feed : σ} (delivers : Delivers feed bytes) (version : UInt32)
    (filename : String) (clock : Nat → Int64) (moves : List Move) :
    (RecordReader.new feed version filename).map (performAll clock moves) =
      (Layout.ofVersion version).map fun layout =>
        answersFrom layout filename bytes clock 0 moves := by
  cases known : Layout.ofVersion version with
  | error error =>
      rw [RecordReader.new, known]
      rfl
  | ok layout =>
      rw [new_of_ofVersion known]
      exact congrArg Except.ok
        ((at_of_delivers delivers layout filename).performAll_eq (Nat.zero_le _) clock moves)

theorem performAll_eq_answersFrom_dropped :
    (RecordReader.new (ScriptedFeed.ofBytes (Records.droppedRecord ++ Records.droppedRecord)) 1
        "segment").map
          (performAll (fun _ => 9) [.skipTo 53, .nextRecord, .skipTo 10, .position, .skip 1]) =
      .ok [(.moved (.ok ()), 53), (.record (.ok (some (Records.droppedEvent 9 53))), 106),
        (.moved (.error (.illegalSeek 10 106)), 106), (.offset 106, 106),
        (.moved (.error (.io (endedAfter 0 1))), 106)] := by
  have fresh := ofBytes_at (.legacy .v1) "segment" (Records.droppedRecord ++ [])
  obtain ⟨next, answer, after⟩ := fresh.nextRecord_isRecord (Records.isRecord_dropped 0) 9
  have jump : answerFrom (.legacy .v1) "segment" (Records.droppedRecord ++ Records.droppedRecord)
      9 0 (.skipTo 53) = (.moved (.ok ()), 53) := rfl
  have second : answerFrom (.legacy .v1) "segment" (Records.droppedRecord ++ Records.droppedRecord)
      9 53 .nextRecord = (.record (.ok (some (Records.droppedEvent 9 53))), 106) := by
    have ahead : (Records.droppedRecord ++ Records.droppedRecord).drop 53 =
        Records.droppedRecord ++ [] := rfl
    rw [answerFrom, ahead, answer]
    simp only [after.position]
    rfl
  refine (performAll_eq_answersFrom (ScriptedFeed.delivers_ofBytes _) 1 "segment" _ _).trans ?_
  show Except.ok (answersFrom (.legacy .v1) "segment" _ (fun _ => 9) 0 _) = _
  simp only [answersFrom, jump, second]
  rfl

end RecordReader

end LineageJournal

import LineageJournal.Proofs.Journal.Seeking
import LineageJournal.Proofs.Stream.Arrival

/-! Reading and delivery. How the bytes of a segment arrive, in what pieces, through which
buffers and after how many interruptions, shows nowhere in what a reader answers. When it reads
shows only in the entry dates of the legacy layouts. -/

namespace LineageJournal

open Wire

namespace Wire

theorem Decoder.readFrom_map {α β σ : Type} [ByteFeed σ] (decoder : Decoder α) (f : α → β)
    (feed : σ) :
    (decoder >>= fun value => pure (f value)).readFrom feed =
      ((decoder.readFrom feed).1.map f, (decoder.readFrom feed).2) := by
  change (decoder.bind fun value => done (f value)).readFrom feed = _
  induction decoder generalizing feed with
  | done value => rfl
  | fail fault => rfl
  | take count demand next ih =>
      simp only [bind, readFrom]
      cases gather demand.pace count feed with
      | mk gathered feed =>
          cases gathered with
          | full bytes => exact ih bytes feed
          | short bytes => rfl
          | failed failure => rfl

namespace Layout

def redate (layout : Layout) (now : Int64) (draft : Draft) : Draft :=
  { draft with entryDate := layout.entryDate now draft.entryDate }

theorem record_eq_redate (layout : Layout) (now : Int64) :
    layout.record now = layout.record 0 >>= fun draft => pure (layout.redate now draft) := by
  cases layout with
  | legacy version => exact Decoder.legacyRecord_eq_bind version now
  | sized => exact (Decoder.bind_done Decoder.sizedRecord).symm
  | claimed => exact (Decoder.bind_done Decoder.claimedRecord).symm

theorem readAt_readAt (layout : Layout) (now later : Int64) (event : Event) :
    layout.readAt later (layout.readAt now event) = layout.readAt later event := by
  cases layout <;> rfl

end Layout

end Wire

namespace RecordReader

theorem report_redate (layout : Layout) (filename : String) (offset : Nat) (now : Int64)
    (outcome : Except Failure Draft) :
    report filename offset (outcome.map (layout.redate now)) =
      (report filename offset outcome).map (Option.map (layout.readAt now)) := by
  cases outcome with
  | error failure => rfl
  | ok draft =>
      simp only [report, Except.map, finish, Draft.build, Layout.redate]
      cases draft.kind <;> rfl

section Reading

variable {σ : Type} [ByteFeed σ] (reader : RecordReader σ)

theorem decodeRecord_eq_readAt (now : Int64) :
    ((reader.decodeRecord now).1.map some, (reader.decodeRecord now).2) =
      (((reader.decodeRecord 0).1.map some).map (Option.map (reader.layout.readAt now)),
        (reader.decodeRecord 0).2) := by
  cases timeless : (reader.layout.record 0).readFrom reader.source with
  | mk outcome source =>
      have timed : (reader.layout.record now).readFrom reader.source =
          (outcome.map (reader.layout.redate now), source) := by
        rw [Layout.record_eq_redate, Decoder.readFrom_map, timeless]
      have first := decodeRecord_of_readFrom timeless
      rw [Prod.mk.injEq] at first
      rw [decodeRecord_of_readFrom timed, report_redate, first.1, first.2]

/-- Whenever it is read, the record is the same but for the entry date. -/
theorem nextRecord_eq_readAt (now : Int64) :
    reader.nextRecord now =
      ((reader.nextRecord 0).1.map (Option.map (reader.layout.readAt now)),
        (reader.nextRecord 0).2) := by
  unfold nextRecord
  split
  · rfl
  · rfl
  · split
    · rfl
    · rename_i source back
      exact decodeRecord_eq_readAt { reader with source } now

end Reading

def Answer.timeless (layout : Layout) : Answer → Answer
  | .record result => .record (result.map (Option.map (layout.readAt 0)))
  | answer => answer

theorem shift_readAt (layout : Layout) (offset : Nat) (now : Int64)
    (result : Except JournalError (Option Event)) :
    shift offset (result.map (Option.map (layout.readAt now))) =
      (shift offset result).map (Option.map (layout.readAt now)) := by
  cases result with
  | error error => rfl
  | ok found => cases found <;> rfl

section Answers

variable (layout : Layout) (filename : String) (bytes : List UInt8)

theorem answerFrom_timeless (now : Int64) (offset : Nat) (move : Move) :
    ((answerFrom layout filename bytes now offset move).1.timeless layout,
        (answerFrom layout filename bytes now offset move).2) =
      ((answerFrom layout filename bytes 0 offset move).1.timeless layout,
        (answerFrom layout filename bytes 0 offset move).2) := by
  cases move with
  | nextRecord =>
      have timed := nextRecord_eq_readAt (ofBytes layout filename (bytes.drop offset)) now
      have same (result : Except JournalError (Option Event)) :
          ((result.map (Option.map (layout.readAt now))).map (Option.map (layout.readAt 0))) =
            result.map (Option.map (layout.readAt 0)) := by
        cases result with
        | error error => rfl
        | ok found =>
            cases found with
            | none => rfl
            | some event =>
                exact congrArg (fun event => Except.ok (some event))
                  (layout.readAt_readAt now 0 event)
      simp only [answerFrom, Answer.timeless]
      rw [timed, shift_readAt]
      simp only [ofBytes, same]
  | _ => rfl

def timelessAll (answers : List (Answer × Nat)) : List (Answer × Nat) :=
  answers.map fun answer => (answer.1.timeless layout, answer.2)

theorem timelessAll_answersFrom (clock : Nat → Int64) (offset : Nat) (moves : List Move) :
    timelessAll layout (answersFrom layout filename bytes clock offset moves) =
      timelessAll layout (answersFrom layout filename bytes (fun _ => 0) offset moves) := by
  induction moves generalizing clock offset with
  | nil => rfl
  | cons move later ih =>
      have first := answerFrom_timeless layout filename bytes (clock 0) offset move
      rw [Prod.mk.injEq] at first
      have rest := ih (clock <| · + 1) (answerFrom layout filename bytes 0 offset move).2
      simp only [timelessAll, answersFrom, List.map_cons] at rest ⊢
      rw [first.1, first.2, rest]

end Answers

/-- What a fresh reader of the feed answers to the moves, with the clock's values taken out. -/
def answers {σ : Type} [ByteFeed σ] (feed : σ) (version : UInt32) (filename : String)
    (clock : Nat → Int64) (moves : List Move) : Except JournalError (List (Answer × Nat)) :=
  (RecordReader.new feed version filename).map fun reader =>
    timelessAll reader.layout (performAll clock moves reader)

theorem answers_of_delivers {σ : Type} [ByteFeed σ] {feed : σ} {bytes : List UInt8}
    (delivers : Delivers feed bytes) (version : UInt32) (filename : String)
    (clock : Nat → Int64) (moves : List Move) :
    answers feed version filename clock moves =
      (Layout.ofVersion version).map fun layout =>
        timelessAll layout (answersFrom layout filename bytes (fun _ => 0) 0 moves) := by
  cases known : Layout.ofVersion version with
  | error error =>
      rw [answers, RecordReader.new, known]
      rfl
  | ok layout =>
      have place := at_of_delivers delivers layout filename
      rw [answers, new_of_ofVersion known]
      simp only [Except.map]
      rw [place.performAll_eq (Nat.zero_le _), timelessAll_answersFrom]

/-- A reader gives the same answers at the same positions, clock values aside, whether its feed
has the bytes at hand, brings them in pieces of any sizes with interruptions before any of them,
reads them in blocks of any size from a file, which in turn may serve the blocks unevenly, or
delivers them in whatever other way. -/
theorem answers_eq_of_arrival (bytes : List UInt8) (version : UInt32) (filename : String)
    (clock later : Nat → Int64) (moves : List Move) :
    let expected := answers (ScriptedFeed.ofBytes bytes) version filename clock moves
    (∀ turns, answers (⟨.ofBytes bytes, turns⟩ : UnevenFeed ScriptedFeed) version filename
      later moves = expected) ∧
    (∀ capacity, answers (FileFeed.openAt bytes capacity) version filename later moves =
      expected) ∧
    (∀ capacity turns, answers ({ capacity, inner := ⟨.file 0 bytes, turns⟩ } :
      Buffered (UnevenFeed FileCursor)) version filename later moves = expected) ∧
    ∀ {σ : Type} [ByteFeed σ] {feed : σ}, Delivers feed bytes →
      answers feed version filename later moves = expected := by
  intro expected
  have same {σ : Type} [ByteFeed σ] {feed : σ} (delivers : Delivers feed bytes) :
      answers feed version filename later moves = expected :=
    (answers_of_delivers delivers version filename later moves).trans
      (answers_of_delivers (ScriptedFeed.delivers_ofBytes bytes) version filename clock
        moves).symm
  refine ⟨fun turns => same ?_, fun capacity => same ?_, fun capacity turns => same ?_, same⟩
  · exact UnevenFeed.delivers (ScriptedFeed.delivers_ofBytes bytes) turns
  · exact FileFeed.delivers_openAt bytes capacity
  · exact Buffered.delivers (UnevenFeed.delivers (FileCursor.delivers 0 bytes) turns) capacity

/-- The first byte, which the look ahead takes, comes alone and after an interruption. -/
theorem answers_eq_of_arrival_dropped :
    answers (⟨.ofBytes Records.droppedRecord, [.interrupted, .atMost 0, .interrupted, .atMost 6]⟩ :
        UnevenFeed ScriptedFeed) 1 "segment" (fun _ => 5) [.nextRecord, .nextRecord] =
      .ok [(.record (.ok (some (Records.droppedEvent 0 0))), 53), (.record (.ok none), 53)] := by
  have whole := ScriptedFeed.delivers_ofBytes Records.droppedRecord
  obtain ⟨-, -, -, same⟩ := answers_eq_of_arrival Records.droppedRecord 1 "segment"
    (fun _ => 0) (fun _ => 5) [.nextRecord, .nextRecord]
  rw [same (UnevenFeed.delivers whole _), answers]
  have place := at_of_delivers whole (.legacy .v1) "segment"
  rw [← List.append_nil Records.droppedRecord] at place
  obtain ⟨next, first, after⟩ := place.nextRecord_isRecord (Records.isRecord_dropped 0) 0
  obtain ⟨last, ended, atEnd⟩ := after.nextRecord_nil 0
  rw [List.append_nil] at first
  have known : Layout.ofVersion 1 = .ok (.legacy .v1) := rfl
  rw [new_of_ofVersion known]
  simp only [Except.map, performAll, perform, first, ended, after.position, atEnd.position]
  rfl

end RecordReader

end LineageJournal

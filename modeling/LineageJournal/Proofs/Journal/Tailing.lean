import LineageJournal.Proofs.Journal.Offsets
import LineageJournal.Proofs.Journal.Opening

/-! Following a segment while it is written. Whatever calls on the writer and the reader come
between each other, the file holds whole records between them, and what has been written is what
the reader has returned and then the records that are still ahead of it. So the reader returns
each record once it is written, tells when it has returned all of them, and never fails. -/

namespace LineageJournal

open Wire

inductive WriterCall where
  | writeRecord (event : Event) (recordId : UInt64)
  | sync
  | close

def WriterCall.operation : WriterCall → RecordWriter.Operation
  | writeRecord event recordId => .writeRecord event recordId
  | sync => .sync
  | close => .close

inductive TailCall where
  | write (call : WriterCall)
  | read (now : Int64)

/-- What came of a call, and for one on the writer the number of bytes that it had written before
the call. -/
inductive Outcome where
  | wrote (call : WriterCall) (before : Nat) (reply : Reply)
  | read (result : Except JournalError (Option Event))

def WriterCall.perform (call : WriterCall) (writer : RecordWriter (FileSink DiskFile))
    (directory : Directory) : Outcome × RecordWriter (FileSink DiskFile) × Directory :=
  match writer.onFile directory (RecordWriter.perform call.operation) with
  | (reply, next, directory) => (.wrote call writer.bytesWritten reply, next, directory)

def WriterCall.performAll : List WriterCall → RecordWriter (FileSink DiskFile) → Directory →
    List Outcome × RecordWriter (FileSink DiskFile) × Directory
  | [], writer, directory => ([], writer, directory)
  | call :: later, writer, directory =>
    match call.perform writer directory with
    | (outcome, next, directory) =>
      match performAll later next directory with
      | (outcomes, last) => (outcome :: outcomes, last)

/-- A writer and a reader of one file, and the directory that has it. -/
structure Tail where
  directory : Directory
  writer : RecordWriter (FileSink DiskFile)
  reader : RecordReader FileFeed

namespace Tail

def perform (tail : Tail) : TailCall → Outcome × Tail
  | .write call =>
    match call.perform tail.writer tail.directory with
    | (outcome, writer, directory) => (outcome, { tail with writer, directory })
  | .read now =>
    match (tail.reader.onFile tail.directory).nextRecord now with
    | (result, reader) => (.read result, { tail with reader })

def performAll : List TailCall → Tail → List Outcome × Tail
  | [], tail => ([], tail)
  | call :: later, tail =>
    match tail.perform call with
    | (outcome, next) =>
      match performAll later next with
      | (outcomes, last) => (outcome :: outcomes, last)

end Tail

namespace Outcome

def stored? (path : String) : Outcome → Option Event
  | wrote (.writeRecord event recordId) before (.wrote (.ok _)) =>
      some (event.stored recordId path before)
  | _ => none

def returned? : Outcome → Option Event
  | read (.ok (some event)) => some event
  | _ => none

def isClose : Outcome → Bool
  | wrote .close _ _ => true
  | _ => false

def stored (path : String) (outcomes : List Outcome) : List Event :=
  outcomes.filterMap (stored? path)

def returned (outcomes : List Outcome) : List Event := outcomes.filterMap returned?

def closed (outcomes : List Outcome) : Bool := outcomes.any isClose

/-- What comes of a call after these others. The reader returns the first record that it has not
returned yet, or none if there is none; the writer writes until it is closed. -/
def IsRight (path : String) (earlier : List Outcome) : Outcome → Prop
  | read result => result = .ok (stored path earlier)[(returned earlier).length]?
  | wrote (.writeRecord event recordId) _ reply =>
      reply = .wrote (if closed earlier then .error .closed else event.recordSize recordId)
  | wrote .sync _ reply =>
      reply = .finished (if closed earlier then .error .closed else .ok ())
  | wrote .close _ reply => reply = .finished (.ok ())

variable {path : String} {earlier : List Outcome} {outcome : Outcome}

theorem stored_append_of_none (nothing : outcome.stored? path = none) :
    stored path (earlier ++ [outcome]) = stored path earlier := by
  rw [stored, List.filterMap_append, List.filterMap_cons_none nothing]
  exact List.append_nil _

theorem returned_append_of_none (nothing : outcome.returned? = none) :
    returned (earlier ++ [outcome]) = returned earlier := by
  rw [returned, List.filterMap_append, List.filterMap_cons_none nothing]
  exact List.append_nil _

theorem closed_append (earlier : List Outcome) (outcome : Outcome) :
    closed (earlier ++ [outcome]) = (closed earlier || outcome.isClose) := by
  rw [closed, List.any_append, List.any_cons, List.any_nil, Bool.or_false]
  rfl

theorem closed_append_of_not (other : outcome.isClose = false) :
    closed (earlier ++ [outcome]) = closed earlier := by
  rw [closed_append, other, Bool.or_false]

end Outcome

namespace WriterCall

structure Performed (path : String) (earlier : List Outcome)
    (before : RecordWriter (FileSink DiskFile))
    (result : Outcome × RecordWriter (FileSink DiskFile) × Directory) : Prop where
  filed : result.2.1.FiledIn result.2.2
  name : result.2.1.name = before.name
  closed : result.2.1.closed = Outcome.closed (earlier ++ [result.1])
  isRight : result.1.IsRight path earlier
  returned : result.1.returned? = none
  grown : ∃ more records,
    result.2.1.sink.file.content = before.sink.file.content ++ more ∧
    Layout.claimed.Sequence path before.sink.file.content.length more records ∧
    records.map Prod.fst = Outcome.stored path [result.1]

variable {call : WriterCall} {writer next : RecordWriter (FileSink DiskFile)}
  {directory : Directory} {path : String} {earlier : List Outcome} {reply : Reply}

theorem perform_eq (call : WriterCall) (filed : writer.FiledIn directory)
    (done : RecordWriter.perform call.operation writer = (reply, next)) :
    call.perform writer directory =
      (.wrote call writer.bytesWritten reply, next,
        directory.insert writer.name next.sink.file.content) := by
  rw [perform, filed.onFile_eq, done]

theorem performed_of_unchanged (filed : writer.FiledIn directory)
    (done : RecordWriter.perform call.operation writer = (reply, writer))
    (closed : writer.closed =
      Outcome.closed (earlier ++ [.wrote call writer.bytesWritten reply]))
    (isRight : (Outcome.wrote call writer.bytesWritten reply).IsRight path earlier)
    (nothing : (Outcome.wrote call writer.bytesWritten reply).stored? path = none) :
    Performed path earlier writer (call.perform writer directory) := by
  rw [perform_eq call filed done]
  refine ⟨filed.after filed.settled rfl, rfl, closed, isRight, rfl, [], [],
    (List.append_nil _).symm, .nil _, ?_⟩
  rw [Outcome.stored, List.filterMap_cons_none nothing]
  rfl

theorem performed_writeRecord (filed : writer.FiledIn directory)
    (shut : writer.closed = Outcome.closed earlier) (event : Event) (recordId : UInt64) :
    Performed path earlier writer
      ((WriterCall.writeRecord event recordId).perform writer directory) := by
  have still (reply : Reply) : writer.closed = Outcome.closed
      (earlier ++ [.wrote (.writeRecord event recordId) writer.bytesWritten reply]) :=
    shut.trans (Outcome.closed_append_of_not rfl).symm
  cases closed : writer.closed with
  | true =>
      have done : RecordWriter.perform (.writeRecord event recordId) writer =
          (.wrote (.error .closed), writer) := by
        rw [RecordWriter.perform, RecordWriter.writeRecord, if_pos closed]
      refine performed_of_unchanged filed done (still _) ?_ rfl
      rw [Outcome.IsRight, ← shut, closed]
      rfl
  | false =>
      cases encoded : event.encode recordId with
      | error fault =>
          have done : RecordWriter.perform (.writeRecord event recordId) writer =
              (.wrote (.error (.ofEncoding fault)), writer) := by
            rw [RecordWriter.perform, RecordWriter.writeRecord_of_fault closed encoded]
          refine performed_of_unchanged filed done (still _) ?_ rfl
          rw [Outcome.IsRight, ← shut, closed, Event.recordSize_of_fault encoded]
          rfl
      | ok record =>
          obtain ⟨sink, recordsWritten, wrote, settled, more⟩ :=
            filed.settled.writeRecord closed encoded
          have done : RecordWriter.perform (.writeRecord event recordId) writer =
              (.wrote (.ok record.length), { writer with sink, recordsWritten }) := by
            rw [RecordWriter.perform, wrote]
          have offset := filed.settled.bytesWritten_eq
          have one : Layout.claimed.Sequence path writer.sink.file.content.length (record ++ [])
              [(event.stored recordId path writer.sink.file.content.length,
                writer.sink.file.content.length + record.length)] :=
            .cons (Event.isRecord_of_encode encoded path _) (.nil _)
          rw [List.append_nil] at one
          rw [perform_eq (.writeRecord event recordId) filed done]
          refine ⟨filed.after settled rfl, rfl, still _, ?_, rfl, record, _, more, one, ?_⟩
          · rw [Outcome.IsRight, ← shut, closed, Event.recordSize_of_encode encoded]
            rfl
          · rw [offset]
            rfl

theorem performed_sync (filed : writer.FiledIn directory)
    (shut : writer.closed = Outcome.closed earlier) :
    Performed path earlier writer (WriterCall.sync.perform writer directory) := by
  have still (reply : Reply) : writer.closed = Outcome.closed
      (earlier ++ [.wrote .sync writer.bytesWritten reply]) :=
    shut.trans (Outcome.closed_append_of_not rfl).symm
  cases closed : writer.closed with
  | true =>
      have done : RecordWriter.perform .sync writer = (.finished (.error .closed), writer) := by
        rw [RecordWriter.perform, RecordWriter.sync, if_pos closed]
      refine performed_of_unchanged filed done (still _) ?_ rfl
      rw [Outcome.IsRight, ← shut, closed]
      rfl
  | false =>
      have done : RecordWriter.perform .sync writer = (.finished (.ok ()), writer) := by
        rw [RecordWriter.perform, filed.settled.sync closed]
      refine performed_of_unchanged filed done (still _) ?_ rfl
      rw [Outcome.IsRight, ← shut, closed]
      rfl

theorem performed_close (filed : writer.FiledIn directory) :
    Performed path earlier writer (WriterCall.close.perform writer directory) := by
  have last (reply : Reply) : true = Outcome.closed
      (earlier ++ [.wrote .close writer.bytesWritten reply]) := by
    rw [Outcome.closed_append]
    exact (Bool.or_true _).symm
  cases closed : writer.closed with
  | true =>
      have done : RecordWriter.perform .close writer = (.finished (.ok ()), writer) := by
        rw [RecordWriter.perform, RecordWriter.close, if_pos closed]
      exact performed_of_unchanged filed done (closed.trans (last _)) rfl rfl
  | false =>
      have done : RecordWriter.perform .close writer =
          (.finished (.ok ()),
            { writer with sink := { writer.sink with closed := true }, closed := true }) := by
        rw [RecordWriter.perform, filed.settled.close closed]
      have settled : RecordWriter.Settled
          { writer with sink := { writer.sink with closed := true }, closed := true } :=
        ⟨⟨filed.settled.sound.atEnd, filed.settled.sound.counted⟩, filed.settled.flushed, rfl⟩
      rw [perform_eq .close filed done]
      exact ⟨filed.after settled rfl, rfl, last _, rfl, rfl, [], [], (List.append_nil _).symm,
        .nil _, rfl⟩

theorem performed_perform (path : String) (call : WriterCall) (filed : writer.FiledIn directory)
    (shut : writer.closed = Outcome.closed earlier) :
    Performed path earlier writer (call.perform writer directory) := by
  cases call with
  | writeRecord event recordId => exact performed_writeRecord filed shut event recordId
  | sync => exact performed_sync filed shut
  | close => exact performed_close filed

end WriterCall

namespace Outcome

variable {path : String} {outcomes earlier : List Outcome} {outcome : Outcome}

/-- Each call has come out right after those before it. -/
def AllRight (path : String) (outcomes : List Outcome) : Prop :=
  ∀ front outcome back, outcomes = front ++ outcome :: back → outcome.IsRight path front

theorem allRight_nil : AllRight path [] := by
  intro front outcome back split
  cases front <;> cases split

theorem AllRight.append (allRight : AllRight path earlier)
    (isRight : outcome.IsRight path earlier) :
    AllRight path (earlier ++ [outcome]) := by
  intro front found back split
  rcases List.eq_nil_or_concat' back with rfl | ⟨between, last, rfl⟩
  · obtain ⟨rfl, same⟩ := List.append_inj' split rfl
    cases same
    exact isRight
  · rw [← List.cons_append, ← List.append_assoc] at split
    exact allRight front found between (List.append_inj' split rfl).1

theorem AllRight.front {back : List Outcome} (allRight : AllRight path (outcomes ++ back)) :
    AllRight path outcomes := by
  rintro front found between rfl
  refine allRight front found (between ++ back) ?_
  rw [List.append_assoc, List.cons_append]

/-- If each call has come out right, then the reader has returned what was written, in order and
each record once. -/
theorem AllRight.returned_isPrefix (allRight : AllRight path outcomes) :
    returned outcomes <+: stored path outcomes := by
  induction outcomes using List.reverseRecOn with
  | nil => exact List.prefix_refl _
  | append_singleton earlier outcome ih =>
      have soFar := ih allRight.front
      have isRight := allRight earlier outcome [] rfl
      cases outcome with
      | wrote call before reply =>
          rw [returned_append_of_none rfl, stored, List.filterMap_append]
          exact soFar.trans (List.prefix_append ..)
      | read result =>
          -- what was read is the first of those that had not been returned
          obtain ⟨ahead, all⟩ := soFar
          rw [IsRight, ← all, List.getElem?_append_right (Nat.le_refl _), Nat.sub_self] at isRight
          rw [stored_append_of_none rfl, ← all, isRight, returned, List.filterMap_append]
          cases ahead with
          | nil => exact List.prefix_refl _
          | cons next later =>
              exact (List.prefix_append_right_inj _).mpr ⟨later, rfl⟩

/-- The reader tells that there is no record just when it has returned all that were written. -/
theorem AllRight.read_eq_none_iff {result : Except JournalError (Option Event)}
    {back : List Outcome} (allRight : AllRight path (earlier ++ .read result :: back)) :
    result = .ok none ↔ returned earlier = stored path earlier := by
  have isRight : result = _ := allRight earlier (.read result) back rfl
  obtain ⟨ahead, all⟩ := allRight.front.returned_isPrefix
  rw [isRight, ← all, List.getElem?_append_right (Nat.le_refl _), Nat.sub_self]
  cases ahead with
  | nil => exact ⟨fun _ => (List.append_nil _).symm, fun _ => rfl⟩
  | cons next later => simp

end Outcome

/-- After these outcomes the writer has left in its file the bytes `front`, and then `rest`, which
are the records that it has written and the reader has not returned. -/
structure Outcome.Account (path : String) (outcomes : List Outcome)
    (writer : RecordWriter (FileSink DiskFile)) (directory : Directory)
    (front rest : List UInt8) : Prop where
  filed : writer.FiledIn directory
  name : writer.name = path
  closed : writer.closed = Outcome.closed outcomes
  content : writer.sink.file.content = front ++ rest
  ahead : ∃ records, Layout.claimed.Sequence path front.length rest records ∧
    stored path outcomes = returned outcomes ++ records.map Prod.fst
  allRight : AllRight path outcomes

namespace Outcome.Account

variable {path : String} {outcomes : List Outcome} {writer : RecordWriter (FileSink DiskFile)}
  {directory : Directory} {front rest : List UInt8}

theorem held (account : Account path outcomes writer directory front rest) :
    directory.get? path = some (front ++ rest) := by
  rw [← account.name, ← account.content]
  exact (Directory.content_eq_ok.mp account.filed.held).2

theorem perform (account : Account path outcomes writer directory front rest) (call : WriterCall) :
    ∃ outcome next left more, call.perform writer directory = (outcome, next, left) ∧
      Account path (outcomes ++ [outcome]) next left front (rest ++ more) := by
  have step := WriterCall.performed_perform path call account.filed account.closed
  generalize call.perform writer directory = result at step ⊢
  obtain ⟨outcome, next, left⟩ := result
  obtain ⟨more, found, grown, sequence, written⟩ := step.grown
  obtain ⟨records, before, all⟩ := account.ahead
  refine ⟨outcome, next, left, more, rfl, step.filed, step.name.trans account.name, step.closed,
    ?_, ⟨records ++ found, ?_, ?_⟩, account.allRight.append step.isRight⟩
  · rw [grown, account.content, List.append_assoc]
  · rw [account.content, List.length_append] at sequence
    exact before.append sequence
  · rw [returned_append_of_none step.returned, List.map_append, written, ← List.append_assoc,
      ← all]
    exact List.filterMap_append

theorem performAll (account : Account path outcomes writer directory front rest)
    (calls : List WriterCall) :
    ∃ more next left rest', WriterCall.performAll calls writer directory = (more, next, left) ∧
      Account path (outcomes ++ more) next left front rest' := by
  induction calls generalizing outcomes writer directory rest with
  | nil => exact ⟨[], writer, directory, rest, rfl, by rwa [List.append_nil]⟩
  | cons call later ih =>
      obtain ⟨outcome, middle, between, more, done, after⟩ := account.perform call
      obtain ⟨outcomes', next, left, ahead, all, last⟩ := ih after
      rw [List.append_assoc] at last
      refine ⟨outcome :: outcomes', next, left, ahead, ?_, last⟩
      rw [WriterCall.performAll, done]
      simp only [all]

theorem read {result : Option Event} {passed ahead : List UInt8} {records : List (Event × Nat)}
    (account : Account path outcomes writer directory front rest)
    (split : front ++ rest = passed ++ ahead)
    (sequence : Layout.claimed.Sequence path passed.length ahead records)
    (all : stored path outcomes =
      returned outcomes ++ (result.toList ++ records.map Prod.fst))
    (last : result = none → records = []) :
    Account path (outcomes ++ [.read (.ok result)]) writer directory passed ahead where
  filed := account.filed
  name := account.name
  closed := account.closed.trans (closed_append_of_not rfl).symm
  content := account.content.trans split
  ahead := by
    refine ⟨records, sequence, ?_⟩
    rw [stored_append_of_none rfl, all, returned, returned, List.filterMap_append,
      List.append_assoc]
    cases result <;> rfl
  allRight := by
    refine account.allRight.append ?_
    rw [IsRight, all, List.getElem?_append_right (Nat.le_refl _), Nat.sub_self]
    cases result with
    | none => rw [last rfl]; rfl
    | some event => rfl

end Outcome.Account

namespace Tail

/-- After these outcomes the reader is where the records begin that it has not returned. -/
def Follows (path : String) (outcomes : List Outcome) (tail : Tail) : Prop :=
  ∃ front rest, Outcome.Account path outcomes tail.writer tail.directory front rest ∧
    (tail.reader.onFile tail.directory).Place (FileFeed.Within (front ++ rest)) .claimed path
      front.length rest

variable {path : String} {outcomes : List Outcome} {tail : Tail}

theorem Follows.write (follows : tail.Follows path outcomes) (call : WriterCall) :
    ∃ outcome next, tail.perform (.write call) = (outcome, next) ∧
      next.Follows path (outcomes ++ [outcome]) := by
  obtain ⟨front, rest, account, place⟩ := follows
  obtain ⟨outcome, writer, directory, more, done, after⟩ := account.perform call
  have held := after.held
  rw [← List.append_assoc] at held
  -- the reader had taken the file as it was before, which does not matter any more
  have grown := place.onFile held
  rw [RecordReader.onFile_onFile, List.append_assoc] at grown
  refine ⟨outcome, { tail with writer, directory }, ?_, front, rest ++ more, after, grown⟩
  rw [perform, done]

theorem Follows.read (follows : tail.Follows path outcomes) (now : Int64) :
    ∃ outcome next, tail.perform (.read now) = (outcome, next) ∧
      next.Follows path (outcomes ++ [outcome]) := by
  obtain ⟨front, rest, account, place⟩ := follows
  obtain ⟨records, sequence, all⟩ := account.ahead
  have delivery := FileFeed.isDelivery_within (front ++ rest)
  have held := account.held
  cases sequence with
  | nil =>
      obtain ⟨reader, answer, after⟩ := place.nextRecord_nil delivery now
      refine ⟨.read (.ok none), { tail with reader }, ?_, front, [],
        account.read rfl (.nil _) all fun _ => rfl, after.onFile_same held⟩
      rw [perform, answer]
  | @cons _ record ahead event records first later =>
      obtain ⟨reader, answer, after⟩ := place.nextRecord_isRecord delivery first now
      have still := after.onFile_same held
      have split : front ++ (record ++ ahead) = (front ++ record) ++ ahead :=
        (List.append_assoc ..).symm
      rw [split, ← List.length_append] at still
      rw [← List.length_append] at later
      refine ⟨.read (.ok (some event)), { tail with reader }, ?_, front ++ record, ahead,
        account.read split later all fun none => (nomatch none), still⟩
      rw [perform, answer]
      rfl

theorem Follows.performAll (follows : tail.Follows path outcomes) (calls : List TailCall) :
    ∃ more last, Tail.performAll calls tail = (more, last) ∧
      last.Follows path (outcomes ++ more) := by
  -- on the calls; the outcomes before them grow, since each call is right only after those
  induction calls generalizing outcomes tail with
  | nil => exact ⟨[], tail, rfl, by rwa [List.append_nil]⟩
  | cons call later ih =>
      obtain ⟨outcome, next, done, after⟩ : ∃ outcome next,
          tail.perform call = (outcome, next) ∧ next.Follows path (outcomes ++ [outcome]) := by
        cases call with
        | write call => exact follows.write call
        | read now => exact follows.read now
      obtain ⟨more, last, all, reached⟩ := ih after
      rw [List.append_assoc] at reached
      refine ⟨outcome :: more, last, ?_, reached⟩
      rw [Tail.performAll, done]
      simp only [all]

theorem follows_of_openSegment {writer : RecordWriter (FileSink DiskFile)} {directory : Directory}
    {rest : List UInt8} {config : ReaderConfig}
    (account : Outcome.Account path outcomes writer directory SegmentHeader.current.bytes rest)
    (valid : config.validate = .ok ()) :
    ∃ reader, RecordReader.openSegment directory path config = .ok reader ∧
      Follows path outcomes { directory, writer, reader } := by
  have found : directory.content path = .ok (SegmentHeader.current.bytes ++ rest) := by
    rw [← account.name, account.filed.held, account.content]
  obtain ⟨layout, reader, _, opened, place, version, _⟩ :=
    RecordReader.openSegment_of_supported found valid (SegmentHeader.run_header_current rest)
      (by decide) (by decide)
  have latest := Layout.eq_claimed_of_version version
  have still := place.onFile_same account.held
  rw [List.length_append, Nat.add_sub_cancel, latest] at still
  exact ⟨reader, opened, SegmentHeader.current.bytes, rest, account, still⟩

/-- A segment can be read while it is written. A reader that is opened on it at any moment after
its header returns each record that was written, in order, once, and where it was written; it
tells that there is none just when it has returned all, goes on when there are more, and never
fails. It does not matter how large the records and the buffers of the two sides are. -/
theorem returns_written {directory made : Directory} {path : String} {config : WriterConfig}
    {created : RecordWriter (FileSink DiskFile)} {readerConfig : ReaderConfig}
    (creates : RecordWriter.create directory path config = .ok (made, created))
    (valid : readerConfig.validate = .ok ()) (earlier : List WriterCall)
    (later : List TailCall) :
    ∃ begun filed, created.onFile made RecordWriter.writeHeader = (.ok (), begun, filed) ∧
      ∃ before writer directory, WriterCall.performAll earlier begun filed =
          (before, writer, directory) ∧
        ∃ reader, RecordReader.openSegment directory path readerConfig = .ok reader ∧
          let outcomes := before ++ (performAll later { directory, writer, reader }).1
          Outcome.AllRight path outcomes ∧
            Outcome.returned outcomes <+: Outcome.stored path outcomes ∧
            ∀ front result back, outcomes = front ++ .read result :: back →
              (∃ found, result = .ok found) ∧
              (result = .ok none ↔ Outcome.returned front = Outcome.stored path front) := by
  obtain ⟨filed, name, isOpen, empty⟩ := RecordWriter.filedIn_of_create creates
  obtain ⟨sink, wrote, settled, content⟩ := filed.settled.writeHeader isOpen
  have start : Outcome.Account path [] { created with sink }
      (made.insert created.name sink.file.content) SegmentHeader.current.bytes [] := by
    refine ⟨filed.after settled rfl, name, isOpen, ?_, ⟨[], .nil _, rfl⟩, Outcome.allRight_nil⟩
    rw [content, empty, List.append_nil]
    rfl
  obtain ⟨before, writer, directory, rest, begun, account⟩ := start.performAll earlier
  obtain ⟨reader, opened, follows⟩ := follows_of_openSegment account valid
  refine ⟨{ created with sink }, made.insert created.name sink.file.content, ?_, before, writer,
    directory, begun, reader, opened, ?_⟩
  · rw [filed.onFile_eq, wrote]
  · obtain ⟨more, last, all, _, _, reached, _⟩ := follows.performAll later
    rw [List.nil_append] at reached
    simp only [all]
    refine ⟨reached.allRight, reached.allRight.returned_isPrefix, fun front result back split => ?_⟩
    have allRight := reached.allRight
    rw [split] at allRight
    exact ⟨⟨_, allRight front (.read result) back rfl⟩, allRight.read_eq_none_iff⟩

/-- A record that is written after the reader has reached the end is the next that it returns. -/
theorem returns_written_receipts :
    ∃ (tail : Tail) (first second : Nat),
      (performAll [.write (.writeRecord Event.receipt 7), .read 0, .read 0,
          .write (.writeRecord Event.receipt 8), .read 0] tail).1 =
        [.wrote (.writeRecord Event.receipt 7) first (.wrote (Event.receipt.recordSize 7)),
          .read (.ok (some (Event.receipt.stored 7 "a" first))), .read (.ok none),
          .wrote (.writeRecord Event.receipt 8) second (.wrote (Event.receipt.recordSize 8)),
          .read (.ok (some (Event.receipt.stored 8 "a" second)))] := by
  obtain ⟨made, created, creates⟩ : ∃ made created,
      RecordWriter.create (SortedMap.ofList []) "a" {} = .ok (made, created) := by
    rw [RecordWriter.create, Directory.create, Directory.replace, Directory.checkName_letter]
    exact ⟨_, _, rfl⟩
  have valid : ({} : ReaderConfig).validate = .ok () := rfl
  obtain ⟨headed, filed, _, _, _, _, begun, reader, _, allRight, _⟩ :=
    returns_written creates valid []
      [.write (.writeRecord Event.receipt 7), .read 0, .read 0,
        .write (.writeRecord Event.receipt 8), .read 0]
  cases begun
  obtain ⟨first, wrote, returned, ended, second, added, again, calls⟩ :
      ∃ first wrote returned ended second added again,
        (performAll [.write (.writeRecord Event.receipt 7), .read 0, .read 0,
            .write (.writeRecord Event.receipt 8), .read 0] ⟨filed, headed, reader⟩).1 =
          [.wrote (.writeRecord Event.receipt 7) first wrote, .read returned, .read ended,
            .wrote (.writeRecord Event.receipt 8) second added, .read again] :=
    ⟨_, _, _, _, _, _, _, rfl⟩
  rw [List.nil_append, calls] at allRight
  refine ⟨⟨filed, headed, reader⟩, first, second, calls.trans ?_⟩
  obtain ⟨size, sized⟩ : ∃ size, Event.receipt.recordSize 7 = .ok size := ⟨_, rfl⟩
  obtain ⟨size', sized'⟩ : ∃ size, Event.receipt.recordSize 8 = .ok size := ⟨_, rfl⟩
  have isWrote : wrote = .wrote (Event.receipt.recordSize 7) := allRight [] _ _ rfl
  have isAdded : added = .wrote (Event.receipt.recordSize 8) := allRight [_, _, _] _ _ rfl
  rw [sized] at isWrote ⊢
  rw [sized'] at isAdded ⊢
  subst isWrote isAdded
  obtain rfl : returned = .ok (some (Event.receipt.stored 7 "a" first)) := allRight [_] _ _ rfl
  obtain rfl : ended = .ok none := allRight [_, _] _ _ rfl
  obtain rfl : again = .ok (some (Event.receipt.stored 8 "a" second)) :=
    allRight [_, _, _, _] _ _ rfl
  rfl

end Tail

end LineageJournal

import LineageJournal.Proofs.Journal.Lifecycle
import LineageJournal.Proofs.Journal.Shared
import LineageJournal.Proofs.Stream.Filed

/-! File sinks over files that do not fail. The file is never more than a buffer behind what the
sink has accepted, and not behind at all after a flush, a sync or a close; a writer flushes in
every call, so its file is never behind between two calls. -/

namespace LineageJournal

open Wire

inductive SinkStep where
  /-- A write that goes on until every byte is accepted. -/
  | write (bytes : List UInt8)
  | flush
  | sync
  | close
  deriving DecidableEq

namespace SinkStep

def bytes : SinkStep → List UInt8
  | write bytes => bytes
  | _ => []

/-- The bytes that are to be written before the first close. -/
def offered (steps : List SinkStep) : List UInt8 := (steps.takeWhile (· ≠ close)).flatMap bytes

variable {σ : Type} [ByteSink σ]

def perform : SinkStep → σ → Except Failure Unit × σ
  | write bytes => writeAll bytes
  | flush => ByteSink.flush
  | sync => ByteSink.sync
  | close => ByteSink.close

def runAll (steps : List SinkStep) (sink : σ) : σ :=
  steps.foldl (fun sink step => (step.perform sink).2) sink

theorem runAll_append_singleton (steps : List SinkStep) (step : SinkStep) (sink : σ) :
    runAll (steps ++ [step]) sink = (step.perform (runAll steps sink)).2 := by
  rw [runAll, List.foldl_append]
  rfl

theorem offered_cons (first : SinkStep) (later : List SinkStep) :
    offered (first :: later) = if first = close then [] else first.bytes ++ offered later := by
  rw [offered, List.takeWhile_cons]
  by_cases closes : first = close
  · simp [closes]
  · simp [closes, offered]

theorem offered_append_singleton (steps : List SinkStep) (step : SinkStep) :
    offered (steps ++ [step]) =
      if close ∈ steps then offered steps else offered steps ++ step.bytes := by
  induction steps with
  | nil => cases step <;> simp [offered, bytes]
  | cons first later ih =>
      rw [List.cons_append, offered_cons, offered_cons, ih]
      by_cases closes : first = close
      · rw [if_pos closes, if_pos closes, if_pos (closes ▸ List.mem_cons_self)]
      · have same : close ∈ first :: later ↔ close ∈ later :=
          List.mem_cons.trans (or_iff_right (Ne.symm closes))
        rw [if_neg closes, if_neg closes]
        simp only [same]
        split
        · rfl
        · rw [List.append_assoc]

theorem forget_perform (step : SinkStep) (traced : Traced σ) :
    Traced.forget (step.perform traced) = step.perform traced.sink := by
  cases step with
  | write bytes => exact Traced.forget_writeAll bytes traced
  | flush | sync | close => rfl

theorem sink_runAll (steps : List SinkStep) (traced : Traced σ) :
    (runAll steps traced).sink = runAll steps traced.sink := by
  induction steps generalizing traced with
  | nil => rfl
  | cons step later ih =>
      have first := congrArg Prod.snd (forget_perform step traced)
      exact (ih (step.perform traced).2).trans (congrArg (runAll later) first)

end SinkStep

theorem IsAppending.perform_step {σ : Type} [ByteSink σ] {valid : σ → Prop}
    {content : σ → List UInt8} (appending : IsAppending valid content) {sink : σ}
    (start : valid sink) (step : SinkStep) :
    valid (step.perform sink).2 ∧ content sink <+: content (step.perform sink).2 := by
  cases step with
  | write bytes =>
      obtain ⟨kept, part, _, more, _⟩ := appending.took_writeAll bytes start
      exact ⟨kept, part, more.symm⟩
  | flush =>
      obtain ⟨kept, same⟩ := appending.of_flush start
      exact ⟨kept, [], (List.append_nil _).trans same.symm⟩
  | sync =>
      obtain ⟨kept, same⟩ := appending.of_sync start
      exact ⟨kept, [], (List.append_nil _).trans same.symm⟩
  | close =>
      obtain ⟨kept, same⟩ := appending.of_close start
      exact ⟨kept, [], (List.append_nil _).trans same.symm⟩

variable {φ : Type} {valid : φ → Prop} {content : φ → List UInt8} {capacity : Nat}

namespace FileSink

/-- From `before` to `after` nothing has been accepted, and what was accepted before is now in
the file. -/
structure Emptied (valid : φ → Prop) (content : φ → List UInt8) (capacity : Nat) (closed : Bool)
    (before after : Traced (FileSink φ)) : Prop where
  filed : Filed valid content capacity after
  flushed : after.sink.pending = []
  closed : after.sink.closed = closed
  taken : after.taken = before.taken
  inFile : content after.sink.file = before.taken

variable [BackingFile φ] {traced : Traced (FileSink φ)}

theorem inFile_empty (isFile : IsFile valid content) (steady : IsSteady valid)
    (filed : Filed valid content capacity traced) (isOpen : traced.sink.closed = false) :
    valid traced.sink.empty.2.file ∧ traced.sink.empty.2.pending = [] ∧
      content traced.sink.empty.2.file = traced.taken := by
  have kept := (filed.holds isOpen).empty isFile
  have noneLeft := flushed_of_empty (empty_steady isFile steady filed.valid)
  have whole := kept.whole
  rw [noneLeft, List.append_nil] at whole
  exact ⟨kept.valid, noneLeft, whole⟩

theorem emptied_flush (isFile : IsFile valid content) (steady : IsSteady valid)
    (filed : Filed valid content capacity traced) (isOpen : traced.sink.closed = false) :
    (ByteSink.flush traced).1 = .ok () ∧
      Emptied valid content capacity false traced (ByteSink.flush traced).2 := by
  obtain ⟨done, still⟩ := (isReliable_traced isFile steady).of_flush filed isOpen
  obtain ⟨kept, same⟩ := (isAppending_traced isFile).of_flush filed
  obtain ⟨_, noneLeft, inFile⟩ := inFile_empty isFile steady filed isOpen
  have flushed : (ByteSink.flush traced).2.sink = traced.sink.empty.2 := by
    show traced.sink.flush.2 = _
    rw [flush, isOpen, if_neg Bool.false_ne_true]
  rw [← flushed] at noneLeft inFile
  exact ⟨done, kept, noneLeft, still, same, inFile⟩

theorem emptied_sync (isFile : IsFile valid content) (steady : IsSteady valid)
    (filed : Filed valid content capacity traced) (isOpen : traced.sink.closed = false) :
    (ByteSink.sync traced).1 = .ok () ∧
      Emptied valid content capacity false traced (ByteSink.sync traced).2 := by
  obtain ⟨done, still⟩ := (isReliable_traced isFile steady).of_sync filed isOpen
  obtain ⟨kept, same⟩ := (isAppending_traced isFile).of_sync filed
  obtain ⟨emptied, noneLeft, inFile⟩ := inFile_empty isFile steady filed isOpen
  have synced : (ByteSink.sync traced).2.sink =
      { traced.sink.empty.2 with file := (BackingFile.sync traced.sink.empty.2.file).2 } := by
    show traced.sink.sync.2 = _
    rw [sync, isOpen, if_neg Bool.false_ne_true, empty_steady isFile steady filed.valid]
  refine ⟨done, kept, ?_, still, same, ?_⟩
  · rw [synced]
    exact noneLeft
  · rw [synced]
    exact (isFile.of_sync emptied).2.trans inFile

theorem emptied_close (isFile : IsFile valid content) (steady : IsSteady valid)
    (filed : Filed valid content capacity traced) (isOpen : traced.sink.closed = false) :
    (ByteSink.close traced).1 = .ok () ∧
      Emptied valid content capacity true traced (ByteSink.close traced).2 := by
  have done := (isReliable_traced isFile steady).of_close filed isOpen
  obtain ⟨kept, same⟩ := (isAppending_traced isFile).of_close filed
  obtain ⟨_, noneLeft, inFile⟩ := inFile_empty isFile steady filed isOpen
  have shut : (ByteSink.close traced).2.sink = { traced.sink.empty.2 with closed := true } := by
    show traced.sink.close.2 = _
    rw [close, isOpen, if_neg Bool.false_ne_true, empty_steady isFile steady filed.valid]
  refine ⟨done, kept, ?_, ?_, same, ?_⟩
  all_goals rw [shut]
  · exact noneLeft
  · exact inFile

end FileSink

namespace SinkStep

variable {traced : Traced (FileSink φ)} {steps : List SinkStep}

structure Reached (valid : φ → Prop) (content : φ → List UInt8) (capacity : Nat)
    (steps : List SinkStep) (traced : Traced (FileSink φ)) : Prop where
  filed : FileSink.Filed valid content capacity traced
  whole : content traced.sink.file ++ traced.sink.pending = traced.taken
  taken : traced.taken = offered steps
  closed : traced.sink.closed = true ↔ .close ∈ steps

theorem reached_fresh {file : φ} (start : valid file) (empty : content file = [])
    (capacity : Nat) : Reached valid content capacity [] { sink := { file, capacity } } where
  filed := .fresh start empty capacity
  whole := by rw [empty]; rfl
  taken := rfl
  closed := by simp

theorem Reached.of_emptied {closed : Bool} {next : Traced (FileSink φ)} (step : SinkStep)
    (reached : Reached valid content capacity steps traced) (isOpen : traced.sink.closed = false)
    (emptied : FileSink.Emptied valid content capacity closed traced next)
    (last : closed = true ↔ step = .close) (quiet : step.bytes = []) :
    Reached valid content capacity (steps ++ [step]) next ∧
      content next.sink.file = offered (steps ++ [step]) := by
  have notYet : .close ∉ steps := by
    rw [← reached.closed, isOpen]
    exact Bool.false_ne_true
  have all : offered (steps ++ [step]) = traced.taken := by
    rw [offered_append_singleton, if_neg notYet, quiet, List.append_nil, reached.taken]
  refine ⟨⟨emptied.filed, ?_, emptied.taken.trans all.symm, ?_⟩, emptied.inFile.trans all.symm⟩
  · rw [emptied.flushed, List.append_nil, emptied.inFile, emptied.taken]
  · rw [emptied.closed, last, List.mem_append, List.mem_singleton, eq_comm]
    exact (or_iff_right notYet).symm

variable [BackingFile φ]

theorem perform_of_closed {sink : FileSink φ} (isClosed : sink.closed = true)
    (step : SinkStep) :
    (step.perform sink).2 = sink ∧
      ((step.perform sink).1 = .ok () ↔ step = .close ∨ step = .write []) := by
  cases step with
  | write bytes =>
      cases bytes with
      | nil =>
          rw [perform, writeAll]
          simp
      | cons first rest =>
          have refused : ByteSink.write (first :: rest) sink =
              (.error FileSink.isClosed, sink) := if_pos isClosed
          have other : FileSink.isClosed.kind ≠ .interrupted := by decide
          rw [perform, writeAll_cons, refused]
          simp [other]
  | flush =>
      have refused : ByteSink.flush sink = (.error FileSink.isClosed, sink) := if_pos isClosed
      rw [perform, refused]
      simp
  | sync =>
      have refused : ByteSink.sync sink = (.error FileSink.isClosed, sink) := if_pos isClosed
      rw [perform, refused]
      simp
  | close =>
      rw [perform, FileSink.close_of_closed isClosed]
      simp

namespace Reached

theorem perform_open (isFile : IsFile valid content) (steady : IsSteady valid)
    (reached : Reached valid content capacity steps traced) (isOpen : traced.sink.closed = false)
    (step : SinkStep) :
    (step.perform traced).1 = .ok () ∧
      Reached valid content capacity (steps ++ [step]) (step.perform traced).2 ∧
      ((∀ bytes, step ≠ .write bytes) →
        content (step.perform traced).2.sink.file = offered (steps ++ [step])) := by
  cases step with
  | write bytes =>
      obtain ⟨next, wrote, took⟩ := (FileSink.isReliable_traced isFile steady).writeAll_eq
        (FileSink.isAppending_traced isFile) bytes reached.filed isOpen
      have stillOpen : next.sink.closed = false := took.accepts
      have notYet : .close ∉ steps := by
        rw [← reached.closed, isOpen]
        exact Bool.false_ne_true
      rw [perform, wrote]
      refine ⟨rfl, ⟨took.valid, took.valid.whole (took.valid.inTime stillOpen), ?_, ?_⟩, ?_⟩
      · rw [took.more, offered_append_singleton, if_neg notYet, reached.taken]
        rfl
      · rw [stillOpen]
        simpa using notYet
      · intro others
        exact absurd rfl (others bytes)
  | flush =>
      obtain ⟨done, emptied⟩ := FileSink.emptied_flush isFile steady reached.filed isOpen
      obtain ⟨later, inFile⟩ := reached.of_emptied .flush isOpen emptied (by simp) rfl
      exact ⟨done, later, fun _ => inFile⟩
  | sync =>
      obtain ⟨done, emptied⟩ := FileSink.emptied_sync isFile steady reached.filed isOpen
      obtain ⟨later, inFile⟩ := reached.of_emptied .sync isOpen emptied (by simp) rfl
      exact ⟨done, later, fun _ => inFile⟩
  | close =>
      obtain ⟨done, emptied⟩ := FileSink.emptied_close isFile steady reached.filed isOpen
      obtain ⟨later, inFile⟩ := reached.of_emptied .close isOpen emptied (by simp) rfl
      exact ⟨done, later, fun _ => inFile⟩

theorem perform_closed (isFile : IsFile valid content)
    (reached : Reached valid content capacity steps traced) (isClosed : traced.sink.closed = true)
    (step : SinkStep) :
    Reached valid content capacity (steps ++ [step]) (step.perform traced).2 := by
  obtain ⟨filed, extended⟩ :=
    (FileSink.isAppending_traced isFile).perform_step reached.filed step
  have same : (step.perform traced).2.sink = traced.sink :=
    (congrArg Prod.snd (forget_perform step traced)).trans (perform_of_closed isClosed step).1
  have taken : (step.perform traced).2.taken = traced.taken := by
    refine (extended.eq_of_length ?_).symm
    rw [← reached.filed.counted, ← filed.counted, same]
  have already := reached.closed.mp isClosed
  refine ⟨filed, ?_, ?_, ?_⟩
  · rw [same, taken]
    exact reached.whole
  · rw [taken, offered_append_singleton, if_pos already]
    exact reached.taken
  · rw [same]
    exact iff_of_true isClosed (List.mem_append_left _ already)

/-- After a step that is no write the file has everything: the buffer has been emptied in it, or
the sink was closed and had nothing there. -/
theorem perform_quiet (isFile : IsFile valid content) (steady : IsSteady valid)
    (reached : Reached valid content capacity steps traced) {step : SinkStep}
    (notWrite : ∀ bytes, step ≠ .write bytes) :
    content (step.perform traced).2.sink.file = offered (steps ++ [step]) := by
  cases closed : traced.sink.closed with
  | false => exact (reached.perform_open isFile steady closed step).2.2 notWrite
  | true =>
      have later := reached.perform_closed isFile closed step
      have already := later.closed.mpr (List.mem_append_left _ (reached.closed.mp closed))
      rw [← later.taken, ← later.whole, later.filed.flushed already, List.append_nil]

theorem runAll (isFile : IsFile valid content) (steady : IsSteady valid) {file : φ}
    (start : valid file) (empty : content file = []) (capacity : Nat) (steps : List SinkStep) :
    Reached valid content capacity steps
      (SinkStep.runAll steps { sink := { file, capacity } }) := by
  induction steps using List.reverseRecOn with
  | nil => exact reached_fresh start empty capacity
  | append_singleton steps step ih =>
      rw [runAll_append_singleton]
      cases closed : (SinkStep.runAll steps
          ({ sink := { file, capacity } } : Traced (FileSink φ))).sink.closed with
      | false => exact (ih.perform_open isFile steady closed step).2.1
      | true => exact ih.perform_closed isFile closed step

end Reached

end SinkStep

namespace RecordWriter

variable {writer : RecordWriter (Traced (FileSink φ))}

structure UpToDate (valid : φ → Prop) (content : φ → List UInt8) (capacity : Nat)
    (writer : RecordWriter (Traced (FileSink φ))) : Prop where
  filed : FileSink.Filed valid content capacity writer.sink
  closed : writer.sink.sink.closed = writer.closed
  inFile : content writer.sink.sink.file = writer.sink.taken

theorem upToDate_of_emptied {closed : Bool} {before : Traced (FileSink φ)}
    (emptied : FileSink.Emptied valid content capacity closed before writer.sink)
    (same : writer.closed = closed) : UpToDate valid content capacity writer :=
  ⟨emptied.filed, emptied.closed.trans same.symm, emptied.inFile.trans emptied.taken.symm⟩

variable [BackingFile φ]

namespace UpToDate

theorem writePieces (isFile : IsFile valid content) (steady : IsSteady valid)
    (upToDate : UpToDate valid content capacity writer) (isOpen : writer.closed = false)
    (pieces : List (List UInt8)) :
    ∃ sink, RecordWriter.writePieces pieces writer.sink = (.ok (), sink) ∧
      ∃ before, FileSink.Emptied valid content capacity false before sink := by
  obtain ⟨last, took, flushes⟩ :=
    writePieces_eq_flush (FileSink.isAppending_traced isFile)
      (FileSink.isReliable_traced isFile steady) pieces upToDate.filed
      (upToDate.closed.trans isOpen)
  obtain ⟨done, emptied⟩ := FileSink.emptied_flush isFile steady took.valid took.accepts
  exact ⟨_, flushes.trans (Prod.ext done rfl), last, emptied⟩

theorem closeSink (isFile : IsFile valid content) (steady : IsSteady valid)
    (filed : FileSink.Filed valid content capacity writer.sink)
    (isOpen : writer.sink.sink.closed = false) :
    UpToDate valid content capacity writer.closeSink.2 := by
  obtain ⟨done, emptied⟩ := FileSink.emptied_close isFile steady filed isOpen
  rw [RecordWriter.closeSink, onSink_of_ok (Prod.ext done rfl)]
  exact upToDate_of_emptied emptied rfl

theorem perform (isFile : IsFile valid content) (steady : IsSteady valid)
    (upToDate : UpToDate valid content capacity writer) (operation : Operation) :
    UpToDate valid content capacity (RecordWriter.perform operation writer).2 := by
  cases closed : writer.closed with
  | true =>
      rw [perform_of_closed writer closed]
      exact upToDate
  | false =>
      have notClosed : ¬ writer.closed = true := Bool.eq_false_iff.mp closed
      have sinkOpen := upToDate.closed.trans closed
      cases operation with
      | writeHeader =>
          obtain ⟨sink, wrote, before, emptied⟩ :=
            upToDate.writePieces isFile steady closed SegmentHeader.current.pieces
          rw [RecordWriter.perform, writeHeader, if_neg notClosed, onSink_of_ok wrote]
          exact upToDate_of_emptied emptied closed
      | writeRecord event recordId =>
          rw [RecordWriter.perform, writeRecord, if_neg notClosed]
          cases event.encode recordId with
          | error fault => exact upToDate
          | ok record =>
              obtain ⟨sink, wrote, before, emptied⟩ :=
                upToDate.writePieces isFile steady closed [record]
              simp only [onSink_of_ok wrote]
              exact upToDate_of_emptied emptied closed
      | sync =>
          obtain ⟨done, emptied⟩ := FileSink.emptied_sync isFile steady upToDate.filed sinkOpen
          rw [RecordWriter.perform, sync, if_neg notClosed, onSink_of_ok (Prod.ext done rfl)]
          exact upToDate_of_emptied emptied closed
      | close =>
          rw [RecordWriter.perform, close, if_neg notClosed]
          split
          · obtain ⟨done, emptied⟩ :=
              FileSink.emptied_sync isFile steady upToDate.filed sinkOpen
            rw [onSink_of_ok (Prod.ext done rfl)]
            exact closeSink isFile steady emptied.filed emptied.closed
          · exact closeSink isFile steady upToDate.filed sinkOpen

theorem performAll (isFile : IsFile valid content) (steady : IsSteady valid)
    (upToDate : UpToDate valid content capacity writer) (operations : List Operation) :
    UpToDate valid content capacity (RecordWriter.performAll operations writer).2 := by
  induction operations generalizing writer with
  | nil => exact upToDate
  | cons operation later ih => exact ih (upToDate.perform isFile steady operation)

end UpToDate

/-- What the calls of a writer come to when its sink is watched. -/
structure KeepsUp (content : φ → List UInt8) (plain : RecordWriter (FileSink φ))
    (operations : List Operation)
    (outcome : List Reply × RecordWriter (Traced (FileSink φ))) : Prop where
  same : RecordWriter.performAll operations plain = bare outcome
  counted : outcome.2.bytesWritten = outcome.2.sink.taken.length
  inFile : content outcome.2.sink.sink.file = outcome.2.sink.taken

end RecordWriter

namespace FileSink

variable [BackingFile φ]

/-- What a further step comes to, after which `accepted` has been accepted. -/
structure KeepsUp (content : φ → List UInt8) (capacity : Nat) (earlier : List SinkStep)
    (step : SinkStep) (before : FileSink φ) (outcome : Except IoFailure Unit × FileSink φ)
    (accepted : List UInt8) : Prop where
  counted : outcome.2.accepted = accepted.length
  front : content outcome.2.file <+: accepted
  behind : accepted.length ≤ (content outcome.2.file).length + capacity
  inFile : (∀ bytes, step ≠ .write bytes) → content outcome.2.file = accepted
  closed_iff : outcome.2.closed = true ↔ .close ∈ earlier ++ [step]
  succeeds : before.closed = false → outcome.1 = .ok ()
  refuses : before.closed = true → outcome.2 = before ∧
    (outcome.1 = .ok () ↔ step = .close ∨ step = .write [])

/-- A sink over a newly created file that does not fail, after any steps: every byte of the
writes before the first close is accepted and counted. The file holds a front of these bytes,
whatever it held before it was created, and is behind by no more than a buffer; after a flush, a
sync or a close it is not behind at all. No step of an open sink fails. The sink is
closed from the first close on and then stays as it is: it refuses whatever is not empty, and only
closing it again succeeds. The file of a writer holds everything that the sink has accepted after
any calls. -/
theorem keeps_up (isFile : IsFile valid content) (steady : IsSteady valid)
    {directory made : Directory} {path : String} (created : directory.create path = .ok made)
    {file : φ} (start : valid file) (opened : made.content path = .ok (content file))
    (capacity : Nat) (earlier : List SinkStep) (step : SinkStep) :
    let fresh : FileSink φ := { file, capacity }
    let before := SinkStep.runAll earlier fresh
    KeepsUp content capacity earlier step before (step.perform before)
        (SinkStep.offered (earlier ++ [step])) ∧
      ∀ (name : String) (syncOnClose : Bool) (operations : List RecordWriter.Operation),
        let plain : RecordWriter (FileSink φ) := { name, syncOnClose, sink := fresh }
        RecordWriter.KeepsUp content plain operations
          (RecordWriter.performAll operations plain.watched) := by
  intro fresh before
  have empty : content file = [] :=
    Except.ok.inj (opened.symm.trans (Directory.content_create created))
  -- The trace knows which bytes were accepted, and the sink is the same without it.
  let traced : Traced (FileSink φ) := SinkStep.runAll earlier { sink := fresh }
  have same : traced.sink = before := SinkStep.sink_runAll earlier { sink := fresh }
  have bare : Traced.forget (step.perform traced) = step.perform before := by
    rw [SinkStep.forget_perform, same]
  have reached : SinkStep.Reached valid content capacity earlier traced :=
    .runAll isFile steady start empty capacity earlier
  have later : SinkStep.Reached valid content capacity (earlier ++ [step])
      (step.perform traced).2 := by
    rw [← SinkStep.runAll_append_singleton]
    exact .runAll isFile steady start empty capacity (earlier ++ [step])
  have whole : content (step.perform traced).2.sink.file ++
      (step.perform traced).2.sink.pending = SinkStep.offered (earlier ++ [step]) :=
    later.whole.trans later.taken
  constructor
  · rw [← bare]
    constructor
    case counted => exact later.filed.counted.trans (congrArg List.length later.taken)
    case front => exact ⟨_, whole⟩
    case behind =>
      have fits : (step.perform traced).2.sink.pending.length ≤ capacity :=
        later.filed.fits.within
      rw [← whole, List.length_append]
      exact Nat.add_le_add_left fits _
    case inFile => exact reached.perform_quiet isFile steady
    case closed_iff => exact later.closed
    case succeeds =>
      intro isOpen
      exact (reached.perform_open isFile steady (same ▸ isOpen) step).1
    case refuses =>
      intro isClosed
      rw [bare]
      exact SinkStep.perform_of_closed isClosed step
  · intro name syncOnClose operations plain
    have upToDate : RecordWriter.UpToDate valid content capacity
        (RecordWriter.performAll operations plain.watched).2 :=
      .performAll isFile steady ⟨.fresh start empty capacity, rfl, empty⟩ operations
    exact ⟨(RecordWriter.bare_performAll plain.watched operations).symm,
      upToDate.filed.counted, upToDate.inFile⟩

/-- The buffer is passed by in the fourth step and has a byte when the sink is closed. -/
theorem keeps_up_stale :
    let directory : Directory := (∅ : Directory).insert "a" [70, 71, 72]
    let made : Directory := directory.insert "a" []
    let steps : List SinkStep :=
      [.write [1, 2, 3], .write [4, 5], .flush, .write [6, 7, 8, 9, 10], .write [11]]
    let closed := SinkStep.close.perform (SinkStep.runAll steps (create 4))
    directory.create "a" = .ok made ∧ made.content "a" = .ok (create 4).file.content ∧
      (create 4).file.AtEnd ∧ closed.2.accepted = 11 ∧
      closed.2.file.content = [1, 2, 3, 4, 5, 6, 7, 8, 9, 10, 11] ∧ closed.2.closed = true := by
  intro directory made steps closed
  have created : directory.create "a" = .ok made := by
    rw [Directory.create, Directory.replace, Directory.checkName_letter]
    rfl
  have opened : made.content "a" = .ok (create 4).file.content := Directory.content_create created
  have atEnd : (create 4).file.AtEnd := rfl
  obtain ⟨kept, _⟩ :=
    keeps_up DiskFile.isFile DiskFile.isSteady created atEnd opened 4 steps .close
  exact ⟨created, opened, atEnd, kept.counted, kept.inFile (by simp),
    kept.closed_iff.mpr (by decide)⟩

end FileSink

end LineageJournal

import LineageJournal.Proofs.Journal.WholeRecords
import LineageJournal.Proofs.Journal.Offsets
import LineageJournal.Proofs.Wire.Overlong

/-! Refused records leave no trace. A call whose event has no record changes nothing, neither in
the writer nor in any later call, although it has filled a part of the buffer that all calls
share. A run is therefore the same run without the refused calls. -/

namespace LineageJournal

open Wire

variable {σ : Type} [ByteSink σ]

namespace ParallelWrites

def Reaches (state last : ParallelWrites σ) : Prop :=
  ∃ steps, state.run (List.replicate steps 0) = last

namespace Reaches

variable {state middle last : ParallelWrites σ}

theorem refl (state : ParallelWrites σ) : Reaches state state := ⟨0, rfl⟩

theorem step (later : Reaches (state.step 0) last) : Reaches state last := by
  obtain ⟨steps, rfl⟩ := later
  exact ⟨steps + 1, rfl⟩

theorem trans (first : Reaches state middle) (second : Reaches middle last) :
    Reaches state last := by
  obtain ⟨earlier, rfl⟩ := first
  obtain ⟨later, rfl⟩ := second
  refine ⟨earlier + later, ?_⟩
  rw [List.replicate_add, run, List.foldl_append]
  rfl

end Reaches

def alone (writer : RecordWriter σ) (buffer : List UInt8) (call : WriteCall) (phase : Phase) :
    ParallelWrites σ :=
  { writer, holder := some 0, buffer, workers := [{ calls := [call], phase }] }

def finished (writer : RecordWriter σ) (buffer : List UInt8) (result : Except JournalError Nat) :
    ParallelWrites σ :=
  { writer, buffer, workers := [{ calls := [], results := [result] }] }

variable {writer : RecordWriter σ} {buffer : List UInt8} {call : WriteCall}

theorem reaches_finished (result : Except JournalError Nat) :
    Reaches (alone writer buffer call (.releasing result)) (finished writer buffer result) :=
  .step (.refl _)

def offered (writer : RecordWriter σ) (buffer : List UInt8) (call : WriteCall) (before : Nat) :
    Except Failure Unit × σ → ParallelWrites σ
  | (.ok (), sink) => alone { writer with sink } buffer call (.flushing before)
  | (.error failure, sink) =>
    alone { writer with sink } buffer call (.releasing (.error (.io failure)))

theorem step_filling (writer : RecordWriter σ) (call : WriteCall) :
    (alone writer [] call .filling).step 0 =
      alone writer (emitAll (call.event.fields call.recordId)).bytes call
        (match (emitAll (call.event.fields call.recordId)).fault with
          | none => .writing writer.bytesWritten 0
          | some fault => .releasing (.error (.ofEncoding fault))) := by
  have fills : (alone writer [] call .filling).step 0 =
      (alone writer [] call .filling).advance 0 { calls := [call], phase := .filling }
        call [] := rfl
  rw [fills]
  simp only [advance]
  cases (emitAll (call.event.fields call.recordId)).fault <;> rfl

theorem step_writing {before written : Nat} {result : Except Failure Nat} {next : σ}
    (left : buffer.drop written ≠ [])
    (wrote : ByteSink.write (buffer.drop written) writer.sink = (result, next)) :
    (alone writer buffer call (.writing before written)).step 0 =
      alone { writer with sink := next } buffer call
        (match result with
          | .ok 0 => .releasing (.error (.io nothingAccepted))
          | .ok (accepted + 1) => .writing before (written + (accepted + 1))
          | .error failure =>
            if failure.kind = .interrupted then .writing before written
            else .releasing (.error (.io failure))) := by
  have more : written < buffer.length :=
    Nat.lt_of_not_le fun all => left (List.drop_eq_nil_iff.mpr all)
  have offers : (alone writer buffer call (.writing before written)).step 0 =
      (alone writer buffer call (.writing before written)).offer 0
        { calls := [call], phase := .writing before written } before written :=
    if_pos more
  have taken : ByteSink.write ((alone writer buffer call (.writing before written)).buffer.drop
      written) (alone writer buffer call (.writing before written)).writer.sink =
        (result, next) := wrote
  rw [offers, offer, taken]
  obtain failure | _ | accepted := result
  · by_cases interrupted : failure.kind = .interrupted
    · simp only [if_pos interrupted]
      rfl
    · simp only [if_neg interrupted]
      rfl
  · rfl
  · rfl

/-- The single offers of the buffer are those of `writeAll`. -/
theorem reaches_offered (writer : RecordWriter σ) (buffer : List UInt8) (call : WriteCall)
    (before written : Nat) :
    Reaches (alone writer buffer call (.writing before written))
      (offered writer buffer call before (writeAll (buffer.drop written) writer.sink)) := by
  generalize rest : buffer.drop written = bytes
  generalize same : writer.sink = sink
  fun_induction writeAll bytes sink generalizing writer written with
  | case1 sink =>
      subst same
      have all : ¬ written < buffer.length := Nat.not_lt.mpr (List.drop_eq_nil_iff.mp rest)
      have moved : (alone writer buffer call (.writing before written)).step 0 =
          alone writer buffer call (.flushing before) := if_neg all
      apply Reaches.step
      rw [moved]
      exact .refl _
  | case2 sink first more next wrote =>
      subst same
      rw [← rest] at wrote
      apply Reaches.step
      rw [step_writing (by simp [rest]) wrote]
      exact .refl _
  | case3 sink first more accepted next wrote ih =>
      subst same
      rw [← rest] at wrote
      apply Reaches.step
      rw [step_writing (by simp [rest]) wrote]
      have after : buffer.drop (written + (accepted + 1)) = more.drop accepted := by
        rw [← List.drop_drop, rest, List.drop_succ_cons]
      exact ih _ _ after rfl
  | case4 sink first more failure next wrote interrupted ih =>
      -- The worker stays where it is and makes the same offer again.
      subst same
      rw [← rest] at wrote
      apply Reaches.step
      rw [step_writing (by simp [rest]) wrote]
      simp only [if_pos interrupted]
      exact ih _ _ rest rfl
  | case5 sink first more failure next wrote other =>
      subst same
      rw [← rest] at wrote
      apply Reaches.step
      rw [step_writing (by simp [rest]) wrote]
      simp only [if_neg other]
      exact .refl _

theorem step_flushing (buffer : List UInt8) (call : WriteCall) (before : Nat)
    {result : Except Failure Unit} {next : σ}
    (flushed : ByteSink.flush writer.sink = (result, next)) :
    (alone writer buffer call (.flushing before)).step 0 =
      alone { writer with sink := next } buffer call
        (match result with
          | .ok () => .counting before
          | .error failure => .releasing (.error (.io failure))) := by
  have flushes : (alone writer buffer call (.flushing before)).step 0 =
      (alone writer buffer call (.flushing before)).flush 0
        { calls := [call], phase := .flushing before } before := rfl
  have done : ByteSink.flush (alone writer buffer call (.flushing before)).writer.sink =
      (result, next) := flushed
  rw [flushes, flush, done]
  cases result <;> rfl

theorem reaches_writing (writer : RecordWriter σ) (call : WriteCall) (record : List UInt8) :
    Reaches (alone writer record call (.writing writer.bytesWritten 0))
      (match writer.onSink (RecordWriter.writePieces [record]) with
        | (.error error, next) => finished next record (.error error)
        | (.ok (), next) => finished { next with recordsWritten := next.recordsWritten + 1 } record
            (.ok (next.bytesWritten - writer.bytesWritten))) := by
  have offers := reaches_offered writer record call writer.bytesWritten 0
  rw [List.drop_zero] at offers
  apply offers.trans
  cases wrote : writeAll record writer.sink with
  | mk result sink =>
      cases result with
      | error failure =>
          have pieces : RecordWriter.writePieces [record] writer.sink = (.error failure, sink) := by
            rw [RecordWriter.writePieces, wrote]
          simp only [RecordWriter.onSink_of_error pieces]
          exact reaches_finished _
      | ok _ =>
          have pieces : RecordWriter.writePieces [record] writer.sink = ByteSink.flush sink := by
            rw [RecordWriter.writePieces, wrote]
            rfl
          apply Reaches.step
          cases flushed : ByteSink.flush sink with
          | mk result after =>
              rw [flushed] at pieces
              rw [offered, step_flushing record call writer.bytesWritten flushed]
              cases result with
              | error failure =>
                  simp only [RecordWriter.onSink_of_error pieces]
                  exact reaches_finished _
              | ok _ =>
                  simp only [RecordWriter.onSink_of_ok pieces]
                  exact .step (reaches_finished _)

/-- One worker alone does what `writeRecord` does, whatever the buffer holds at first. -/
theorem reaches_writeRecord (writer : RecordWriter σ) (buffer : List UInt8) (call : WriteCall) :
    ∃ left, Reaches (start writer buffer [[call]])
      (finished (writer.writeRecord call.event call.recordId).2 left
        (writer.writeRecord call.event call.recordId).1) := by
  have taken : (start writer buffer [[call]]).step 0 = alone writer buffer call .clearing := rfl
  by_cases closed : writer.closed = true
  · have refused : (alone writer buffer call .clearing).step 0 =
        alone writer buffer call (.releasing (.error .closed)) := if_pos closed
    refine ⟨buffer, ?_⟩
    apply Reaches.step
    rw [taken]
    apply Reaches.step
    rw [refused, RecordWriter.writeRecord, if_pos closed]
    exact reaches_finished _
  · have cleared : (alone writer buffer call .clearing).step 0 =
        alone writer [] call .filling := if_neg closed
    refine ⟨(emitAll (call.event.fields call.recordId)).bytes, ?_⟩
    apply Reaches.step
    rw [taken]
    apply Reaches.step
    rw [cleared, RecordWriter.writeRecord, if_neg closed]
    apply Reaches.step
    rw [step_filling, Event.encode, Emission.toExcept]
    cases (emitAll (call.event.fields call.recordId)).fault with
    | some fault => exact reaches_finished _
    | none =>
        generalize (emitAll (call.event.fields call.recordId)).bytes = record
        have writes := reaches_writing writer call record
        simp only
        generalize writer.onSink (RecordWriter.writePieces [record]) = outcome at writes ⊢
        obtain ⟨error | _, next⟩ := outcome
        · exact writes
        · exact writes

end ParallelWrites

namespace RecordWriter

variable {writer : RecordWriter σ}

def isRefusal : Reply → Bool
  | .wrote (.error (.stringTooLong _ _ _)) => true
  | _ => false

theorem perform_of_isRefusal {operation : Operation}
    (refused : isRefusal (perform operation writer).1 = true) :
    (perform operation writer).2 = writer := by
  cases operation with
  | writeHeader | sync | close => cases refused
  | writeRecord event recordId =>
      simp only [perform, writeRecord] at refused ⊢
      split at refused
      · cases refused
      · rename_i isOpen
        rw [if_neg isOpen]
        cases encoded : event.encode recordId with
        | error fault => rfl
        | ok bytes =>
            -- the sink's own failures are answered as such
            exfalso
            simp only [encoded] at refused
            cases wrote : writePieces [bytes] writer.sink with
            | mk result sink =>
                cases result with
                | ok _ =>
                    simp only [onSink_of_ok wrote] at refused
                    cases refused
                | error failure =>
                    simp only [onSink_of_error wrote] at refused
                    cases refused

def unrefused (operations : List Operation) (replies : List Reply) : List Operation :=
  ((operations.zip replies).filter fun call => !isRefusal call.2).map Prod.fst

theorem unrefused_cons (operation : Operation) (later : List Operation) (reply : Reply)
    (replies : List Reply) :
    unrefused (operation :: later) (reply :: replies) =
      if isRefusal reply then unrefused later replies
      else operation :: unrefused later replies := by
  rw [unrefused, List.zip_cons_cons, List.filter_cons]
  cases isRefusal reply <;> rfl

theorem performAll_cons (operation : Operation) (later : List Operation)
    (writer : RecordWriter σ) :
    performAll (operation :: later) writer =
      ((perform operation writer).1 :: (performAll later (perform operation writer).2).1,
        (performAll later (perform operation writer).2).2) := rfl

theorem performAll_unrefused (operations : List Operation) (writer : RecordWriter σ) :
    performAll (unrefused operations (performAll operations writer).1) writer =
      ((performAll operations writer).1.filter (! isRefusal ·),
        (performAll operations writer).2) := by
  induction operations generalizing writer with
  | nil => rfl
  | cons operation later ih =>
      rw [performAll_cons, unrefused_cons]
      cases refused : isRefusal (perform operation writer).1 with
      | true =>
          rw [perform_of_isRefusal refused, List.filter_cons_of_neg (by simp [refused])]
          exact ih writer
      | false =>
          rw [List.filter_cons_of_pos (by simp [refused])]
          exact congrArg (fun run => ((perform operation writer).1 :: run.1, run.2))
            (ih (perform operation writer).2)

/-- A record of a bounded event is refused exactly when a text that it carries is overlong, and
the fault names the first such text, its length and the limit; nothing else that the event has
matters. A writer that refuses it is as it was before, and so is every later call, whatever the
buffer held: a run without its refused calls has the other replies and ends with the same
writer. -/
theorem refusals_exact {event : Event} (bounded : event.IsBounded) (recordId : UInt64) :
    let texts := (event.carried recordId).texts
    ((∃ bytes, event.encode recordId = .ok bytes) ↔ ∀ entry ∈ texts, ¬ IsOverlong entry) ∧
    (∀ fault, event.encode recordId = .error fault ↔ ∃ earlier field text later,
      texts = earlier ++ (field, some text) :: later ∧
      (∀ entry ∈ earlier, ¬ IsOverlong entry) ∧
      65535 < (Utf8.encode text).length ∧
      fault = .stringTooLong field (Utf8.encode text).length 65535) ∧
    (event.carried recordId).encode recordId = event.encode recordId ∧
    ∀ {σ : Type} [ByteSink σ] (writer : RecordWriter σ),
      (∀ fault, writer.closed = false → event.encode recordId = .error fault →
        writer.writeRecord event recordId = (.error (.ofEncoding fault), writer)) ∧
      (∀ buffer, ∃ left,
        ParallelWrites.Reaches (ParallelWrites.start writer buffer [[⟨event, recordId⟩]])
          (ParallelWrites.finished (writer.writeRecord event recordId).2 left
            (writer.writeRecord event recordId).1)) ∧
      ∀ operations,
        let run := performAll operations writer
        performAll (unrefused operations run.1) writer = (run.1.filter (! isRefusal ·), run.2) := by
  intro texts
  refine ⟨event.encode_ok_iff bounded recordId, event.encode_eq_error_iff bounded recordId,
    event.encode_carried recordId, fun writer => ⟨?_, ?_, ?_⟩⟩
  · intro fault isOpen refused
    exact writeRecord_of_fault isOpen refused
  · intro buffer
    exact ParallelWrites.reaches_writeRecord writer buffer ⟨event, recordId⟩
  · intro operations
    exact performAll_unrefused operations writer

theorem length_encode_replicate (n : Nat) (c : Char) :
    (Utf8.encode (String.ofList (List.replicate n c))).length =
      n * (Utf8.encodeChar c).length := by
  rw [Utf8.encode, String.toList_ofList, Utf8.encodeChars, List.length_flatMap,
    List.map_replicate, List.sum_replicate_nat]

/-- More bytes than a two-byte length can say, in fewer characters than bytes. -/
def longText : String := String.ofList (List.replicate 40000 'é')

theorem length_longText : (Utf8.encode longText).length = 80000 :=
  length_encode_replicate 40000 'é'

/-- An event with overlong texts, of which its record does not carry the last one. -/
def wordy : Event :=
  { Event.receipt with
    details := some longText
    transitUri := some longText
    relationship := some longText }

theorem isBounded_wordy : wordy.IsBounded :=
  ⟨by decide, by decide, by decide, by decide, by decide, by decide, by decide, by decide,
    by decide⟩

theorem refusals_exact_wordy :
    let writer : RecordWriter MemorySink := { name := "segment", sink := {} }
    let run := performAll [.writeRecord wordy 7, .writeHeader, .close] writer
    wordy.encode 7 = .error (.stringTooLong "details" 80000 65535) ∧
      performAll [.writeHeader, .close] writer = (run.1.filter (! isRefusal ·), run.2) := by
  intro writer run
  obtain ⟨-, faults, -, writes⟩ := refusals_exact isBounded_wordy 7
  have refused : wordy.encode 7 = .error (.stringTooLong "details" 80000 65535) := by
    refine (faults _).mpr ⟨[("component_id", some "gate"), ("component_type", none)], "details",
      longText, _, rfl, by decide, ?_, ?_⟩
    · rw [length_longText]
      decide
    · rw [length_longText]
  obtain ⟨recorded, -, runs⟩ := writes writer
  have first : writer.writeRecord wordy 7 =
      (.error (.stringTooLong "details" 80000 65535), writer) := recorded _ rfl refused
  have kept : unrefused [.writeRecord wordy 7, .writeHeader, .close]
      (performAll [.writeRecord wordy 7, .writeHeader, .close] writer).1 =
        [.writeHeader, .close] := by
    rw [performAll_cons, unrefused_cons]
    simp only [perform, first]
    rfl
  have without := runs [.writeRecord wordy 7, .writeHeader, .close]
  simp only [kept] at without
  exact ⟨refused, without⟩

end RecordWriter

end LineageJournal

import LineageJournal.Proofs.Journal.Sections

/-! Exact indexes. What a thread has noted under the segment lock still holds when it writes,
since whoever changes the segment owns the lock. So the records lie where the index says, one
after the other, and nobody closes the writer under a thread that is in a section. -/

namespace LineageJournal

open Wire

def deeper (depth : Option Nat) : Option Nat := some (depth.elim 0 (· + 1))

def shallower : Option Nat → Option Nat
  | some (again + 1) => some again
  | _ => none

namespace SegmentLock

variable {thread other : Nat} {lock next : SegmentLock}

def depth? (thread : Nat) : SegmentLock → Option Nat
  | free => none
  | held owner again => if owner = thread then some again else none

theorem depth?_unique {again : Nat} (owns : lock.depth? thread = some again)
    (apart : other ≠ thread) : lock.depth? other = none := by
  cases lock with
  | free => rfl
  | held owner held =>
      simp only [depth?, Option.ite_none_right_eq_some] at owns
      rw [depth?, if_neg (owns.1 ▸ apart.symm)]

theorem depth?_of_acquire? (acquired : lock.acquire? thread = some next) :
    next.depth? thread = deeper (lock.depth? thread) ∧
      ∀ other ≠ thread, next.depth? other = lock.depth? other := by
  cases lock with
  | free =>
      cases acquired
      exact ⟨if_pos rfl, fun other apart => if_neg apart.symm⟩
  | held owner again =>
      simp only [acquire?, Option.ite_none_right_eq_some, Option.some.injEq] at acquired
      obtain ⟨rfl, rfl⟩ := acquired
      refine ⟨?_, fun other apart => ?_⟩
      · rw [depth?, depth?, if_pos rfl, if_pos rfl]
        rfl
      · rw [depth?, depth?, if_neg apart.symm, if_neg apart.symm]

theorem depth?_of_release? (released : lock.release? thread = some next) :
    next.depth? thread = shallower (lock.depth? thread) ∧
      ∀ other ≠ thread, next.depth? other = lock.depth? other := by
  cases lock with
  | free => cases released
  | held owner again =>
      cases again with
      | zero =>
          simp only [release?, Option.ite_none_right_eq_some, Option.some.injEq] at released
          obtain ⟨rfl, rfl⟩ := released
          refine ⟨?_, fun other apart => (if_neg apart.symm).symm⟩
          rw [depth?, depth?, if_pos rfl]
          rfl
      | succ again =>
          simp only [release?, Option.ite_none_right_eq_some, Option.some.injEq] at released
          obtain ⟨rfl, rfl⟩ := released
          refine ⟨?_, fun other apart => ?_⟩
          · rw [depth?, depth?, if_pos rfl, if_pos rfl]
            rfl
          · rw [depth?, depth?, if_neg apart.symm, if_neg apart.symm]

end SegmentLock

variable {σ : Type} {valid accepting : σ → Prop} {content : σ → List UInt8}

namespace RecordWriter

/-- Nothing that a reader of the segment could see has changed, and the writer accepts what it
accepted before. -/
structure Unchanged (valid accepting : σ → Prop) (content : σ → List UInt8)
    (before after : RecordWriter σ) : Prop where
  valid : valid after.sink
  accepts : after.closed = false → accepting after.sink
  content : content after.sink = content before.sink
  closed : after.closed = before.closed

section Calls

variable [ByteSink σ] {writer : RecordWriter σ}

theorem writePieces_eq_flush (appending : IsAppending valid content)
    (reliable : IsReliable valid accepting) (pieces : List (List UInt8)) {sink : σ}
    (start : valid sink) (accepts : accepting sink) :
    ∃ last, TookAll valid accepting content pieces.flatten sink last ∧
      writePieces pieces sink = ByteSink.flush last := by
  induction pieces generalizing sink with
  | nil => exact ⟨sink, ⟨start, accepts, (List.append_nil _).symm⟩, rfl⟩
  | cons piece rest ih =>
      obtain ⟨middle, wrote, taken⟩ := reliable.writeAll_eq appending piece start accepts
      obtain ⟨last, later, flushes⟩ := ih taken.valid taken.accepts
      refine ⟨last, ⟨later.valid, later.accepts, ?_⟩, ?_⟩
      · rw [later.more, taken.more, List.append_assoc, List.flatten_cons]
      · rw [writePieces, wrote]
        exact flushes

theorem writePieces_taken (appending : IsAppending valid content)
    (reliable : IsReliable valid accepting) (pieces : List (List UInt8)) {sink : σ}
    (start : valid sink) (accepts : accepting sink) :
    ∃ next, writePieces pieces sink = (.ok (), next) ∧
      TookAll valid accepting content pieces.flatten sink next := by
  obtain ⟨last, taken, flushes⟩ := writePieces_eq_flush appending reliable pieces start accepts
  obtain ⟨kept, same⟩ := appending.of_flush taken.valid
  obtain ⟨done, still⟩ := reliable.of_flush taken.valid taken.accepts
  exact ⟨_, flushes.trans (Prod.ext done rfl), kept, still, same.trans taken.more⟩

theorem writeRecord_taken (appending : IsAppending valid content)
    (reliable : IsReliable valid accepting) (start : valid writer.sink)
    (accepts : accepting writer.sink) (isOpen : writer.closed = false) {event : Event}
    {recordId : UInt64} {record : List UInt8} (encoded : event.encode recordId = .ok record) :
    ∃ sink, writer.writeRecord event recordId =
        (.ok record.length, { writer with sink, recordsWritten := writer.recordsWritten + 1 }) ∧
      TookAll valid accepting content record writer.sink sink := by
  obtain ⟨sink, wrote, taken⟩ := writePieces_taken appending reliable [record] start accepts
  rw [List.flatten_singleton] at taken
  have size : ByteSink.bytesWritten sink - ByteSink.bytesWritten writer.sink = record.length := by
    rw [appending.bytesWritten_eq taken.valid, appending.bytesWritten_eq start, taken.more,
      List.length_append, Nat.add_sub_cancel_left]
  refine ⟨sink, ?_, taken⟩
  rw [writeRecord, if_neg (Bool.eq_false_iff.mp isOpen), encoded]
  simp only [onSink_of_ok wrote, size]

theorem sync_unchanged (appending : IsAppending valid content)
    (reliable : IsReliable valid accepting) (start : valid writer.sink)
    (accepts : writer.closed = false → accepting writer.sink) :
    Unchanged valid accepting content writer writer.sync.2 ∧
      writer.sync.2.lock = writer.lock := by
  by_cases closed : writer.closed = true
  · rw [sync, if_pos closed]
    exact ⟨⟨start, accepts, rfl, rfl⟩, rfl⟩
  · obtain ⟨kept, same⟩ := appending.of_sync start
    rw [sync, if_neg closed]
    exact ⟨⟨kept, fun isOpen => (reliable.of_sync start (accepts isOpen)).2, same, rfl⟩, rfl⟩

theorem close_closed (appending : IsAppending valid content)
    (reliable : IsReliable valid accepting) (start : valid writer.sink)
    (accepts : writer.closed = false → accepting writer.sink) :
    valid writer.close.2.sink ∧ writer.close.2.closed = true ∧
      content writer.close.2.sink = content writer.sink ∧ writer.close.2.lock = writer.lock := by
  have shut (writer : RecordWriter σ) (start : valid writer.sink)
      (accepts : accepting writer.sink) :
      valid writer.closeSink.2.sink ∧ writer.closeSink.2.closed = true ∧
        content writer.closeSink.2.sink = content writer.sink ∧
        writer.closeSink.2.lock = writer.lock := by
    obtain ⟨kept, same⟩ := appending.of_close start
    have done : ByteSink.close writer.sink = (.ok (), (ByteSink.close writer.sink).2) :=
      Prod.ext (reliable.of_close start accepts) rfl
    rw [closeSink, onSink_of_ok done]
    exact ⟨kept, rfl, same, rfl⟩
  by_cases closed : writer.closed = true
  · rw [close, if_pos closed]
    exact ⟨start, closed, rfl, rfl⟩
  · have accepts := accepts (Bool.eq_false_iff.mpr closed)
    rw [close, if_neg closed]
    by_cases syncs : writer.syncOnClose = true
    · obtain ⟨kept, same⟩ := appending.of_sync start
      obtain ⟨done, still⟩ := reliable.of_sync start accepts
      have synced : ByteSink.sync writer.sink = (.ok (), (ByteSink.sync writer.sink).2) :=
        Prod.ext done rfl
      rw [if_pos syncs, onSink_of_ok synced]
      obtain ⟨last, isClosed, kept, lock⟩ :=
        shut { writer with sink := (ByteSink.sync writer.sink).2 } kept still
      exact ⟨last, isClosed, kept.trans same, lock⟩
    · rw [if_neg syncs]
      exact shut writer start accepts

theorem closed_writeRecord (writer : RecordWriter σ) (event : Event) (recordId : UInt64) :
    (writer.writeRecord event recordId).2.closed = writer.closed := by
  unfold writeRecord
  split
  · rfl
  · split
    · rfl
    · rename_i bytes _
      have kept : (writer.onSink (writePieces [bytes])).2.closed = writer.closed := rfl
      split
      · rename_i wrote
        rwa [wrote] at kept
      · rename_i wrote
        rwa [wrote] at kept

theorem of_writeRecord_ok {event : Event} {recordId : UInt64} {size : Nat}
    {after : RecordWriter σ} (wrote : writer.writeRecord event recordId = (.ok size, after)) :
    writer.closed = false ∧ ∃ record, event.encode recordId = .ok record := by
  cases closed : writer.closed with
  | true =>
      rw [writeRecord, if_pos closed] at wrote
      cases wrote
  | false =>
      refine ⟨rfl, ?_⟩
      cases encoded : event.encode recordId with
      | ok record => exact ⟨record, rfl⟩
      | error fault =>
          rw [writeRecord_of_fault closed encoded] at wrote
          cases wrote

variable {after : RecordWriter σ} {reply : Reply} {thread : Nat}

theorem of_perform?_lock (performed : writer.perform? thread .lock = some (reply, after)) :
    ∃ lock, writer.lock.acquire? thread = some lock ∧ after = { writer with lock } := by
  obtain ⟨lock, acquired, same⟩ := Option.map_eq_some_iff.mp performed
  cases same
  exact ⟨lock, acquired, rfl⟩

theorem of_perform?_tryLock
    (performed : writer.perform? thread .tryLock = some (.tried true, after)) :
    ∃ lock, writer.lock.acquire? thread = some lock ∧ after = { writer with lock } := by
  rw [perform?] at performed
  split at performed
  · rename_i lock acquired
    cases performed
    exact ⟨lock, acquired, rfl⟩
  · cases performed

theorem of_perform?_refused
    (performed : writer.perform? thread .tryLock = some (.tried false, after)) :
    after = writer := by
  rw [perform?] at performed
  split at performed <;> cases performed
  rfl

theorem of_perform?_unlock (performed : writer.perform? thread .unlock = some (reply, after)) :
    ∃ lock, writer.lock.release? thread = some lock ∧ after = { writer with lock } := by
  obtain ⟨lock, released, same⟩ := Option.map_eq_some_iff.mp performed
  cases same
  exact ⟨lock, released, rfl⟩

theorem of_perform?_writeRecord {event : Event} {recordId : UInt64}
    {result : Except JournalError Nat}
    (performed : writer.perform? thread (.writeRecord event recordId) =
      some (.wrote result, after)) : writer.writeRecord event recordId = (result, after) := by
  simp only [perform?, Option.some.injEq, Prod.mk.injEq, Reply.wrote.injEq] at performed
  exact Prod.ext performed.1 performed.2

theorem closed_of_perform? {call : Call} (other : call ≠ .shut)
    (performed : writer.perform? thread call = some (reply, after)) :
    after.closed = writer.closed := by
  cases call with
  | lock =>
      obtain ⟨lock, _, rfl⟩ := of_perform?_lock performed
      rfl
  | unlock =>
      obtain ⟨lock, _, rfl⟩ := of_perform?_unlock performed
      rfl
  | tryLock =>
      rw [perform?] at performed
      split at performed <;> cases performed <;> rfl
  | bytesWritten | isClosed =>
      cases performed
      rfl
  | writeRecord event recordId =>
      cases performed
      exact closed_writeRecord writer event recordId
  | sync =>
      cases performed
      show writer.sync.2.closed = writer.closed
      unfold sync
      split <;> rfl
  | shut => exact absurd rfl other

end Calls

end RecordWriter

/-! ### What every step preserves -/

namespace Sections

variable {state next : Sections σ} {thread : Nat} {current activity : Activity}

/-- The threads are where the lock lets them be, an offset that was noted in an open segment is
where the segment ends, and the segment holds the header and the records of the index, with
the one that the owner of the lock has still to put there. -/
structure Sound (valid accepting : σ → Prop) (content : σ → List UInt8) (state : Sections σ) :
    Prop where
  valid : valid state.writer.sink
  accepts : state.writer.closed = false → accepting state.writer.sink
  locked : ∀ thread, (state.activities thread).depth? = state.writer.lock.depth? thread
  noted : ∀ thread offset, (state.activities thread).stage = .noted offset →
    state.writer.closed = false → offset = (content state.writer.sink).length
  laid : ∃ (pending : Option Entry) (records : List UInt8),
    content state.writer.sink = SegmentHeader.current.bytes ++ records ∧
    LaidOut SegmentHeader.current.bytes.length (state.index ++ pending.toList) records ∧
    ∀ entry, pending = some entry ↔ ∃ thread, (state.activities thread).stage = .wrote entry

namespace Sound

theorem outside (sound : Sound valid accepting content state) {again : Nat}
    (owns : (state.activities thread).depth? = some again) {other : Nat} (apart : other ≠ thread) :
    state.activities other = .outside := by
  rw [sound.locked] at owns
  have free := sound.locked other
  rw [SegmentLock.depth?_unique owns apart] at free
  cases activity : state.activities other with
  | outside => rfl
  | inside again stage => rw [activity] at free; cases free
  | closing => rw [activity] at free; cases free
  | closed => rw [activity] at free; cases free

theorem locked_move (sound : Sound valid accepting content state) {writer : RecordWriter σ}
    (owned : activity.depth? = writer.lock.depth? thread)
    (others : ∀ other ≠ thread, writer.lock.depth? other = state.writer.lock.depth? other)
    (other : Nat) :
    ((state.move thread writer activity).activities other).depth? = writer.lock.depth? other := by
  by_cases own : other = thread
  · subst own
    rw [move_self, owned]
  · rw [move_of_ne state own, sound.locked, others other own]

theorem stage_move (sound : Sound valid accepting content state) {again : Nat}
    (owns : (state.activities thread).depth? = some again) (writer : RecordWriter σ)
    (activity : Activity) (other : Nat) :
    ((state.move thread writer activity).activities other).stage =
      if other = thread then activity.stage else .ready := by
  by_cases own : other = thread
  · subst own
    rw [move_self, if_pos rfl]
  · rw [move_of_ne state own, sound.outside owns own, if_neg own]
    rfl

theorem exists_wrote_move (sound : Sound valid accepting content state) {again : Nat}
    (owns : (state.activities thread).depth? = some again) (writer : RecordWriter σ)
    (activity : Activity) (entry : Entry) :
    (∃ other, ((state.move thread writer activity).activities other).stage = .wrote entry) ↔
      activity.stage = .wrote entry := by
  constructor
  · rintro ⟨other, wrote⟩
    rw [sound.stage_move owns] at wrote
    by_cases own : other = thread
    · rwa [if_pos own] at wrote
    · rw [if_neg own] at wrote
      cases wrote
  · intro wrote
    exact ⟨thread, by rwa [move_self]⟩

theorem exists_wrote (sound : Sound valid accepting content state) {again : Nat}
    (owns : (state.activities thread).depth? = some again) (entry : Entry) :
    (∃ other, (state.activities other).stage = .wrote entry) ↔
      (state.activities thread).stage = .wrote entry := by
  have here := sound.exists_wrote_move owns state.writer (state.activities thread) entry
  rwa [move_eq_self] at here

theorem moved (sound : Sound valid accepting content state) {writer : RecordWriter σ}
    (same : RecordWriter.Unchanged valid accepting content state.writer writer)
    (owned : activity.depth? = writer.lock.depth? thread)
    (others : ∀ other ≠ thread, writer.lock.depth? other = state.writer.lock.depth? other)
    (noted : ∀ offset, activity.stage = .noted offset →
      (state.activities thread).stage = .noted offset ∨
        offset = (content state.writer.sink).length)
    (wrote : ∀ entry, activity.stage = .wrote entry ↔
      (state.activities thread).stage = .wrote entry) :
    Sound valid accepting content (state.move thread writer activity) where
  valid := same.valid
  accepts := same.accepts
  locked := sound.locked_move owned others
  noted := by
    intro other offset ahead isOpen
    rw [move_writer] at isOpen ⊢
    rw [same.content]
    rw [same.closed] at isOpen
    by_cases own : other = thread
    · subst own
      rw [move_self] at ahead
      exact (noted offset ahead).elim (fun before => sound.noted other offset before isOpen) id
    · rw [move_of_ne state own] at ahead
      exact sound.noted other offset ahead isOpen
  laid := by
    obtain ⟨pending, records, whole, laid, waiting⟩ := sound.laid
    refine ⟨pending, records, same.content.trans whole, laid, fun entry => ?_⟩
    rw [waiting]
    refine exists_congr fun other => ?_
    by_cases own : other = thread
    · subst own
      rw [move_self, wrote]
    · rw [move_of_ne state own]

theorem unchanged (sound : Sound valid accepting content state) (lock : SegmentLock) :
    RecordWriter.Unchanged valid accepting content state.writer { state.writer with lock } :=
  ⟨sound.valid, sound.accepts, rfl, rfl⟩

theorem relocked (sound : Sound valid accepting content state) {lock : SegmentLock}
    (owned : activity.depth? = lock.depth? thread)
    (others : ∀ other ≠ thread, lock.depth? other = state.writer.lock.depth? other)
    (stage : activity.stage = (state.activities thread).stage) :
    Sound valid accepting content (state.move thread { state.writer with lock } activity) :=
  sound.moved (sound.unchanged lock) owned others (fun _ noted => .inl (stage ▸ noted))
    (fun _ => by rw [stage])

theorem acquired (sound : Sound valid accepting content state)
    (here : state.activities thread = current) {lock : SegmentLock}
    (acquired : state.writer.lock.acquire? thread = some lock)
    (depth : activity.depth? = deeper current.depth?) (stage : activity.stage = current.stage) :
    Sound valid accepting content (state.move thread { state.writer with lock } activity) := by
  subst here
  obtain ⟨own, others⟩ := SegmentLock.depth?_of_acquire? acquired
  rw [← sound.locked, ← depth] at own
  exact sound.relocked own.symm others stage

theorem released (sound : Sound valid accepting content state)
    (here : state.activities thread = current) {lock : SegmentLock}
    (released : state.writer.lock.release? thread = some lock)
    (depth : activity.depth? = shallower current.depth?)
    (stage : activity.stage = current.stage) :
    Sound valid accepting content (state.move thread { state.writer with lock } activity) := by
  subst here
  obtain ⟨own, others⟩ := SegmentLock.depth?_of_release? released
  rw [← sound.locked, ← depth] at own
  exact sound.relocked own.symm others stage

theorem answered (sound : Sound valid accepting content state)
    (here : state.activities thread = current) {writer : RecordWriter σ}
    (same : RecordWriter.Unchanged valid accepting content state.writer writer)
    (lock : writer.lock = state.writer.lock) (depth : activity.depth? = current.depth?)
    (noted : ∀ offset, activity.stage = .noted offset →
      current.stage = .noted offset ∨ offset = (content state.writer.sink).length)
    (wrote : ∀ entry, activity.stage = .wrote entry ↔ current.stage = .wrote entry) :
    Sound valid accepting content (state.move thread writer activity) := by
  subst here
  refine sound.moved same ?_ (fun _ _ => by rw [lock]) noted wrote
  rw [depth, sound.locked, lock]

theorem appended (sound : Sound valid accepting content state) {again offset : Nat}
    (ready : state.activities thread = .inside again (.noted offset))
    (isOpen : state.writer.closed = false) {event : Event} {recordId : UInt64}
    {record : List UInt8} (encoded : event.encode recordId = .ok record) {sink : σ}
    (taken : TookAll valid accepting content record state.writer.sink sink)
    (recordsWritten : Nat) :
    Sound valid accepting content
      (state.move thread { state.writer with sink, recordsWritten }
        (.inside again (.wrote ⟨event, recordId, offset, record.length⟩))) := by
  have owns : (state.activities thread).depth? = some again :=
    congrArg Activity.depth? ready
  obtain ⟨pending, records, whole, laid, waiting⟩ := sound.laid
  -- The owner has only noted an offset, and nobody else is busy with a record.
  have none : pending = none := by
    refine Option.eq_none_iff_forall_ne_some.mpr fun entry some => ?_
    have wrote := (sound.exists_wrote owns entry).mp ((waiting entry).mp some)
    rw [ready] at wrote
    cases wrote
  have ended : offset = SegmentHeader.current.bytes.length + records.length := by
    rw [sound.noted thread offset (by rw [ready]; rfl) isOpen, whole, List.length_append]
  have owned := owns.symm.trans (sound.locked thread)
  refine ⟨taken.valid, fun _ => taken.accepts, sound.locked_move owned (fun _ _ => rfl), ?_, ?_⟩
  · intro other seen noted
    rw [sound.stage_move owns] at noted
    split at noted <;> cases noted
  · refine ⟨some ⟨event, recordId, offset, record.length⟩, records ++ record, ?_, ?_, ?_⟩
    · rw [move_writer, taken.more, whole, List.append_assoc]
    · rw [none, Option.toList_none, List.append_nil] at laid
      rw [ended]
      exact laid.append_record encoded
    · intro entry
      rw [sound.exists_wrote_move owns]
      simp [Activity.stage]

theorem recorded (sound : Sound valid accepting content state) {again : Nat} {entry : Entry}
    (wrote : state.activities thread = .inside again (.wrote entry)) :
    Sound valid accepting content
      ((state.move thread state.writer (.inside again .ready)).put entry) := by
  have owns : (state.activities thread).depth? = some again :=
    congrArg Activity.depth? wrote
  obtain ⟨pending, records, whole, laid, waiting⟩ := sound.laid
  have own : pending = some entry := (waiting entry).mpr ⟨thread, by rw [wrote]; rfl⟩
  have owned := owns.symm.trans (sound.locked thread)
  refine ⟨sound.valid, sound.accepts, sound.locked_move owned (fun _ _ => rfl), ?_, ?_⟩
  · intro other seen noted
    have noted : ((state.move thread state.writer (.inside again .ready)).activities other).stage =
        .noted seen := noted
    rw [sound.stage_move owns] at noted
    split at noted <;> cases noted
  · refine ⟨none, records, whole, ?_, fun other => ?_⟩
    · rw [own] at laid
      rw [Option.toList_none, List.append_nil]
      exact laid
    · have idle := sound.exists_wrote_move owns state.writer (.inside again .ready) other
      constructor
      · intro waits
        cases waits
      · intro found
        cases idle.mp found

theorem shut (sound : Sound valid accepting content state)
    (closing : state.activities thread = .closing) {writer : RecordWriter σ}
    (kept : valid writer.sink) (closed : writer.closed = true)
    (same : content writer.sink = content state.writer.sink)
    (lock : writer.lock = state.writer.lock) :
    Sound valid accepting content (state.move thread writer .closed) := by
  have owns : (state.activities thread).depth? = some 0 :=
    congrArg Activity.depth? closing
  refine ⟨kept, ?_, sound.locked_move ?_ (fun _ _ => by rw [lock]), ?_, ?_⟩
  · intro isOpen
    rw [move_writer, closed] at isOpen
    cases isOpen
  · rw [lock, ← sound.locked, owns]
    rfl
  · intro other seen noted
    rw [sound.stage_move owns] at noted
    split at noted <;> cases noted
  · obtain ⟨pending, records, whole, laid, waiting⟩ := sound.laid
    refine ⟨pending, records, same.trans whole, laid, fun entry => ?_⟩
    rw [waiting, sound.exists_wrote owns, sound.exists_wrote_move owns, closing]
    rfl

variable [ByteSink σ]

theorem call (appending : IsAppending valid content) (reliable : IsReliable valid accepting)
    (sound : Sound valid accepting content state) {call : Call} {reply : Reply}
    {writer : RecordWriter σ}
    (performed : state.writer.perform? thread call = some (reply, writer))
    (moves : (state.activities thread).Moves call reply activity) :
    Sound valid accepting content (state.move thread writer activity) := by
  generalize before : state.activities thread = current at moves
  cases moves with
  | enter | close | enterAgain =>
      obtain ⟨lock, acquired, rfl⟩ := RecordWriter.of_perform?_lock performed
      exact sound.acquired before acquired rfl rfl
  | tryEnter | tryAgain =>
      obtain ⟨lock, acquired, rfl⟩ := RecordWriter.of_perform?_tryLock performed
      exact sound.acquired before acquired rfl rfl
  | refused =>
      rw [RecordWriter.of_perform?_refused performed, ← before, move_eq_self]
      exact sound
  | leaveOne | leave | release =>
      obtain ⟨lock, released, rfl⟩ := RecordWriter.of_perform?_unlock performed
      exact sound.released before released rfl rfl
  | count | ask =>
      cases performed
      rw [← before, move_eq_self]
      exact sound
  | sync =>
      cases performed
      obtain ⟨same, lock⟩ :=
        RecordWriter.sync_unchanged appending reliable sound.valid sound.accepts
      exact sound.answered before same lock rfl (fun _ noted => .inl noted) (fun _ => Iff.rfl)
  | note =>
      cases performed
      refine sound.answered before (sound.unchanged state.writer.lock) rfl rfl ?_ ?_
      · rintro offset ⟨⟩
        exact .inr (appending.bytesWritten_eq sound.valid)
      · simp [Activity.stage]
  | @write again offset size event recordId =>
      have wrote := RecordWriter.of_perform?_writeRecord performed
      obtain ⟨isOpen, record, encoded⟩ := RecordWriter.of_writeRecord_ok wrote
      obtain ⟨sink, done, taken⟩ := RecordWriter.writeRecord_taken appending reliable sound.valid
        (sound.accepts isOpen) isOpen encoded
      rw [done] at wrote
      cases wrote
      exact sound.appended before isOpen encoded taken _
  | @fail again offset event recordId record error encodable =>
      have failed := RecordWriter.of_perform?_writeRecord performed
      cases closed : state.writer.closed with
      | true =>
          rw [RecordWriter.writeRecord, if_pos closed] at failed
          cases failed
          refine sound.answered before (sound.unchanged state.writer.lock) rfl rfl ?_ ?_
          · intro offset noted
            cases noted
          · simp [Activity.stage]
      -- An open writer would have taken the record.
      | false =>
          obtain ⟨sink, done, _⟩ := RecordWriter.writeRecord_taken appending reliable
            sound.valid (sound.accepts closed) closed encodable
          rw [done] at failed
          cases failed
  | shut =>
      cases performed
      obtain ⟨kept, closed, same, lock⟩ :=
        RecordWriter.close_closed appending reliable sound.valid sound.accepts
      exact sound.shut before kept closed same lock

theorem step (appending : IsAppending valid content) (reliable : IsReliable valid accepting)
    (sound : Sound valid accepting content state) (step : state.Step thread next) :
    Sound valid accepting content next := by
  cases step with
  | call performed moves => exact sound.call appending reliable performed moves
  | record wrote => exact sound.recorded wrote

theorem steps (appending : IsAppending valid content) (reliable : IsReliable valid accepting)
    (sound : Sound valid accepting content state)
    (reached : Relation.ReflTransGen Steps state next) : Sound valid accepting content next := by
  induction reached with
  | refl => exact sound
  | tail _ last ih =>
      obtain ⟨thread, step⟩ := last
      exact ih.step appending reliable step

/-- While a thread is in a section no step closes the writer: whoever closes it owns the lock,
and so does the thread in the section. -/
theorem closed_of_step (sound : Sound valid accepting content state) {holder : Nat}
    (holds : state.Holds holder) (step : state.Step thread next) :
    next.writer.closed = state.writer.closed := by
  cases step with
  | record wrote => rfl
  | @call call reply writer activity performed moves =>
      refine RecordWriter.closed_of_perform? ?_ performed
      rintro rfl
      obtain ⟨again, stage, inside⟩ := holds
      have owns : (state.activities holder).depth? = some again :=
        congrArg Activity.depth? inside
      generalize before : state.activities thread = current at moves
      cases moves with
      | shut =>
          by_cases own : thread = holder
          · rw [own, inside] at before
            cases before
          · rw [sound.outside owns own] at before
            cases before

end Sound

/-! ### Exact indexes -/

/-- Every entry is where its record lies, no two records overlap, and whatever comes after the
header is in the index, or will be as soon as the thread that wrote it puts it there. -/
structure Indexed (content : σ → List UInt8) (state : Sections σ) : Prop where
  header : SegmentHeader.current.bytes <+: content state.writer.sink
  recorded : ∀ entry ∈ state.index, ∃ record,
    entry.event.encode entry.recordId = .ok record ∧ record.length = entry.size ∧
      ((content state.writer.sink).drop entry.offset).take entry.size = record
  disjoint : state.index.Pairwise fun first second => first.offset + first.size ≤ second.offset
  within : ∀ entry ∈ state.index, SegmentHeader.current.bytes.length ≤ entry.offset ∧
    entry.offset + entry.size ≤ (content state.writer.sink).length
  covering : ∀ position, SegmentHeader.current.bytes.length ≤ position →
    position < (content state.writer.sink).length →
      ∃ entry, (entry ∈ state.index ∨ ∃ thread, (state.activities thread).stage = .wrote entry) ∧
        entry.Covers position

theorem Sound.indexed (sound : Sound valid accepting content state) : Indexed content state := by
  obtain ⟨pending, records, whole, laid, waiting⟩ := sound.laid
  have listed {entry : Entry} (found : entry ∈ state.index) :
      entry ∈ state.index ++ pending.toList := List.mem_append_left _ found
  refine ⟨⟨records, whole.symm⟩, ?_, ?_, ?_, ?_⟩
  · intro entry found
    rw [whole]
    exact laid.record_at rfl (listed found)
  · exact (List.pairwise_append.mp laid.disjoint).1
  · intro entry found
    rw [whole, List.length_append]
    exact laid.within (listed found)
  · intro position after before
    rw [whole, List.length_append] at before
    obtain ⟨entry, found, covered⟩ := laid.covers after before
    refine ⟨entry, ?_, covered⟩
    rcases List.mem_append.mp found with indexed | last
    · exact .inl indexed
    · exact .inr ((waiting entry).mp (Option.mem_toList.mp last))

variable [ByteSink σ]

theorem sound_start (appending : IsAppending valid content)
    (reliable : IsReliable valid accepting) {sink : σ} (start : valid sink)
    (accepts : accepting sink) (empty : content sink = []) (name : String) (syncOnClose : Bool) :
    ∃ headed, RecordWriter.writeHeader { name, syncOnClose, sink } = (.ok (), headed) ∧
      Sound valid accepting content (.start headed) := by
  obtain ⟨headed, wrote, taken⟩ := RecordWriter.writePieces_taken appending reliable
    SegmentHeader.current.pieces start accepts
  have content := taken.more
  rw [empty, List.nil_append] at content
  refine ⟨{ name, syncOnClose, sink := headed }, ?_, taken.valid, fun _ => taken.accepts,
    fun _ => rfl, ?_, none, [], ?_, .nil _, ?_⟩
  · rw [RecordWriter.writeHeader, if_neg Bool.false_ne_true]
    exact RecordWriter.onSink_of_ok wrote
  · intro thread offset noted
    cases noted
  · rw [List.append_nil]
    exact content
  · intro entry
    constructor
    · intro waits
      cases waits
    · rintro ⟨thread, wrote⟩
      cases wrote

/-- Threads that write in sections of their own, over a sink that only appends and does not fail,
keep an exact index in whatever order their calls come, and while one of them is in a section
the writer stays open, or closed, as it is. -/
theorem indexed_of_reachable (appending : IsAppending valid content)
    (reliable : IsReliable valid accepting) (sink : σ) (start : valid sink)
    (accepts : accepting sink) (empty : content sink = []) (name : String) (syncOnClose : Bool) :
    ∃ headed, RecordWriter.writeHeader { name, syncOnClose, sink } = (.ok (), headed) ∧
      ∀ state, Relation.ReflTransGen Steps (.start headed) state →
        Indexed content state ∧
          ∀ holder later,
            Relation.ReflTransGen (fun before after => before.Holds holder ∧ before.Steps after)
              state later → later.writer.closed = state.writer.closed := by
  obtain ⟨headed, wrote, first⟩ :=
    sound_start appending reliable start accepts empty name syncOnClose
  refine ⟨headed, wrote, fun state reached => ?_⟩
  have sound := first.steps appending reliable reached
  refine ⟨sound.indexed, fun holder later inside => ?_⟩
  have both : Sound valid accepting content later ∧
      later.writer.closed = state.writer.closed := by
    induction inside with
    | refl => exact ⟨sound, rfl⟩
    | tail _ last ih =>
        obtain ⟨holds, thread, step⟩ := last
        exact ⟨ih.1.step appending reliable step, (ih.1.closed_of_step holds step).trans ih.2⟩
  exact both.2

theorem indexed_of_reachable_receipt :
    ∃ (record : List UInt8) (state : Sections MemorySink),
      Event.receipt.encode 7 = .ok record ∧
      state.index = [⟨Event.receipt, 7, 63, record.length⟩] ∧ state.writer.closed = true ∧
      (state.writer.sink.bytes.drop 63).take record.length = record := by
  obtain ⟨record, encoded⟩ : ∃ record, Event.receipt.encode 7 = .ok record := ⟨_, rfl⟩
  obtain ⟨headed, wrote, reaches⟩ := indexed_of_reachable MemorySink.isAppending
    MemorySink.isReliable {} trivial trivial rfl "segment" false
  rw [RecordWriter.writeHeader_eq rfl] at wrote
  cases wrote
  let header : ByteLog := (∅ : ByteLog).append SegmentHeader.current.bytes
  let headed : RecordWriter MemorySink := { name := "segment", sink := { log := header } }
  let owned : RecordWriter MemorySink := { headed with lock := .held 0 0 }
  let written : RecordWriter MemorySink :=
    { owned with sink := { log := header.append record }, recordsWritten := 1 }
  let entry : Entry := ⟨Event.receipt, 7, 63, record.length⟩
  let entered := (start headed).move 0 owned (.inside 0 .ready)
  let refused := entered.move 1 owned .outside
  let noted := refused.move 0 owned (.inside 0 (.noted 63))
  let wrote := noted.move 0 written (.inside 0 (.wrote entry))
  let listed := (wrote.move 0 written (.inside 0 .ready)).put entry
  let left := listed.move 0 { written with lock := .free } .outside
  let closing := left.move 1 { written with lock := .held 1 0 } .closing
  let closed := closing.move 1 { written with lock := .held 1 0, closed := true } .closed
  have writing : RecordWriter.perform? 0 owned (.writeRecord Event.receipt 7) =
      some (.wrote (.ok record.length), written) := by
    rw [RecordWriter.perform?, RecordWriter.writeRecord_of_encode rfl encoded]
  have run : Relation.ReflTransGen Steps (start headed) closed := by
    refine .trans (.single (⟨0, .call rfl .enter⟩ : Steps (start headed) entered)) ?_
    refine .trans (.single (⟨1, .call rfl .refused⟩ : Steps entered refused)) ?_
    refine .trans (.single (⟨0, .call rfl .note⟩ : Steps refused noted)) ?_
    refine .trans (.single (⟨0, .call writing .write⟩ : Steps noted wrote)) ?_
    refine .trans (.single (⟨0, .record rfl⟩ : Steps wrote listed)) ?_
    refine .trans (.single (⟨0, .call rfl .leave⟩ : Steps listed left)) ?_
    refine .trans (.single (⟨1, .call rfl .close⟩ : Steps left closing)) ?_
    exact .single (⟨1, .call rfl .shut⟩ : Steps closing closed)
  obtain ⟨indexed, _⟩ := reaches closed run
  obtain ⟨found, own, size, there⟩ := indexed.recorded entry List.mem_cons_self
  rw [encoded] at own
  cases own
  exact ⟨record, closed, encoded, rfl, rfl, there⟩

end Sections

end LineageJournal

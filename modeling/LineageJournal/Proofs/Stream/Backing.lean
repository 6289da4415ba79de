import LineageJournal.Proofs.Stream.Reliable
import LineageJournal.Proofs.Stream.Traced
import LineageJournal.Stream.FileSink

/-! Buffers in front of files. A file may fail whenever it is used, but it keeps what it has
taken; so the file and the buffer together have everything that a sink has accepted, in order,
unless a close fails. A sink over a file that does not fail appends, and is reliable until it is
closed. -/

namespace LineageJournal

section

variable {φ : Type} [BackingFile φ]

/-- In its valid states the file holds `content`. A write takes a front of what it is offered,
and nothing if it fails. -/
structure IsFile (valid : φ → Prop) (content : φ → List UInt8) : Prop where
  of_write_ok : ∀ {bytes : List UInt8} {file next : φ} {taken : Nat}, valid file →
    BackingFile.write bytes file = (.ok taken, next) →
      valid next ∧ taken ≤ bytes.length ∧ content next = content file ++ bytes.take taken
  of_write_error : ∀ {bytes : List UInt8} {file next : φ} {failure : Failure}, valid file →
    BackingFile.write bytes file = (.error failure, next) →
      valid next ∧ content next = content file
  of_sync : ∀ {file : φ}, valid file →
    valid (BackingFile.sync file).2 ∧ content (BackingFile.sync file).2 = content file

/-- The file does not fail in its valid states: it may take a write in pieces and may be
interrupted, but every write brings it on. -/
structure IsSteady (valid : φ → Prop) : Prop where
  of_write_ok : ∀ {bytes : List UInt8} {file next : φ} {taken : Nat}, valid file →
    BackingFile.write bytes file = (.ok taken, next) → bytes ≠ [] → taken ≠ 0
  of_write_error : ∀ {bytes : List UInt8} {file next : φ} {failure : Failure}, valid file →
    BackingFile.write bytes file = (.error failure, next) → failure.kind = .interrupted
  of_sync : ∀ {file : φ}, valid file → (BackingFile.sync file).1 = .ok ()

end

/-- The handle is where the file ends, so what is written is appended. -/
def DiskFile.AtEnd (file : DiskFile) : Prop := file.position = file.log.size

namespace DiskFile

variable {file : DiskFile}

theorem content_write_atEnd (atEnd : file.AtEnd) (bytes : List UInt8) :
    (write bytes file).2.content = file.content ++ bytes := by
  rw [content_write, atEnd, ← ByteLog.length_toList]
  exact overwrite_at_end file.content bytes

theorem atEnd_write (atEnd : file.AtEnd) (bytes : List UInt8) :
    (write bytes file).2.AtEnd := by
  have same : file.position = file.log.size := atEnd
  rw [AtEnd, write, if_pos same]
  exact congrArg (· + bytes.length) same

theorem isFile : IsFile AtEnd content where
  of_write_ok := by
    intro bytes file next taken atEnd written
    have written : file.write bytes = (.ok taken, next) := written
    cases written
    refine ⟨atEnd_write atEnd bytes, Nat.le_refl _, ?_⟩
    rw [List.take_length]
    exact content_write_atEnd atEnd bytes
  of_write_error := by
    intro bytes file next failure _ written
    cases written
  of_sync atEnd := ⟨atEnd, rfl⟩

theorem isSteady : IsSteady AtEnd where
  of_write_ok := by
    intro bytes file next taken _ written nonempty none
    cases written
    exact nonempty (List.length_eq_zero_iff.mp none)
  of_write_error := by
    intro bytes file next failure _ written
    cases written
  of_sync _ := rfl

end DiskFile

def SinkCall.taken : SinkCall → List UInt8
  | .write bytes (.ok count) => bytes.take count
  | _ => []

namespace FileSink

variable {φ : Type}

structure Fits (capacity : Nat) (sink : FileSink φ) : Prop where
  sized : sink.capacity = capacity
  within : sink.pending.length ≤ capacity

/-- The file holds the front of the accepted bytes and the buffer the rest. -/
structure Holds (valid : φ → Prop) (content : φ → List UInt8) (taken : List UInt8)
    (sink : FileSink φ) : Prop where
  valid : valid sink.file
  whole : content sink.file ++ sink.pending = taken
  counted : sink.accepted = taken.length

section Buffers

variable {valid : φ → Prop} {content : φ → List UInt8} {capacity : Nat} {sink : FileSink φ}
  {taken bytes : List UInt8}

theorem Holds.keep (holds : Holds valid content taken sink) (bytes : List UInt8) :
    Holds valid content (taken ++ (SinkCall.write bytes (sink.keep bytes).1).taken)
      (sink.keep bytes).2 := by
  have all : (SinkCall.write bytes (sink.keep bytes).1).taken = bytes := List.take_length
  rw [all]
  refine ⟨holds.valid, ?_, ?_⟩
  · rw [← holds.whole, List.append_assoc]
    rfl
  · rw [List.length_append, ← holds.counted]
    rfl

variable [BackingFile φ]

section Closed

variable (sink : FileSink φ)

theorem closed_store (bytes : List UInt8) : (sink.store bytes).2.closed = sink.closed := by
  unfold store
  split
  · split <;> rfl
  · rfl

theorem closed_write (bytes : List UInt8) : (sink.write bytes).2.closed = sink.closed := by
  unfold write
  split
  · rfl
  · split
    · rfl
    · split
      · split
        · rename_i emptied
          rw [closed_store]
          exact congrArg (fun outcome => FileSink.closed outcome.2) emptied.symm
        · rename_i emptied
          exact congrArg (fun outcome => FileSink.closed outcome.2) emptied.symm
      · exact closed_store sink bytes

theorem closed_flush : sink.flush.2.closed = sink.closed := by
  unfold flush
  split <;> rfl

theorem closed_sync : sink.sync.2.closed = sink.closed := by
  unfold sync
  split
  · rfl
  · split
    · rename_i emptied
      exact congrArg (fun outcome => FileSink.closed outcome.2) emptied.symm
    · rename_i emptied
      exact congrArg (fun outcome => FileSink.closed outcome.2) emptied.symm

theorem closed_close : sink.close.2.closed = true := by
  unfold close
  split
  · assumption
  · split <;> rfl

end Closed

theorem drainTo_left (pending : List UInt8) (file : φ) :
    (drainTo pending file).2.1.length ≤ pending.length ∧
      ((drainTo pending file).1 = .ok () → (drainTo pending file).2.1 = []) := by
  fun_induction drainTo pending file with
  | case1 file => exact ⟨Nat.le_refl _, fun _ => rfl⟩
  | case2 file first rest next written => exact ⟨Nat.le_refl _, by simp⟩
  | case3 file first rest taken next written ih =>
      refine ⟨Nat.le_trans ih.1 ?_, ih.2⟩
      rw [List.length_drop, List.length_cons]
      omega
  | case4 file first rest failure next written interrupted ih => exact ih
  | case5 file first rest failure next written other => exact ⟨Nat.le_refl _, by simp⟩

theorem drainTo_keeps (isFile : IsFile valid content) (pending : List UInt8) {file : φ}
    (start : valid file) :
    valid (drainTo pending file).2.2 ∧
      content (drainTo pending file).2.2 ++ (drainTo pending file).2.1 =
        content file ++ pending := by
  fun_induction drainTo pending file with
  | case1 file => exact ⟨start, rfl⟩
  | case2 file first rest next written =>
      obtain ⟨kept, _, same⟩ := isFile.of_write_ok start written
      rw [List.take_zero, List.append_nil] at same
      exact ⟨kept, congrArg (· ++ first :: rest) same⟩
  | case3 file first rest taken next written ih =>
      obtain ⟨kept, _, more⟩ := isFile.of_write_ok start written
      obtain ⟨still, whole⟩ := ih kept
      refine ⟨still, whole.trans ?_⟩
      rw [more, List.append_assoc]
      exact congrArg (content file ++ ·) (List.take_append_drop (taken + 1) (first :: rest))
  | case4 file first rest failure next written interrupted ih =>
      obtain ⟨kept, same⟩ := isFile.of_write_error start written
      rw [← same]
      exact ih kept
  | case5 file first rest failure next written other =>
      obtain ⟨kept, same⟩ := isFile.of_write_error start written
      exact ⟨kept, congrArg (· ++ first :: rest) same⟩

theorem drainTo_steady (isFile : IsFile valid content) (steady : IsSteady valid)
    (pending : List UInt8) {file : φ} (start : valid file) :
    (drainTo pending file).1 = .ok () := by
  fun_induction drainTo pending file with
  | case1 file => rfl
  | case2 file first rest next written =>
      exact absurd rfl (steady.of_write_ok start written (List.cons_ne_nil first rest))
  | case3 file first rest taken next written ih => exact ih (isFile.of_write_ok start written).1
  | case4 file first rest failure next written interrupted ih =>
      exact ih (isFile.of_write_error start written).1
  | case5 file first rest failure next written other =>
      exact absurd (steady.of_write_error start written) other

theorem flushed_of_empty {next : FileSink φ} (emptied : sink.empty = (.ok (), next)) :
    next.pending = [] := by
  have noneLeft := (drainTo_left sink.pending sink.file).2 (congrArg Prod.fst emptied)
  exact (congrArg (fun outcome => FileSink.pending outcome.2) emptied).symm.trans noneLeft

theorem empty_of_flushed (flushed : sink.pending = []) : sink.empty = (.ok (), sink) := by
  rw [empty, flushed, drainTo, ← flushed]

theorem close_of_flushed (isOpen : sink.closed = false) (flushed : sink.pending = []) :
    ByteSink.close sink = (.ok (), { sink with closed := true }) := by
  show sink.close = _
  rw [close, isOpen, if_neg Bool.false_ne_true, empty_of_flushed flushed]

theorem close_of_closed (isClosed : sink.closed = true) : ByteSink.close sink = (.ok (), sink) :=
  if_pos isClosed

theorem flushed_close (isOpen : sink.closed = false) : sink.close.2.pending = [] := by
  rw [close, isOpen, if_neg Bool.false_ne_true]
  split
  · rename_i emptied
    have noneLeft := flushed_of_empty emptied
    exact noneLeft
  · rfl

namespace Fits

theorem empty (fits : Fits capacity sink) : Fits capacity sink.empty.2 :=
  ⟨fits.sized, Nat.le_trans (drainTo_left sink.pending sink.file).1 fits.within⟩

theorem store (fits : Fits capacity sink)
    (room : bytes.length < capacity → sink.pending.length + bytes.length ≤ capacity) :
    Fits capacity (sink.store bytes).2 := by
  unfold FileSink.store
  split
  · split <;> exact ⟨fits.sized, fits.within⟩
  · rename_i more
    refine ⟨fits.sized, ?_⟩
    show (sink.pending ++ bytes).length ≤ capacity
    rw [List.length_append]
    exact room (fits.sized ▸ Nat.lt_of_not_le more)

theorem write (fits : Fits capacity sink) : Fits capacity (sink.write bytes).2 := by
  have sized := fits.sized
  have within := fits.within
  unfold FileSink.write
  split
  · exact fits
  · split
    · refine ⟨sized, ?_⟩
      show (sink.pending ++ bytes).length ≤ capacity
      rw [List.length_append]
      omega
    · split
      · split
        · rename_i emptied
          have still := fits.empty
          rw [emptied] at still
          refine still.store fun less => ?_
          rw [flushed_of_empty emptied, List.length_nil, Nat.zero_add]
          exact Nat.le_of_lt less
        · rename_i emptied
          have still := fits.empty
          rw [emptied] at still
          exact still
      · exact fits.store fun _ => by omega

theorem flush (fits : Fits capacity sink) : Fits capacity sink.flush.2 := by
  unfold FileSink.flush
  split
  · exact fits
  · exact fits.empty

theorem sync (fits : Fits capacity sink) : Fits capacity sink.sync.2 := by
  have still := fits.empty
  unfold FileSink.sync
  split
  · exact fits
  · split
    all_goals
      rename_i emptied
      rw [emptied] at still
      exact ⟨still.sized, still.within⟩

theorem close (fits : Fits capacity sink) : Fits capacity sink.close.2 := by
  have still := fits.empty
  unfold FileSink.close
  split
  · exact fits
  · split
    all_goals
      rename_i emptied
      rw [emptied] at still
    · exact ⟨still.sized, still.within⟩
    · exact ⟨still.sized, Nat.zero_le capacity⟩

end Fits

/-! ### What the file and the buffer have -/

namespace Holds

theorem empty (isFile : IsFile valid content) (holds : Holds valid content taken sink) :
    Holds valid content taken sink.empty.2 := by
  obtain ⟨kept, whole⟩ := drainTo_keeps isFile sink.pending holds.valid
  exact ⟨kept, whole.trans holds.whole, holds.counted⟩

/-- Bytes that fill the buffer overtake nothing. -/
theorem store (isFile : IsFile valid content) (holds : Holds valid content taken sink)
    (inOrder : sink.capacity ≤ bytes.length → sink.pending = [] ∨ bytes = []) :
    Holds valid content (taken ++ (SinkCall.write bytes (sink.store bytes).1).taken)
      (sink.store bytes).2 := by
  by_cases past : sink.capacity ≤ bytes.length
  · rw [FileSink.store, if_pos past]
    cases written : BackingFile.write bytes sink.file with
    | mk result file =>
        cases result with
        | ok count =>
            obtain ⟨kept, within, more⟩ := isFile.of_write_ok holds.valid written
            refine ⟨kept, ?_, ?_⟩
            · show content file ++ sink.pending = taken ++ bytes.take count
              rw [more, ← holds.whole]
              rcases inOrder past with none | none
              · rw [none, List.append_nil, List.append_nil]
              · rw [none, List.take_nil, List.append_nil, List.append_nil]
            · show sink.accepted + count = (taken ++ bytes.take count).length
              rw [List.length_append, List.length_take_of_le within, holds.counted]
        | error failure =>
            obtain ⟨kept, same⟩ := isFile.of_write_error holds.valid written
            refine ⟨kept, ?_, ?_⟩
            · show content file ++ sink.pending = taken ++ []
              rw [same, holds.whole, List.append_nil]
            · show sink.accepted = (taken ++ []).length
              rw [List.append_nil, holds.counted]
  · rw [FileSink.store, if_neg past]
    exact holds.keep bytes

theorem write (isFile : IsFile valid content) (holds : Holds valid content taken sink)
    (bytes : List UInt8) :
    Holds valid content (taken ++ (SinkCall.write bytes (sink.write bytes).1).taken)
      (sink.write bytes).2 := by
  unfold FileSink.write
  split
  · show Holds valid content (taken ++ []) sink
    rw [List.append_nil]
    exact holds
  · split
    · exact holds.keep bytes
    · rename_i small
      split
      · split
        · rename_i emptied
          have still := holds.empty isFile
          rw [emptied] at still
          exact still.store isFile fun _ => .inl (flushed_of_empty emptied)
        · rename_i next emptied
          have still := holds.empty isFile
          rw [emptied] at still
          show Holds valid content (taken ++ []) next
          rw [List.append_nil]
          exact still
      · refine holds.store isFile fun past => ?_
        rw [← List.length_eq_zero_iff, ← List.length_eq_zero_iff]
        omega

theorem flush (isFile : IsFile valid content) (holds : Holds valid content taken sink) :
    Holds valid content taken sink.flush.2 := by
  unfold FileSink.flush
  split
  · exact holds
  · exact holds.empty isFile

theorem sync (isFile : IsFile valid content) (holds : Holds valid content taken sink) :
    Holds valid content taken sink.sync.2 := by
  unfold FileSink.sync
  split
  · exact holds
  · have still := holds.empty isFile
    split
    · rename_i next emptied
      rw [emptied] at still
      obtain ⟨kept, same⟩ := isFile.of_sync still.valid
      exact ⟨kept, (congrArg (· ++ next.pending) same).trans still.whole, still.counted⟩
    · rename_i emptied
      rw [emptied] at still
      exact still

theorem close (isFile : IsFile valid content) (holds : Holds valid content taken sink)
    (done : sink.close.1 = .ok ()) : Holds valid content taken sink.close.2 := by
  unfold FileSink.close at done ⊢
  split
  · exact holds
  · rename_i isOpen
    have still := holds.empty isFile
    rw [if_neg isOpen] at done
    split
    · rename_i emptied
      rw [emptied] at still
      exact ⟨still.valid, still.whole, still.counted⟩
    · rename_i emptied
      rw [emptied] at done
      cases done

/-- Whatever becomes of a close, the file has a front of what was accepted. A second attempt at
the buffer may have moved more of it. -/
theorem front_close (isFile : IsFile valid content) (holds : Holds valid content taken sink) :
    valid sink.close.2.file ∧ content sink.close.2.file <+: taken ∧
      sink.close.2.accepted = taken.length := by
  have emptied := holds.empty isFile
  unfold FileSink.close
  split
  · exact ⟨holds.valid, ⟨_, holds.whole⟩, holds.counted⟩
  · split
    all_goals
      rename_i done
      rw [done] at emptied
    · exact ⟨emptied.valid, ⟨_, emptied.whole⟩, emptied.counted⟩
    · have last := emptied.empty isFile
      exact ⟨last.valid, ⟨_, last.whole⟩, last.counted⟩

end Holds

/-! ### Files that do not fail -/

section Steady

theorem empty_steady (isFile : IsFile valid content) (steady : IsSteady valid)
    (start : valid sink.file) : sink.empty = (.ok (), sink.empty.2) :=
  Prod.ext (drainTo_steady isFile steady sink.pending start) rfl

theorem le_of_store (isFile : IsFile valid content) {next : FileSink φ} {count : Nat}
    (start : valid sink.file) (stored : sink.store bytes = (.ok count, next)) :
    count ≤ bytes.length := by
  unfold store at stored
  split at stored
  · split at stored
    · rename_i written
      cases stored
      exact (isFile.of_write_ok start written).2.1
    · cases stored
  · cases stored
    exact Nat.le_refl _

theorem le_of_write (isFile : IsFile valid content) {next : FileSink φ} {count : Nat}
    (start : valid sink.file) (written : sink.write bytes = (.ok count, next)) :
    count ≤ bytes.length := by
  unfold write at written
  split at written
  · cases written
  · split at written
    · cases written
      exact Nat.le_refl _
    · split at written
      · have kept := (drainTo_keeps isFile sink.pending start).1
        split at written
        · rename_i emptied
          have same := congrArg (fun outcome => FileSink.file outcome.2) emptied
          exact le_of_store isFile (same ▸ kept) written
        · cases written
      · exact le_of_store isFile start written

theorem store_steady (steady : IsSteady valid) (start : valid sink.file) (bytes : List UInt8) :
    (∃ count, (sink.store bytes).1 = .ok count ∧ (bytes ≠ [] → count ≠ 0)) ∨
      ∃ failure, (sink.store bytes).1 = .error failure ∧ failure.kind = .interrupted := by
  unfold store
  split
  · split
    · rename_i written
      exact .inl ⟨_, rfl, steady.of_write_ok start written⟩
    · rename_i written
      exact .inr ⟨_, rfl, steady.of_write_error start written⟩
  · exact .inl ⟨bytes.length, rfl, mt List.length_eq_zero_iff.mp⟩

theorem write_steady (isFile : IsFile valid content) (steady : IsSteady valid)
    (start : valid sink.file) (isOpen : sink.closed = false) (bytes : List UInt8) :
    (∃ count, (sink.write bytes).1 = .ok count ∧ (bytes ≠ [] → count ≠ 0)) ∨
      ∃ failure, (sink.write bytes).1 = .error failure ∧ failure.kind = .interrupted := by
  have kept := (drainTo_keeps isFile sink.pending start).1
  rw [write, isOpen, if_neg Bool.false_ne_true, empty_steady isFile steady start]
  split
  · exact .inl ⟨bytes.length, rfl, mt List.length_eq_zero_iff.mp⟩
  · split
    · exact store_steady steady kept bytes
    · exact store_steady steady start bytes

theorem isReliable_steady (isFile : IsFile valid content) (steady : IsSteady valid) :
    IsReliable (fun sink : FileSink φ => valid sink.file) fun sink => sink.closed = false where
  of_write_ok := by
    intro bytes sink next count start isOpen written
    have written : sink.write bytes = (.ok count, next) := written
    have still := closed_write sink bytes
    have answered := write_steady isFile steady start isOpen bytes
    rw [written] at still answered
    obtain ⟨_, same, some⟩ | ⟨_, failed, _⟩ := answered
    · cases same
      exact ⟨still.trans isOpen, some⟩
    · cases failed
  of_write_error := by
    intro bytes sink next failure start isOpen written
    have written : sink.write bytes = (.error failure, next) := written
    have still := closed_write sink bytes
    have answered := write_steady isFile steady start isOpen bytes
    rw [written] at still answered
    obtain ⟨_, accepted, _⟩ | ⟨_, same, interrupted⟩ := answered
    · cases accepted
    · cases same
      exact ⟨still.trans isOpen, interrupted⟩
  of_flush := by
    intro sink start isOpen
    refine ⟨?_, (closed_flush sink).trans isOpen⟩
    show sink.flush.1 = .ok ()
    rw [flush, isOpen, if_neg Bool.false_ne_true, empty_steady isFile steady start]
  of_sync := by
    intro sink start isOpen
    refine ⟨?_, (closed_sync sink).trans isOpen⟩
    have kept := (drainTo_keeps isFile sink.pending start).1
    show sink.sync.1 = .ok ()
    rw [sync, isOpen, if_neg Bool.false_ne_true, empty_steady isFile steady start]
    exact steady.of_sync kept
  of_close := by
    intro sink start isOpen
    show sink.close.1 = .ok ()
    rw [close, isOpen, if_neg Bool.false_ne_true, empty_steady isFile steady start]

theorem patience_of_store {next : FileSink φ} {result : Except Failure Nat}
    (stored : sink.store bytes = (result, next)) :
    BackingFile.patience next.file ≤ BackingFile.patience sink.file := by
  rw [store] at stored
  split at stored
  · split at stored
    all_goals
      rename_i written
      cases stored
      exact BackingFile.patience_of_write written
  · cases stored
    exact Nat.le_refl _

theorem patience_of_write {next : FileSink φ} {result : Except Failure Nat}
    (written : sink.write bytes = (result, next)) :
    BackingFile.patience next.file ≤ BackingFile.patience sink.file := by
  have spent := patience_empty sink
  rw [write] at written
  split at written
  · cases written
    exact Nat.le_refl _
  · split at written
    · cases written
      exact Nat.le_refl _
    · split at written
      · split at written
        · rename_i emptied
          rw [emptied] at spent
          exact Nat.le_trans (patience_of_store written) spent
        · rename_i emptied
          cases written
          rw [emptied] at spent
          exact spent
      · exact patience_of_store written

theorem isPatient (valid : FileSink φ → Prop) : IsPatient valid where
  of_write _ written := patience_of_write written
  of_flush := by
    intro sink _
    show BackingFile.patience sink.flush.2.file ≤ BackingFile.patience sink.file
    rw [flush]
    split
    · exact Nat.le_refl _
    · exact patience_empty sink

theorem close_steady (isFile : IsFile valid content) (steady : IsSteady valid)
    (start : valid sink.file) : sink.close.1 = .ok () := by
  cases closed : sink.closed with
  | true => rw [close, if_pos closed]
  | false => exact (isReliable_steady isFile steady).of_close start closed

end Steady

end Buffers

def bytes (sink : FileSink DiskFile) : List UInt8 := sink.file.content ++ sink.pending

/-- The handle is at the end of the file and every byte has been counted. -/
structure Sound (sink : FileSink DiskFile) : Prop where
  atEnd : sink.file.AtEnd
  counted : sink.accepted = sink.bytes.length

section Disk

variable {sink : FileSink DiskFile}

theorem Sound.holds (sound : sink.Sound) :
    Holds DiskFile.AtEnd DiskFile.content sink.bytes sink :=
  ⟨sound.atEnd, rfl, sound.counted⟩

theorem Holds.sound {taken : List UInt8}
    (holds : Holds DiskFile.AtEnd DiskFile.content taken sink) :
    sink.Sound ∧ sink.bytes = taken := by
  have same : sink.bytes = taken := holds.whole
  exact ⟨⟨holds.valid, same ▸ holds.counted⟩, same⟩

theorem empty_disk (sound : sink.Sound) :
    ∃ next : FileSink DiskFile, sink.empty = (.ok (), next) ∧ next.Sound ∧
      next.pending = [] ∧ next.bytes = sink.bytes := by
  have emptied := empty_steady DiskFile.isFile DiskFile.isSteady sound.atEnd
  obtain ⟨still, same⟩ := (sound.holds.empty DiskFile.isFile).sound
  exact ⟨_, emptied, still, flushed_of_empty emptied, same⟩

end Disk

theorem isAppending : IsAppending Sound bytes where
  of_write_ok := by
    intro more sink next count sound written
    have written : sink.write more = (.ok count, next) := written
    have wrote := sound.holds.write DiskFile.isFile more
    rw [written] at wrote
    obtain ⟨still, whole⟩ := wrote.sound
    exact ⟨still, le_of_write DiskFile.isFile sound.atEnd written, whole⟩
  of_write_error := by
    intro more sink next failure sound written
    have written : sink.write more = (.error failure, next) := written
    have wrote := sound.holds.write DiskFile.isFile more
    rw [written] at wrote
    obtain ⟨still, whole⟩ := wrote.sound
    exact ⟨still, [], List.nil_prefix, whole, fun _ => rfl⟩
  of_flush sound := (sound.holds.flush DiskFile.isFile).sound
  of_sync sound := (sound.holds.sync DiskFile.isFile).sound
  of_close sound :=
    (sound.holds.close DiskFile.isFile
      (close_steady DiskFile.isFile DiskFile.isSteady sound.atEnd)).sound
  bytesWritten_eq sound := sound.counted

theorem isReliable : IsReliable Sound fun sink : FileSink DiskFile => sink.closed = false :=
  (isReliable_steady DiskFile.isFile DiskFile.isSteady).of_valid Sound.atEnd

end FileSink

end LineageJournal

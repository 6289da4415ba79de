import LineageJournal.Proofs.Stream.Backing

/-! File sinks under observation. As long as no close has failed, the file and the buffer have
everything that the sink has accepted; a close that fails gives up what is left in the buffer. -/

namespace LineageJournal

namespace Traced

variable {σ : Type}

/-- The bytes that the sink has accepted so far. -/
def taken (traced : Traced σ) : List UInt8 := traced.calls.flatMap SinkCall.taken

def CloseFailed (traced : Traced σ) : Prop :=
  ∃ failure : Failure, SinkCall.close (.error failure) ∈ traced.calls

variable {traced : Traced σ} {sink : σ} {call : SinkCall}

theorem taken_call :
    taken { sink, calls := traced.calls ++ [call] } = traced.taken ++ call.taken := by
  rw [taken, List.flatMap_append, List.flatMap_singleton]
  rfl

theorem taken_quiet (nothing : call.taken = []) :
    taken { sink, calls := traced.calls ++ [call] } = traced.taken := by
  rw [taken_call, nothing, List.append_nil]

theorem closeFailed_call (other : ∀ failure, call ≠ .close (.error failure)) :
    CloseFailed { sink, calls := traced.calls ++ [call] } ↔ traced.CloseFailed := by
  refine exists_congr fun failure => ?_
  rw [List.mem_append, List.mem_singleton]
  exact or_iff_left (other failure).symm

end Traced

namespace FileSink

variable {φ : Type} {valid : φ → Prop} {content : φ → List UInt8} {capacity : Nat}

/-- What the file and the buffer hold of the accepted bytes: a front of them, and all as long as
no close has failed. A closed sink has nothing in its buffer. -/
structure Filed (valid : φ → Prop) (content : φ → List UInt8) (capacity : Nat)
    (traced : Traced (FileSink φ)) : Prop where
  valid : valid traced.sink.file
  counted : traced.sink.accepted = traced.taken.length
  front : content traced.sink.file ++ traced.sink.pending <+: traced.taken
  whole : ¬ traced.CloseFailed → content traced.sink.file ++ traced.sink.pending = traced.taken
  fits : Fits capacity traced.sink
  flushed : traced.sink.closed = true → traced.sink.pending = []
  inTime : traced.sink.closed = false → ¬ traced.CloseFailed

namespace Filed

variable {traced : Traced (FileSink φ)} {call : SinkCall}

theorem fresh {file : φ} (start : valid file) (empty : content file = []) (capacity : Nat) :
    Filed valid content capacity { sink := { file, capacity } } where
  valid := start
  counted := rfl
  front := by rw [empty]; exact List.prefix_rfl
  whole _ := by rw [empty]; rfl
  fits := ⟨rfl, Nat.zero_le capacity⟩
  flushed closed := absurd closed Bool.false_ne_true
  inTime _ failed := by
    obtain ⟨failure, member⟩ := failed
    cases member

theorem holds (filed : Filed valid content capacity traced) (isOpen : traced.sink.closed = false) :
    Holds valid content traced.taken traced.sink :=
  ⟨filed.valid, filed.whole (filed.inTime isOpen), filed.counted⟩

theorem of_open {next : FileSink φ} (filed : Filed valid content capacity traced)
    (isOpen : traced.sink.closed = false)
    (holds : Holds valid content (traced.taken ++ call.taken) next) (fits : Fits capacity next)
    (same : next.closed = traced.sink.closed)
    (other : ∀ failure, call ≠ .close (.error failure)) :
    Filed valid content capacity { sink := next, calls := traced.calls ++ [call] } := by
  have taken : Traced.taken { sink := next, calls := traced.calls ++ [call] } =
      traced.taken ++ call.taken := Traced.taken_call
  have inTime : ¬ Traced.CloseFailed { sink := next, calls := traced.calls ++ [call] } :=
    mt (Traced.closeFailed_call other).mp (filed.inTime isOpen)
  have stillOpen : next.closed = false := same.trans isOpen
  rw [← taken] at holds
  exact ⟨holds.valid, holds.counted, ⟨[], (List.append_nil _).trans holds.whole⟩,
    fun _ => holds.whole, fits, fun closed => absurd (stillOpen.symm.trans closed)
      Bool.false_ne_true, fun _ => inTime⟩

theorem of_closed (filed : Filed valid content capacity traced)
    (isClosed : traced.sink.closed = true) (nothing : call.taken = [])
    (other : ∀ failure, call ≠ .close (.error failure)) :
    Filed valid content capacity { sink := traced.sink, calls := traced.calls ++ [call] } := by
  have taken : Traced.taken { sink := traced.sink, calls := traced.calls ++ [call] } =
      traced.taken := Traced.taken_quiet nothing
  have failed : Traced.CloseFailed { sink := traced.sink, calls := traced.calls ++ [call] } ↔
      traced.CloseFailed := Traced.closeFailed_call other
  refine ⟨filed.valid, ?_, ?_, fun inTime => ?_, filed.fits, filed.flushed, fun isOpen => ?_⟩
  · rw [taken]
    exact filed.counted
  · rw [taken]
    exact filed.front
  · rw [taken]
    exact filed.whole (mt failed.mpr inTime)
  · rw [isClosed] at isOpen
    cases isOpen

variable [BackingFile φ]

theorem write (isFile : IsFile valid content) (filed : Filed valid content capacity traced)
    (bytes : List UInt8) : Filed valid content capacity (ByteSink.write bytes traced).2 := by
  show Filed valid content capacity
    { sink := (traced.sink.write bytes).2
      calls := traced.calls ++ [.write bytes (traced.sink.write bytes).1] }
  cases closed : traced.sink.closed with
  | true =>
      rw [FileSink.write, if_pos closed]
      exact filed.of_closed closed rfl (by simp)
  | false =>
      exact filed.of_open closed ((filed.holds closed).write isFile bytes) filed.fits.write
        (closed_write traced.sink bytes) (by simp)

theorem flush (isFile : IsFile valid content) (filed : Filed valid content capacity traced) :
    Filed valid content capacity (ByteSink.flush traced).2 := by
  show Filed valid content capacity
    { sink := traced.sink.flush.2, calls := traced.calls ++ [.flush traced.sink.flush.1] }
  cases closed : traced.sink.closed with
  | true =>
      rw [FileSink.flush, if_pos closed]
      exact filed.of_closed closed rfl (by simp)
  | false =>
      have holds := (filed.holds closed).flush isFile
      rw [← List.append_nil traced.taken] at holds
      exact filed.of_open closed holds filed.fits.flush (closed_flush traced.sink) (by simp)

theorem sync (isFile : IsFile valid content) (filed : Filed valid content capacity traced) :
    Filed valid content capacity (ByteSink.sync traced).2 := by
  show Filed valid content capacity
    { sink := traced.sink.sync.2, calls := traced.calls ++ [.sync traced.sink.sync.1] }
  cases closed : traced.sink.closed with
  | true =>
      rw [FileSink.sync, if_pos closed]
      exact filed.of_closed closed rfl (by simp)
  | false =>
      have holds := (filed.holds closed).sync isFile
      rw [← List.append_nil traced.taken] at holds
      exact filed.of_open closed holds filed.fits.sync (closed_sync traced.sink) (by simp)

theorem close (isFile : IsFile valid content) (filed : Filed valid content capacity traced) :
    Filed valid content capacity (ByteSink.close traced).2 := by
  show Filed valid content capacity
    { sink := traced.sink.close.2, calls := traced.calls ++ [.close traced.sink.close.1] }
  cases closed : traced.sink.closed with
  | true =>
      rw [FileSink.close, if_pos closed]
      exact filed.of_closed closed rfl (by simp)
  | false =>
      have holds := filed.holds closed
      have noneLeft := flushed_close closed
      have nowClosed := closed_close traced.sink
      obtain ⟨kept, front, counted⟩ := holds.front_close isFile
      have taken : Traced.taken { sink := traced.sink.close.2
                                  calls := traced.calls ++ [.close traced.sink.close.1] } =
          traced.taken := Traced.taken_quiet rfl
      refine ⟨kept, ?_, ?_, fun inTime => ?_, filed.fits.close, fun _ => noneLeft,
        fun isOpen => absurd (isOpen.symm.trans nowClosed) Bool.false_ne_true⟩
      · rw [taken]
        exact counted
      · rw [taken, noneLeft, List.append_nil]
        exact front
      · rw [taken]
        cases answered : traced.sink.close.1 with
        | ok _ => exact (holds.close isFile answered).whole
        | error failure =>
            rw [answered] at inTime
            exact absurd ⟨failure, List.mem_append_right _ (List.mem_singleton.mpr rfl)⟩ inTime

end Filed

variable [BackingFile φ]

theorem isAppending_traced (isFile : IsFile valid content) :
    IsAppending (Filed valid content capacity) Traced.taken where
  of_write_ok := by
    intro bytes traced next count filed written
    have kept := filed.write isFile bytes
    obtain ⟨accepted, rfl⟩ := Prod.mk.inj written
    refine ⟨kept, le_of_write isFile filed.valid (Prod.ext accepted rfl), ?_⟩
    rw [Traced.taken_call, accepted]
    rfl
  of_write_error := by
    intro bytes traced next failure filed written
    have kept := filed.write isFile bytes
    obtain ⟨failed, rfl⟩ := Prod.mk.inj written
    refine ⟨kept, [], List.nil_prefix, ?_, fun _ => rfl⟩
    rw [Traced.taken_call, failed]
    rfl
  of_flush filed := ⟨filed.flush isFile, Traced.taken_quiet rfl⟩
  of_sync filed := ⟨filed.sync isFile, Traced.taken_quiet rfl⟩
  of_close filed := ⟨filed.close isFile, Traced.taken_quiet rfl⟩
  bytesWritten_eq filed := filed.counted

theorem isReliable_traced (isFile : IsFile valid content) (steady : IsSteady valid) :
    IsReliable (Filed valid content capacity) fun traced => traced.sink.closed = false where
  of_write_ok filed isOpen written :=
    (isReliable_steady isFile steady).of_write_ok filed.valid isOpen
      (congrArg Traced.forget written)
  of_write_error filed isOpen written :=
    (isReliable_steady isFile steady).of_write_error filed.valid isOpen
      (congrArg Traced.forget written)
  of_flush filed isOpen := (isReliable_steady isFile steady).of_flush filed.valid isOpen
  of_sync filed isOpen := (isReliable_steady isFile steady).of_sync filed.valid isOpen
  of_close filed isOpen := (isReliable_steady isFile steady).of_close filed.valid isOpen

end FileSink

end LineageJournal

import LineageJournal.Proofs.Stream.Appending

/-! Sinks that do not fail. An accepting sink may take a write in pieces and may be interrupted,
but it takes everything in the end, and it accepts until it is closed. -/

namespace LineageJournal

variable {σ : Type} [ByteSink σ] {valid accepting : σ → Prop} {content : σ → List UInt8}

/-- In its valid and accepting states the sink does what it is asked for. -/
structure IsReliable (valid accepting : σ → Prop) : Prop where
  of_write_ok : ∀ {bytes : List UInt8} {sink next : σ} {taken : Nat}, valid sink →
    accepting sink → ByteSink.write bytes sink = (.ok taken, next) →
      accepting next ∧ (bytes ≠ [] → taken ≠ 0)
  of_write_error : ∀ {bytes : List UInt8} {sink next : σ} {failure : Failure}, valid sink →
    accepting sink → ByteSink.write bytes sink = (.error failure, next) →
      accepting next ∧ failure.kind = .interrupted
  of_flush : ∀ {sink : σ}, valid sink → accepting sink →
    (ByteSink.flush sink).1 = .ok () ∧ accepting (ByteSink.flush sink).2
  of_sync : ∀ {sink : σ}, valid sink → accepting sink →
    (ByteSink.sync sink).1 = .ok () ∧ accepting (ByteSink.sync sink).2
  of_close : ∀ {sink : σ}, valid sink → accepting sink → (ByteSink.close sink).1 = .ok ()

/-- In its valid states the sink never expects more interruptions than before. -/
structure IsPatient (valid : σ → Prop) : Prop where
  of_write : ∀ {bytes : List UInt8} {sink next : σ} {result : Except Failure Nat}, valid sink →
    ByteSink.write bytes sink = (result, next) → ByteSink.patience next ≤ ByteSink.patience sink
  of_flush : ∀ {sink : σ}, valid sink →
    ByteSink.patience (ByteSink.flush sink).2 ≤ ByteSink.patience sink

theorem IsReliable.of_valid {fewer : σ → Prop} (reliable : IsReliable valid accepting)
    (isValid : ∀ {sink : σ}, fewer sink → valid sink) : IsReliable fewer accepting where
  of_write_ok start := reliable.of_write_ok (isValid start)
  of_write_error start := reliable.of_write_error (isValid start)
  of_flush start := reliable.of_flush (isValid start)
  of_sync start := reliable.of_sync (isValid start)
  of_close start := reliable.of_close (isValid start)

structure TookAll (valid accepting : σ → Prop) (content : σ → List UInt8) (bytes : List UInt8)
    (before after : σ) : Prop where
  valid : valid after
  accepts : accepting after
  more : content after = content before ++ bytes

theorem IsReliable.writeAll_eq (reliable : IsReliable valid accepting)
    (appending : IsAppending valid content) (bytes : List UInt8) {sink : σ} (start : valid sink)
    (accepts : accepting sink) :
    ∃ next, writeAll bytes sink = (.ok (), next) ∧
      TookAll valid accepting content bytes sink next := by
  have done : (writeAll bytes sink).1 = .ok () ∧ accepting (writeAll bytes sink).2 := by
    fun_induction writeAll bytes sink with
    | case1 sink => exact ⟨rfl, accepts⟩
    | case2 sink first rest next written =>
        obtain ⟨_, something⟩ := reliable.of_write_ok start accepts written
        exact absurd rfl (something (List.cons_ne_nil first rest))
    | case3 sink first rest accepted next written ih =>
        exact ih (appending.of_write_ok start written).1
          (reliable.of_write_ok start accepts written).1
    | case4 sink first rest failure next written interrupted ih =>
        exact ih (appending.of_write_error start written).1
          (reliable.of_write_error start accepts written).1
    | case5 sink first rest failure next written other =>
        exact absurd (reliable.of_write_error start accepts written).2 other
  obtain ⟨kept, part, _, more, all⟩ := appending.took_writeAll bytes start
  exact ⟨_, Prod.ext done.1 rfl, kept, done.2, all done.1 ▸ more⟩

theorem MemorySink.isReliable :
    IsReliable (fun _ : MemorySink => True) (fun _ => True) where
  of_write_ok := by
    intro bytes sink next taken _ _ written
    simp only [ByteSink.write, Prod.mk.injEq, Except.ok.injEq] at written
    exact ⟨trivial, fun some none => some (List.length_eq_zero_iff.mp (written.1.trans none))⟩
  of_write_error := by
    intro bytes sink next failure _ _ written
    simp [ByteSink.write] at written
  of_flush _ _ := ⟨rfl, trivial⟩
  of_sync _ _ := ⟨rfl, trivial⟩
  of_close _ _ := rfl

namespace LimitedSink

structure Steady (sink : LimitedSink) : Prop where
  chunk : sink.chunk ≠ some 0
  capacity : sink.capacity = none
  flushes : sink.failingFlushes = 0
  syncs : sink.failingSyncs = 0
  closes : sink.failingCloses = 0

variable {sink : LimitedSink}

theorem Steady.write (steady : sink.Steady) (bytes : List UInt8) :
    ∃ taken, sink.write bytes =
        (.ok taken, { sink with log := sink.log.append (bytes.take taken) }) ∧
      (bytes ≠ [] → taken ≠ 0) := by
  have room : sink.room bytes.length = bytes.length := by rw [LimitedSink.room, steady.capacity]
  have fits : ¬ (0 < bytes.length ∧ bytes.length = 0) := by omega
  refine ⟨_, by rw [LimitedSink.write, room, if_neg fits], ?_⟩
  intro nonempty
  have positive := List.length_pos_iff.mpr nonempty
  cases chunk : sink.chunk with
  | none =>
      rw [Option.getD_none]
      omega
  | some size =>
      have some : size ≠ 0 := fun zero => steady.chunk (chunk.trans (congrArg Option.some zero))
      rw [Option.getD_some]
      omega

theorem isReliable : IsReliable (fun _ => True) Steady where
  of_write_ok := by
    intro bytes sink next taken _ steady written
    have written : sink.write bytes = (.ok taken, next) := written
    obtain ⟨size, wrote, something⟩ := steady.write bytes
    rw [wrote] at written
    cases written
    exact ⟨⟨steady.chunk, steady.capacity, steady.flushes, steady.syncs, steady.closes⟩, something⟩
  of_write_error := by
    intro bytes sink next failure _ steady written
    have written : sink.write bytes = (.error failure, next) := written
    obtain ⟨size, wrote, _⟩ := steady.write bytes
    rw [wrote] at written
    cases written
  of_flush := by
    intro sink _ steady
    have done : sink.flush = (.ok (), sink) := by rw [LimitedSink.flush, steady.flushes]
    show sink.flush.1 = .ok () ∧ sink.flush.2.Steady
    rw [done]
    exact ⟨rfl, steady⟩
  of_sync := by
    intro sink _ steady
    have done : sink.sync = (.ok (), sink) := by rw [LimitedSink.sync, steady.syncs]
    show sink.sync.1 = .ok () ∧ sink.sync.2.Steady
    rw [done]
    exact ⟨rfl, steady⟩
  of_close := by
    intro sink _ steady
    show sink.close.1 = .ok ()
    rw [LimitedSink.close, steady.closes]

end LimitedSink

end LineageJournal

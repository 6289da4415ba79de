import LineageJournal.Stream.Sink

/-! Sinks that only append. A write may take less than it is offered and may fail, also after
it has taken something, and every other operation may fail; but nothing that has been taken
changes, and all of it is counted. -/

namespace LineageJournal

variable {σ : Type} {valid : σ → Prop} {content : σ → List UInt8}

/-- The sink has taken a front of the bytes more than before, and all of them on success. -/
def Took (valid : σ → Prop) (content : σ → List UInt8) (bytes : List UInt8) (sink : σ)
    (outcome : Except Failure Unit × σ) : Prop :=
  valid outcome.2 ∧ ∃ part, part <+: bytes ∧ content outcome.2 = content sink ++ part ∧
    (outcome.1 = .ok () → part = bytes)

theorem Took.after {bytes first rest : List UInt8} {sink middle : σ}
    {outcome : Except Failure Unit × σ} (whole : bytes = first ++ rest)
    (taken : content middle = content sink ++ first)
    (took : Took valid content rest middle outcome) :
    Took valid content bytes sink outcome := by
  obtain ⟨ok, part, front, more, all⟩ := took
  refine ⟨ok, first ++ part, ?_, ?_, ?_⟩
  · rw [whole]
    exact (List.prefix_append_right_inj first).mpr front
  · rw [more, taken, List.append_assoc]
  · intro done
    rw [whole, all done]

variable [ByteSink σ]

/-- In the valid states of the sink `content` is what it has taken so far. A write that was
interrupted is made again with the same bytes, so it must have taken none of them. -/
structure IsAppending (valid : σ → Prop) (content : σ → List UInt8) : Prop where
  of_write_ok : ∀ {bytes : List UInt8} {sink next : σ} {taken : Nat}, valid sink →
    ByteSink.write bytes sink = (.ok taken, next) →
      valid next ∧ taken ≤ bytes.length ∧ content next = content sink ++ bytes.take taken
  of_write_error : ∀ {bytes : List UInt8} {sink next : σ} {failure : Failure}, valid sink →
    ByteSink.write bytes sink = (.error failure, next) →
      valid next ∧ ∃ part, part <+: bytes ∧ content next = content sink ++ part ∧
        (failure.kind = .interrupted → part = [])
  of_flush : ∀ {sink : σ}, valid sink →
    valid (ByteSink.flush sink).2 ∧ content (ByteSink.flush sink).2 = content sink
  of_sync : ∀ {sink : σ}, valid sink →
    valid (ByteSink.sync sink).2 ∧ content (ByteSink.sync sink).2 = content sink
  of_close : ∀ {sink : σ}, valid sink →
    valid (ByteSink.close sink).2 ∧ content (ByteSink.close sink).2 = content sink
  bytesWritten_eq : ∀ {sink : σ}, valid sink →
    ByteSink.bytesWritten sink = (content sink).length

theorem writeAll_of_write {bytes : List UInt8} {sink next : σ}
    (wrote : ByteSink.write bytes sink = (.ok bytes.length, next))
    (unchanged : bytes = [] → next = sink) : writeAll bytes sink = (.ok (), next) := by
  cases bytes with
  | nil => rw [writeAll, unchanged rfl]
  | cons first rest =>
      rw [writeAll.eq_def]
      simp only
      split
      · rename_i stuck
        rw [wrote] at stuck
        cases stuck
      · rename_i taken after
        rw [wrote] at after
        cases after
        rw [List.drop_length, writeAll]
      · rename_i failed
        rw [wrote] at failed
        cases failed

namespace IsAppending

theorem took_writeAll (appending : IsAppending valid content) (bytes : List UInt8) {sink : σ}
    (start : valid sink) : Took valid content bytes sink (writeAll bytes sink) := by
  fun_induction writeAll bytes sink with
  | case1 sink => exact ⟨start, [], List.prefix_rfl, (List.append_nil _).symm, fun _ => rfl⟩
  | case2 sink first rest next written =>
      obtain ⟨kept, _, same⟩ := appending.of_write_ok start written
      refine ⟨kept, [], List.nil_prefix, same, ?_⟩
      intro done
      cases done
  | case3 sink first rest accepted next written ih =>
      obtain ⟨kept, _, more⟩ := appending.of_write_ok start written
      exact (ih kept).after (List.take_append_drop (accepted + 1) (first :: rest)).symm more
  | case4 sink first rest failure next written interrupted ih =>
      obtain ⟨kept, part, _, same, none⟩ := appending.of_write_error start written
      rw [none interrupted] at same
      exact (ih kept).after rfl same
  | case5 sink first rest failure next written other =>
      obtain ⟨kept, part, front, more, _⟩ := appending.of_write_error start written
      refine ⟨kept, part, front, more, ?_⟩
      intro done
      cases done

end IsAppending

theorem MemorySink.writeAll_eq (bytes : List UInt8) (sink : MemorySink) :
    writeAll bytes sink = (.ok (), { log := sink.log.append bytes }) := by
  apply writeAll_of_write
  · rfl
  · intro empty
    rw [empty, ByteLog.append_nil]

theorem MemorySink.isAppending : IsAppending (fun _ => True) MemorySink.bytes where
  of_write_ok := by
    intro bytes sink next taken _ written
    simp only [ByteSink.write, Prod.mk.injEq, Except.ok.injEq] at written
    obtain ⟨rfl, rfl⟩ := written
    refine ⟨trivial, Nat.le_refl _, ?_⟩
    rw [List.take_length]
    exact ByteLog.toList_append _ _
  of_write_error := by
    intro bytes sink next failure _ written
    simp [ByteSink.write] at written
  of_flush _ := ⟨trivial, rfl⟩
  of_sync _ := ⟨trivial, rfl⟩
  of_close _ := ⟨trivial, rfl⟩
  bytesWritten_eq _ := (ByteLog.length_toList _).symm

namespace LimitedSink

theorem bytes_flush (sink : LimitedSink) : sink.flush.2.bytes = sink.bytes := by
  unfold flush
  split <;> rfl

theorem bytes_sync (sink : LimitedSink) : sink.sync.2.bytes = sink.bytes := by
  unfold sync
  split <;> rfl

theorem bytes_close (sink : LimitedSink) : sink.close.2.bytes = sink.bytes := by
  unfold close
  split <;> rfl

theorem isAppending : IsAppending (fun _ => True) LimitedSink.bytes where
  of_write_ok := by
    intro bytes sink next taken _ written
    have written : sink.write bytes = (.ok taken, next) := written
    unfold write at written
    split at written
    · simp at written
    · simp only [Prod.mk.injEq, Except.ok.injEq] at written
      obtain ⟨rfl, rfl⟩ := written
      exact ⟨trivial, Nat.min_le_left _ _, ByteLog.toList_append _ _⟩
  of_write_error := by
    intro bytes sink next failure _ written
    have written : sink.write bytes = (.error failure, next) := written
    unfold write at written
    split at written
    · simp only [Prod.mk.injEq, Except.error.injEq] at written
      obtain ⟨rfl, rfl⟩ := written
      exact ⟨trivial, [], List.nil_prefix, (List.append_nil _).symm, fun _ => rfl⟩
    · simp at written
  of_flush {sink} _ := ⟨trivial, bytes_flush sink⟩
  of_sync {sink} _ := ⟨trivial, bytes_sync sink⟩
  of_close {sink} _ := ⟨trivial, bytes_close sink⟩
  bytesWritten_eq _ := (ByteLog.length_toList _).symm

theorem writeAll_eq (bytes : List UInt8) {sink : LimitedSink} (anySize : sink.chunk = none)
    (roomy : sink.capacity = none) :
    writeAll bytes sink = (.ok (), { sink with log := sink.log.append bytes }) := by
  apply writeAll_of_write
  · show sink.write bytes = _
    have room : sink.room bytes.length = bytes.length := by rw [LimitedSink.room, roomy]
    have fits : ¬ (0 < bytes.length ∧ bytes.length = 0) := by omega
    simp only [LimitedSink.write, room, if_neg fits, anySize, Option.getD_none, Nat.min_self,
      List.take_length]
  · intro empty
    rw [empty, ByteLog.append_nil]

end LimitedSink

end LineageJournal

import LineageJournal.Stream.Sink

/-! File sinks: a write buffer in front of a file. The buffer holds the end of the accepted
bytes that the file does not have yet, and closing empties it. -/

namespace LineageJournal

class BackingFile (φ : Type) where
  write : List UInt8 → φ → Except Failure Nat × φ
  sync : φ → Except Failure Unit × φ
  patience : φ → Nat
  patience_of_write : ∀ {bytes : List UInt8} {file next : φ} {result : Except Failure Nat},
    write bytes file = (result, next) → patience next ≤ patience file
  patience_of_interrupted : ∀ {bytes : List UInt8} {file next : φ} {failure : Failure},
    write bytes file = (.error failure, next) → failure.kind = .interrupted →
      patience next < patience file

/-- A file that never fails, with the position of one open handle. -/
structure DiskFile where
  log : ByteLog := ∅
  position : Nat := 0
  deriving DecidableEq, Repr

namespace DiskFile

def content (file : DiskFile) : List UInt8 := file.log.toList

/-- Puts the bytes at the position; a gap before it reads as zeros. -/
def overwrite (content : List UInt8) (position : Nat) (bytes : List UInt8) : List UInt8 :=
  content.take position ++ List.replicate (position - content.length) 0 ++ bytes ++
    content.drop (position + bytes.length)

def write (bytes : List UInt8) (file : DiskFile) : Except Failure Nat × DiskFile :=
  (.ok bytes.length,
    { log :=
        if file.position = file.log.size then file.log.append bytes
        else .ofList (overwrite file.content file.position bytes)
      position := file.position + bytes.length })

theorem overwrite_at_end (content bytes : List UInt8) :
    overwrite content content.length bytes = content ++ bytes := by
  simp only [overwrite, List.take_length, Nat.sub_self, List.replicate_zero, List.append_nil,
    List.drop_eq_nil_of_le (Nat.le_add_right _ _)]

theorem content_write (bytes : List UInt8) (file : DiskFile) :
    (write bytes file).2.content = overwrite file.content file.position bytes := by
  simp only [write, content]
  split
  · rename_i atEnd
    rw [atEnd, ← ByteLog.length_toList, overwrite_at_end, ByteLog.toList_append]
  · exact ByteLog.toList_ofList _

instance : BackingFile DiskFile where
  write := write
  sync file := (.ok (), file)
  patience _ := 0
  patience_of_write _ := Nat.le_refl 0
  patience_of_interrupted written := by simp [write] at written

end DiskFile

structure FileSink (φ : Type) where
  file : φ
  capacity : Nat
  pending : List UInt8 := []
  accepted : Nat := 0
  closed : Bool := false
  deriving DecidableEq, Repr

namespace FileSink

variable {φ : Type} [BackingFile φ]

def isClosed : Failure := ⟨.other, "sink is closed"⟩

def bufferStuck : Failure := ⟨.writeZero, "failed to write the buffered data"⟩

/-- Writes the pending bytes to the file; what it did not take is given back. -/
def drainTo (pending : List UInt8) (file : φ) : Except Failure Unit × List UInt8 × φ :=
  match pending with
  | [] => (.ok (), [], file)
  | first :: rest =>
    match _ : BackingFile.write (first :: rest) file with
    | (.ok 0, next) => (.error bufferStuck, first :: rest, next)
    | (.ok (taken + 1), next) => drainTo (rest.drop taken) next
    | (.error failure, next) =>
      if failure.kind = .interrupted then drainTo (first :: rest) next
      else (.error failure, first :: rest, next)
termination_by (pending.length, BackingFile.patience file)
decreasing_by
  · apply Prod.Lex.left
    simp only [List.length_drop, List.length_cons]
    omega
  · rename_i interrupted
    exact Prod.Lex.right _ (BackingFile.patience_of_interrupted (by assumption) interrupted)

theorem patience_drainTo (pending : List UInt8) (file : φ) :
    BackingFile.patience (drainTo pending file).2.2 ≤ BackingFile.patience file := by
  fun_induction drainTo pending file with
  | case1 => exact Nat.le_refl _
  | case2 file first rest next written => exact BackingFile.patience_of_write written
  | case3 file first rest taken next written ih =>
      exact Nat.le_trans ih (BackingFile.patience_of_write written)
  | case4 file first rest failure next written interrupted ih =>
      exact Nat.le_trans ih (BackingFile.patience_of_write written)
  | case5 file first rest failure next written interrupted =>
      exact BackingFile.patience_of_write written

def empty (sink : FileSink φ) : Except Failure Unit × FileSink φ :=
  match drainTo sink.pending sink.file with
  | (result, pending, file) => (result, { sink with pending, file })

def keep (bytes : List UInt8) (sink : FileSink φ) : Except Failure Nat × FileSink φ :=
  (.ok bytes.length,
    { sink with
      pending := sink.pending ++ bytes
      accepted := sink.accepted + bytes.length })

/-- Bytes that fill a whole buffer go straight to the file. -/
def store (bytes : List UInt8) (sink : FileSink φ) : Except Failure Nat × FileSink φ :=
  if sink.capacity ≤ bytes.length then
    match BackingFile.write bytes sink.file with
    | (.ok taken, file) => (.ok taken, { sink with file, accepted := sink.accepted + taken })
    | (.error failure, file) => (.error failure, { sink with file })
  else keep bytes sink

/-- The buffer is emptied first when the bytes do not fit beside what is pending. -/
def write (bytes : List UInt8) (sink : FileSink φ) : Except Failure Nat × FileSink φ :=
  if sink.closed then (.error isClosed, sink)
  else if bytes.length < sink.capacity - sink.pending.length then keep bytes sink
  else if sink.capacity - sink.pending.length < bytes.length then
    match sink.empty with
    | (.ok (), sink) => store bytes sink
    | (.error failure, sink) => (.error failure, sink)
  else store bytes sink

def flush (sink : FileSink φ) : Except Failure Unit × FileSink φ :=
  if sink.closed then (.error isClosed, sink) else sink.empty

def sync (sink : FileSink φ) : Except Failure Unit × FileSink φ :=
  if sink.closed then (.error isClosed, sink)
  else
    match sink.empty with
    | (.ok (), sink) =>
      match BackingFile.sync sink.file with
      | (result, file) => (result, { sink with file })
    | (.error failure, sink) => (.error failure, sink)

/-- Empties the buffer and lets the file go. When that fails the buffer is tried once more
and then given up; the sink counts as closed either way. -/
def close (sink : FileSink φ) : Except Failure Unit × FileSink φ :=
  if sink.closed then (.ok (), sink)
  else
    match sink.empty with
    | (.ok (), sink) => (.ok (), { sink with closed := true })
    | (.error failure, sink) =>
      let last := sink.empty.2
      (.error failure, { last with pending := [], closed := true })

theorem drainTo_not_interrupted (pending : List UInt8) (file : φ) {failure : Failure}
    (failed : (drainTo pending file).1 = .error failure) : failure.kind ≠ .interrupted := by
  fun_induction drainTo pending file with
  | case1 => simp at failed
  | case2 =>
      cases failed
      decide
  | case3 _ _ _ _ _ _ ih => exact ih failed
  | case4 _ _ _ _ _ _ _ ih => exact ih failed
  | case5 _ _ _ _ _ _ other =>
      cases failed
      exact other

theorem patience_empty (sink : FileSink φ) :
    BackingFile.patience sink.empty.2.file ≤ BackingFile.patience sink.file :=
  patience_drainTo sink.pending sink.file

theorem patience_of_store_interrupted {bytes : List UInt8} {sink next : FileSink φ}
    {failure : Failure} (stored : sink.store bytes = (.error failure, next))
    (interrupted : failure.kind = .interrupted) :
    BackingFile.patience next.file < BackingFile.patience sink.file := by
  unfold store at stored
  split at stored
  · split at stored
    · simp at stored
    · rename_i written
      simp only [Prod.mk.injEq, Except.error.injEq] at stored
      obtain ⟨rfl, rfl⟩ := stored
      exact BackingFile.patience_of_interrupted written interrupted
  · simp [keep] at stored

theorem patience_of_write_interrupted {bytes : List UInt8} {sink next : FileSink φ}
    {failure : Failure} (written : sink.write bytes = (.error failure, next))
    (interrupted : failure.kind = .interrupted) :
    BackingFile.patience next.file < BackingFile.patience sink.file := by
  unfold write at written
  split at written
  · simp only [Prod.mk.injEq, Except.error.injEq] at written
    rw [← written.1] at interrupted
    simp [isClosed] at interrupted
  · split at written
    · simp [keep] at written
    · split at written
      · split at written
        · rename_i emptied
          have spent := patience_empty sink
          rw [emptied] at spent
          exact Nat.lt_of_lt_of_le (patience_of_store_interrupted written interrupted) spent
        · rename_i problem _ emptied
          simp only [Prod.mk.injEq, Except.error.injEq] at written
          have failed : (drainTo sink.pending sink.file).1 = .error failure := by
            have first := congrArg Prod.fst emptied
            rw [written.1] at first
            exact first
          exact absurd interrupted (drainTo_not_interrupted _ _ failed)
      · exact patience_of_store_interrupted written interrupted

instance : ByteSink (FileSink φ) where
  write bytes sink := sink.write bytes
  flush sink := sink.flush
  sync sink := sink.sync
  close sink := sink.close
  bytesWritten sink := sink.accepted
  patience sink := BackingFile.patience sink.file
  patience_of_interrupted := patience_of_write_interrupted

end FileSink

namespace FileSink

def create (capacity : Nat) : FileSink DiskFile := { file := {}, capacity }

def refresh (sink : FileSink DiskFile) (content : List UInt8) : FileSink DiskFile :=
  { sink with file := { sink.file with log := .ofList content } }

end FileSink

end LineageJournal

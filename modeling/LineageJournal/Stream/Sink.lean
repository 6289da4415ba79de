import LineageJournal.Failure
import LineageJournal.Stream.ByteLog

/-! Byte sinks: devices that bytes are appended to. One write may accept only the front of
what it is offered. Sinks count every byte they accept, buffered or not. -/

namespace LineageJournal

/-- `patience` bounds the interruptions that are still to come. -/
class ByteSink (σ : Type) where
  write : List UInt8 → σ → Except Failure Nat × σ
  flush : σ → Except Failure Unit × σ
  /-- Flushes and forces the data to stable storage. -/
  sync : σ → Except Failure Unit × σ
  /-- Flushes and releases the device. -/
  close : σ → Except Failure Unit × σ
  bytesWritten : σ → Nat
  patience : σ → Nat
  patience_of_interrupted : ∀ {bytes : List UInt8} {sink next : σ} {failure : Failure},
    write bytes sink = (.error failure, next) → failure.kind = .interrupted →
      patience next < patience sink

def nothingAccepted : Failure := ⟨.writeZero, "failed to write whole buffer"⟩

def writeAll {σ : Type} [ByteSink σ] (bytes : List UInt8) (sink : σ) :
    Except Failure Unit × σ :=
  match bytes with
  | [] => (.ok (), sink)
  | first :: rest =>
    match _ : ByteSink.write (first :: rest) sink with
    | (.ok 0, next) => (.error nothingAccepted, next)
    | (.ok (accepted + 1), next) => writeAll (rest.drop accepted) next
    | (.error failure, next) =>
      if failure.kind = .interrupted then writeAll (first :: rest) next
      else (.error failure, next)
termination_by (bytes.length, ByteSink.patience sink)
decreasing_by
  · apply Prod.Lex.left
    simp only [List.length_drop, List.length_cons]
    omega
  · rename_i interrupted
    exact Prod.Lex.right _ (ByteSink.patience_of_interrupted (by assumption) interrupted)

structure MemorySink where
  log : ByteLog := ∅
  deriving DecidableEq, Repr

def MemorySink.bytes (sink : MemorySink) : List UInt8 := sink.log.toList

instance : ByteSink MemorySink where
  write bytes sink := (.ok bytes.length, { log := sink.log.append bytes })
  flush sink := (.ok (), sink)
  sync sink := (.ok (), sink)
  close sink := (.ok (), sink)
  bytesWritten sink := sink.log.size
  patience _ := 0
  patience_of_interrupted written := by simp at written

/-- A memory sink with limits: `chunk` bounds one write, `capacity` the whole, and the first
calls of the other operations fail as often as stated. -/
structure LimitedSink where
  log : ByteLog := ∅
  chunk : Option Nat := none
  capacity : Option Nat := none
  failingFlushes : Nat := 0
  failingSyncs : Nat := 0
  failingCloses : Nat := 0
  deriving DecidableEq, Repr

namespace LimitedSink

def bytes (sink : LimitedSink) : List UInt8 := sink.log.toList

def full : Failure := ⟨.storageFull, "injected write failure"⟩

def injected (operation : String) : Failure := ⟨.other, s!"injected {operation} failure"⟩

def room (sink : LimitedSink) (wanted : Nat) : Nat :=
  match sink.capacity with
  | some capacity => capacity - sink.log.size
  | none => wanted

def write (bytes : List UInt8) (sink : LimitedSink) : Except Failure Nat × LimitedSink :=
  if 0 < bytes.length ∧ sink.room bytes.length = 0 then (.error full, sink)
  else
    let accepted := min bytes.length (min (sink.chunk.getD bytes.length) (sink.room bytes.length))
    (.ok accepted, { sink with log := sink.log.append (bytes.take accepted) })

def flush (sink : LimitedSink) : Except Failure Unit × LimitedSink :=
  match sink.failingFlushes with
  | 0 => (.ok (), sink)
  | left + 1 => (.error (injected "flush"), { sink with failingFlushes := left })

def sync (sink : LimitedSink) : Except Failure Unit × LimitedSink :=
  match sink.failingSyncs with
  | 0 => (.ok (), sink)
  | left + 1 => (.error (injected "sync"), { sink with failingSyncs := left })

def close (sink : LimitedSink) : Except Failure Unit × LimitedSink :=
  match sink.failingCloses with
  | 0 => (.ok (), sink)
  | left + 1 => (.error (injected "close"), { sink with failingCloses := left })

instance : ByteSink LimitedSink where
  write := write
  flush := flush
  sync := sync
  close := close
  bytesWritten sink := sink.log.size
  patience _ := 0
  patience_of_interrupted written interrupted := by
    unfold write at written
    split at written
    · simp only [Prod.mk.injEq, Except.error.injEq] at written
      rw [← written.1] at interrupted
      simp [full] at interrupted
    · simp at written

end LimitedSink

end LineageJournal

import LineageJournal.Stream.Sink

/-! Sinks under observation. A traced sink keeps the calls that it has received, each with its
answer, and does otherwise what the sink inside it does. -/

namespace LineageJournal

theorem writeAll_cons {σ : Type} [ByteSink σ] (first : UInt8) (rest : List UInt8) (sink : σ) :
    writeAll (first :: rest) sink =
      match ByteSink.write (first :: rest) sink with
      | (.ok 0, next) => (.error nothingAccepted, next)
      | (.ok (accepted + 1), next) => writeAll (rest.drop accepted) next
      | (.error failure, next) =>
        if failure.kind = .interrupted then writeAll (first :: rest) next
        else (.error failure, next) := by
  rw [writeAll]
  split
  all_goals
    rename_i wrote
    simp only [wrote]

/-- A call of a sink and what the sink has answered. -/
inductive SinkCall where
  | write (bytes : List UInt8) (result : Except Failure Nat)
  | flush (result : Except Failure Unit)
  | sync (result : Except Failure Unit)
  | close (result : Except Failure Unit)

structure Traced (σ : Type) where
  sink : σ
  /-- The calls received so far, the latest last. -/
  calls : List SinkCall := []

namespace Traced

variable {σ α : Type}

def watch (operation : σ → Except Failure α × σ) (call : Except Failure α → SinkCall)
    (traced : Traced σ) : Except Failure α × Traced σ :=
  match operation traced.sink with
  | (result, sink) => (result, { sink, calls := traced.calls ++ [call result] })

def forget (outcome : α × Traced σ) : α × σ := (outcome.1, outcome.2.sink)

theorem forget_watch (operation : σ → Except Failure α × σ)
    (call : Except Failure α → SinkCall) (traced : Traced σ) :
    forget (watch operation call traced) = operation traced.sink := rfl

variable [ByteSink σ]

instance : ByteSink (Traced σ) where
  write bytes := watch (ByteSink.write bytes) (.write bytes)
  flush := watch ByteSink.flush .flush
  sync := watch ByteSink.sync .sync
  close := watch ByteSink.close .close
  bytesWritten traced := ByteSink.bytesWritten traced.sink
  patience traced := ByteSink.patience traced.sink
  patience_of_interrupted := by
    intro bytes traced next failure written interrupted
    exact ByteSink.patience_of_interrupted (congrArg forget written) interrupted

theorem forget_write (bytes : List UInt8) (traced : Traced σ) :
    forget (ByteSink.write bytes traced) = ByteSink.write bytes traced.sink := rfl

theorem forget_writeAll (bytes : List UInt8) (traced : Traced σ) :
    forget (writeAll bytes traced) = writeAll bytes traced.sink := by
  fun_induction writeAll bytes traced with
  | case1 traced =>
      rw [writeAll]
      rfl
  | case2 traced first rest next written =>
      rw [writeAll_cons first rest traced.sink, ← forget_write, written]
      rfl
  | case3 traced first rest accepted next written ih =>
      rw [writeAll_cons first rest traced.sink, ← forget_write, written]
      exact ih
  | case4 traced first rest failure next written interrupted ih =>
      rw [writeAll_cons first rest traced.sink, ← forget_write, written]
      simp only [forget, if_pos interrupted]
      exact ih
  | case5 traced first rest failure next written other =>
      rw [writeAll_cons first rest traced.sink, ← forget_write, written]
      simp only [forget, if_neg other]

end Traced

end LineageJournal

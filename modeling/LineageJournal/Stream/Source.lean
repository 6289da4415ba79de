import LineageJournal.Stream.ByteLog
import LineageJournal.Stream.Feed

/-! Sources: feeds with a byte position, a bounded look ahead and an end of use. Bytes read
while a mark holds are kept, so a reset can deliver them once more. -/

namespace LineageJournal

/-- A position to come back to, while no more than `limit` bytes are read after it. -/
structure Mark where
  position : Nat
  limit : Nat
  recorded : ByteLog := ∅
  deriving DecidableEq, Repr

structure Source (σ : Type) where
  feed : σ
  /-- The offset of the next byte. -/
  consumed : Nat := 0
  /-- Bytes to be delivered again before the feed is asked. -/
  replay : List UInt8 := []
  mark : Option Mark := none
  closed : Bool := false

namespace Source

variable {σ : Type}

def isClosed : Failure := ⟨.other, "source is closed"⟩

def noMark : Failure := ⟨.invalidInput, "reset without a valid mark"⟩

/-- Keeps the bytes, or gives the mark up when they exceed its limit. -/
def record (mark : Mark) (bytes : List UInt8) : Option Mark :=
  if mark.limit < mark.recorded.size + bytes.length then none
  else some { mark with recorded := mark.recorded.append bytes }

def deliver (source : Source σ) (bytes : List UInt8) : Source σ :=
  { source with
    consumed := source.consumed + bytes.length
    mark := source.mark.bind (record · bytes) }

section Reading

variable [ByteFeed σ]

def read (n : Nat) (source : Source σ) : Except Failure (List UInt8) × Source σ :=
  if source.closed then (.error isClosed, source)
  else if source.replay.isEmpty then
    match ByteFeed.pull n source.feed with
    | (.ok bytes, feed) => (.ok bytes, deliver { source with feed } bytes)
    | (.error failure, feed) => (.error failure, { source with feed })
  else
    let bytes := source.replay.take n
    (.ok bytes, deliver { source with replay := source.replay.drop n } bytes)

def budget (source : Source σ) : Nat := ByteFeed.budget source.feed + source.replay.length

theorem read_ok {n : Nat} {source next : Source σ} {bytes : List UInt8}
    (done : source.read n = (.ok bytes, next)) :
    bytes.length ≤ n ∧ next.budget + bytes.length ≤ source.budget := by
  unfold read at done
  split at done
  · simp at done
  · split at done
    · split at done
      · rename_i delivered feed pulled
        simp only [Prod.mk.injEq, Except.ok.injEq] at done
        obtain ⟨rfl, rfl⟩ := done
        refine ⟨ByteFeed.length_le_of_pull pulled, ?_⟩
        have spent := ByteFeed.budget_of_pull pulled
        simp only [budget, deliver]
        omega
      · simp at done
    · simp only [Prod.mk.injEq, Except.ok.injEq] at done
      obtain ⟨rfl, rfl⟩ := done
      simp only [budget, deliver, List.length_take, List.length_drop]
      omega

theorem read_interrupted {n : Nat} {source next : Source σ} {failure : Failure}
    (done : source.read n = (.error failure, next)) (interrupted : failure.kind = .interrupted) :
    next.budget < source.budget := by
  unfold read at done
  split at done
  · simp only [Prod.mk.injEq, Except.error.injEq] at done
    rw [← done.1] at interrupted
    simp [isClosed] at interrupted
  · split at done
    · split at done
      · simp at done
      · rename_i problem feed pulled
        simp only [Prod.mk.injEq, Except.error.injEq] at done
        obtain ⟨rfl, rfl⟩ := done
        have spent := ByteFeed.budget_of_interrupted pulled interrupted
        simp only [budget]
        omega
    · simp at done

/-- A source is itself a feed, so whole amounts are read from it like from any other. -/
instance : ByteFeed (Source σ) where
  pull n source := source.read n
  budget := budget
  length_le_of_pull done := (read_ok done).1
  budget_of_pull done := (read_ok done).2
  budget_of_interrupted := read_interrupted

end Reading

def setMark (source : Source σ) (limit : Nat) : Source σ :=
  { source with mark := some { position := source.consumed, limit } }

/-- Goes back to the mark, which then holds again with the same limit. -/
def reset (source : Source σ) : Except Failure Unit × Source σ :=
  match source.mark with
  | none => (.error noMark, source)
  | some mark =>
    (.ok (),
      { source with
        consumed := mark.position
        replay := mark.recorded.toList ++ source.replay
        mark := some { mark with recorded := ∅ } })

/-- Every later read fails, and nothing can be gone back to. -/
def close (source : Source σ) : Source σ :=
  { source with closed := true, replay := [], mark := none }

end Source

end LineageJournal

import LineageJournal.Failure
import LineageJournal.Stream.Pace

/-! Byte feeds: devices that bytes are pulled from. A pull may deliver fewer bytes than asked
for, and may fail; no byte at all means that the data has ended for now. The loops here put
whole amounts together from such pulls and try again after interruptions. -/

namespace LineageJournal

/-- `budget` bounds the bytes and interruptions that are still to come. -/
class ByteFeed (σ : Type) where
  pull : Nat → σ → Except Failure (List UInt8) × σ
  budget : σ → Nat
  length_le_of_pull : ∀ {n : Nat} {feed next : σ} {bytes : List UInt8},
    pull n feed = (.ok bytes, next) → bytes.length ≤ n
  budget_of_pull : ∀ {n : Nat} {feed next : σ} {bytes : List UInt8},
    pull n feed = (.ok bytes, next) → budget next + bytes.length ≤ budget feed
  budget_of_interrupted : ∀ {n : Nat} {feed next : σ} {failure : Failure},
    pull n feed = (.error failure, next) → failure.kind = .interrupted →
      budget next < budget feed

inductive Gathered where
  | full (bytes : List UInt8)
  /-- The data ended first. -/
  | short (bytes : List UInt8)
  | failed (failure : Failure)
  deriving DecidableEq, Repr

variable {σ : Type} [ByteFeed σ]

/-- Pulls until nothing is missing; `earlier` holds the bytes that are there in reverse. -/
def gatherFrom (pace : Pace) (earlier : List UInt8) (missing : Nat) (feed : σ) : Gathered × σ :=
  if missing = 0 then (.full earlier.reverse, feed)
  else
    match _ : ByteFeed.pull (pace.request missing) feed with
    | (.ok bytes, next) =>
      if bytes.isEmpty then (.short earlier.reverse, next)
      else
        gatherFrom (pace.after bytes.length) (bytes.reverse ++ earlier)
          (missing - bytes.length) next
    | (.error failure, next) =>
      if failure.kind = .interrupted then gatherFrom pace earlier missing next
      else (.failed failure, next)
termination_by (missing, ByteFeed.budget feed)
decreasing_by
  · apply Prod.Lex.left
    have nonempty : 0 < bytes.length := by
      cases bytes with
      | nil => simp_all
      | cons => simp
    omega
  · rename_i interrupted
    exact Prod.Lex.right _ (ByteFeed.budget_of_interrupted (by assumption) interrupted)

def gather (pace : Pace) (total : Nat) (feed : σ) : Gathered × σ := gatherFrom pace [] total feed

def drainFrom (buffer : GrowingBuffer) (earlier : List UInt8) (feed : σ) :
    Except Failure (List UInt8) × σ :=
  match _ : ByteFeed.pull buffer.room feed with
  | (.ok bytes, next) =>
    if bytes.isEmpty then (.ok earlier.reverse, next)
    else drainFrom (buffer.receive bytes.length) (bytes.reverse ++ earlier) next
  | (.error failure, next) =>
    if failure.kind = .interrupted then drainFrom buffer earlier next else (.error failure, next)
termination_by ByteFeed.budget feed
decreasing_by
  · rename_i pulled _
    have spent := ByteFeed.budget_of_pull pulled
    have nonempty : 0 < bytes.length := by
      cases bytes with
      | nil => simp_all
      | cons => simp
    omega
  · rename_i interrupted
    exact ByteFeed.budget_of_interrupted (by assumption) interrupted

def drain (feed : σ) : Except Failure (List UInt8) × σ := drainFrom .untried [] feed

def endedEarly : Failure := ⟨.unexpectedEof, "failed to fill whole buffer"⟩

def readExact (n : Nat) (feed : σ) : Except Failure (List UInt8) × σ :=
  match gather .whole n feed with
  | (.full bytes, next) => (.ok bytes, next)
  | (.short _, next) => (.error endedEarly, next)
  | (.failed failure, next) => (.error failure, next)

def readByte (feed : σ) : Except Failure (Option UInt8) × σ :=
  match gather .whole 1 feed with
  | (.full bytes, next) => (.ok bytes.head?, next)
  | (.short _, next) => (.ok none, next)
  | (.failed failure, next) => (.error failure, next)

def skipBytes (n : Nat) (feed : σ) : Except Failure Unit × σ :=
  match gather .copying n feed with
  | (.full _, next) => (.ok (), next)
  | (.short bytes, next) =>
    let skipped := bytes.length
    (.error ⟨.unexpectedEof, s!"stream ended after skipping {skipped} of {n} bytes"⟩, next)
  | (.failed failure, next) => (.error failure, next)

end LineageJournal

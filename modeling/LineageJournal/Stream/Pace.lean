/-! Paces: how many bytes a loop of pulls asks for at a time. A pull may take less from a
device than was asked for, and a buffered device is left in a state that depends on it. -/

namespace LineageJournal

/-- A buffer for data of unknown length. Thirty-two bytes are tried first, and the buffer is
made for what has come, or for eight bytes. After that it is filled through a window. A pull may
fill what is free of the window; once fewer than thirty-two bytes of it are, the next window
takes all that is spare, up to a ceiling of 8192 bytes. A buffer with fewer than thirty-two bytes
spare is doubled first, or enlarged until that many are. The ceiling doubles with every pull that
brings as many bytes. -/
inductive GrowingBuffer where
  | untried
  | filled (held spare window doublings : Nat)
  deriving DecidableEq, Repr

namespace GrowingBuffer

def enlarged (held spare : Nat) : Nat := if spare < 32 then max (held + 2 * spare) 32 else spare

theorem le_enlarged (held spare : Nat) : 32 ≤ enlarged held spare := by
  unfold enlarged
  split <;> omega

def ceiling (doublings : Nat) : Nat := 8192 <<< doublings

def room : GrowingBuffer → Nat
  | untried => 32
  | filled held spare window doublings =>
    if window < 32 then min (enlarged held spare) (ceiling doublings) else window

def receive (n : Nat) : GrowingBuffer → GrowingBuffer
  | untried => filled n (8 - n) 0 0
  | filled held spare window doublings =>
    filled (held + n) (enlarged held spare - n) ((filled held spare window doublings).room - n)
      (if ceiling doublings ≤ n then doublings + 1 else doublings)

theorem room_pos (buffer : GrowingBuffer) : 0 < buffer.room := by
  cases buffer with
  | untried => exact Nat.zero_lt_succ 31
  | filled held spare window doublings =>
      have high : 0 < ceiling doublings := by
        rw [ceiling, Nat.shiftLeft_eq]
        exact Nat.mul_pos (Nat.zero_lt_succ 8191) (Nat.two_pow_pos doublings)
      have wide := le_enlarged held spare
      simp only [room]
      split <;> omega

end GrowingBuffer

inductive Pace where
  /-- Everything that is missing at once. -/
  | whole
  /-- What fits into a fixed copying buffer. -/
  | copying
  | growing (buffer : GrowingBuffer)
  deriving DecidableEq, Repr

namespace Pace

def request (missing : Nat) : Pace → Nat
  | whole => missing
  | copying => min 8192 missing
  | growing buffer => min buffer.room missing

def after (n : Nat) : Pace → Pace
  | growing buffer => growing (buffer.receive n)
  | pace => pace

theorem request_pos {missing : Nat} (wanted : 0 < missing) (pace : Pace) :
    0 < pace.request missing := by
  cases pace with
  | whole => exact wanted
  | copying => exact Nat.lt_min.mpr ⟨Nat.zero_lt_succ 8191, wanted⟩
  | growing buffer => exact Nat.lt_min.mpr ⟨buffer.room_pos, wanted⟩

end Pace

end LineageJournal

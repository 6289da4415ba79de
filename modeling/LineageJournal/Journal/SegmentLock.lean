/-! Segment locks. One thread at a time owns the lock and may acquire it again; the lock is
free once every acquisition is released. -/

namespace LineageJournal

inductive SegmentLock where
  | free
  /-- Held by `owner`, with `again` acquisitions beyond the first. -/
  | held (owner again : Nat)
  deriving DecidableEq, Repr

namespace SegmentLock

/-- The lock after `thread` acquires it, or `none` while another thread owns it. -/
def acquire? (thread : Nat) : SegmentLock → Option SegmentLock
  | free => some (held thread 0)
  | held owner again => if owner = thread then some (held owner (again + 1)) else none

def release? (thread : Nat) : SegmentLock → Option SegmentLock
  | free => none
  | held owner 0 => if owner = thread then some free else none
  | held owner (again + 1) => if owner = thread then some (held owner again) else none

end SegmentLock

end LineageJournal

import LineageJournal.Stream.Feed

/-! Scripted feeds: data whose arrival is laid down in advance, byte by byte, with failures
in between and a bound on the bytes of one pull. -/

namespace LineageJournal

inductive Arrival where
  | byte (value : UInt8)
  /-- A failure that comes once and then `again` times more. -/
  | failure (failure : Failure) (again : Nat)
  deriving DecidableEq, Repr

def Arrival.total : List Arrival → Nat
  | [] => 0
  | .byte _ :: rest => total rest + 1
  | .failure _ again :: rest => total rest + (again + 1)

/-- The bytes before the first failure, at most `limit` of them, and what follows; earlier
bytes are in reverse. -/
def leadingBytesFrom (earlier : List UInt8) : Nat → List Arrival → List UInt8 × List Arrival
  | limit + 1, .byte value :: rest => leadingBytesFrom (value :: earlier) limit rest
  | _, rest => (earlier.reverse, rest)

structure ScriptedFeed where
  arrivals : List Arrival
  chunk : Option Nat := none

namespace ScriptedFeed

/-- A failure is delivered whatever number of bytes is asked for. -/
def pull (n : Nat) (feed : ScriptedFeed) : Except Failure (List UInt8) × ScriptedFeed :=
  match feed.arrivals with
  | .failure failure 0 :: rest => (.error failure, { feed with arrivals := rest })
  | .failure failure (again + 1) :: rest =>
    (.error failure, { feed with arrivals := .failure failure again :: rest })
  | arrivals =>
    let (bytes, rest) := leadingBytesFrom [] (min n (feed.chunk.getD n)) arrivals
    (.ok bytes, { feed with arrivals := rest })

theorem leadingBytesFrom_length (earlier : List UInt8) (limit : Nat) (arrivals : List Arrival) :
    (leadingBytesFrom earlier limit arrivals).1.length ≤ earlier.length + limit ∧
    Arrival.total (leadingBytesFrom earlier limit arrivals).2 +
      (leadingBytesFrom earlier limit arrivals).1.length ≤
        earlier.length + Arrival.total arrivals := by
  fun_induction leadingBytesFrom earlier limit arrivals with
  | case1 earlier limit value rest ih =>
      simp only [List.length_cons] at ih
      simp only [Arrival.total]
      omega
  | case2 earlier limit rest =>
      simp only [List.length_reverse]
      omega

theorem pull_ok {n : Nat} {feed next : ScriptedFeed} {bytes : List UInt8}
    (pulled : feed.pull n = (.ok bytes, next)) :
    bytes.length ≤ n ∧
      Arrival.total next.arrivals + bytes.length ≤ Arrival.total feed.arrivals := by
  unfold pull at pulled
  split at pulled
  · simp at pulled
  · simp at pulled
  · have bounds := leadingBytesFrom_length [] (min n (feed.chunk.getD n)) feed.arrivals
    simp only [Prod.mk.injEq, Except.ok.injEq] at pulled
    obtain ⟨rfl, rfl⟩ := pulled
    simp only [List.length_nil] at bounds
    dsimp only
    omega

theorem pull_error {n : Nat} {feed next : ScriptedFeed} {failure : Failure}
    (pulled : feed.pull n = (.error failure, next)) :
    Arrival.total next.arrivals < Arrival.total feed.arrivals := by
  unfold pull at pulled
  split at pulled
  · rename_i arrivals
    simp only [Prod.mk.injEq, Except.error.injEq] at pulled
    obtain ⟨rfl, rfl⟩ := pulled
    simp only [arrivals, Arrival.total]
    omega
  · rename_i arrivals
    simp only [Prod.mk.injEq, Except.error.injEq] at pulled
    obtain ⟨rfl, rfl⟩ := pulled
    simp only [arrivals, Arrival.total]
    omega
  · simp at pulled

instance : ByteFeed ScriptedFeed where
  pull n feed := feed.pull n
  budget feed := Arrival.total feed.arrivals
  length_le_of_pull pulled := (pull_ok pulled).1
  budget_of_pull pulled := (pull_ok pulled).2
  budget_of_interrupted pulled _ := pull_error pulled

/-- Failures that strike before the byte at an offset, a number of times each. -/
structure Strike where
  offset : Nat
  failure : Failure
  times : Nat

def Strike.arrival? (strike : Strike) : Option Arrival :=
  match strike.times with
  | 0 => none
  | again + 1 => some (.failure strike.failure again)

def strikesAt (strikes : List Strike) (offset : Nat) : List Arrival :=
  (strikes.filter (·.offset == offset)).filterMap Strike.arrival?

def ofBytes (bytes : List UInt8) : ScriptedFeed := { arrivals := bytes.map .byte }

def ofStrikes (bytes : List UInt8) (strikes : List Strike) (chunk : Option Nat) :
    ScriptedFeed :=
  { arrivals :=
      (bytes.zipIdx.flatMap fun place => strikesAt strikes place.2 ++ [.byte place.1]) ++
        strikesAt strikes bytes.length
    chunk }

end ScriptedFeed

end LineageJournal

import LineageJournal.Stream.Feed

/-! Feeds over files: a cursor into the content of a file, and a block buffer that can stand
in front of any feed. The content may change between pulls, so bytes that are appended after
the end was reached are still found. A directory can be opened like a file, but every pull from
it fails. -/

namespace LineageJournal

inductive FileCursor where
  /-- `ahead` is what the file holds from the position on. -/
  | file (position : Nat) (ahead : List UInt8)
  | directory

namespace FileCursor

def isADirectory : Failure := ⟨.isADirectory, "Is a directory (os error 21)"⟩

def pull (n : Nat) : FileCursor → Except Failure (List UInt8) × FileCursor
  | file position ahead =>
    let bytes := ahead.take n
    (.ok bytes, file (position + bytes.length) (ahead.drop n))
  | directory => (.error isADirectory, directory)

def left : FileCursor → Nat
  | file _ ahead => ahead.length
  | directory => 0

theorem pull_ok {n : Nat} {cursor next : FileCursor} {bytes : List UInt8}
    (pulled : cursor.pull n = (.ok bytes, next)) :
    bytes.length ≤ n ∧ next.left + bytes.length ≤ cursor.left := by
  cases cursor with
  | file position ahead =>
      simp only [pull, Prod.mk.injEq, Except.ok.injEq] at pulled
      simp only [← pulled.1, ← pulled.2, left, List.length_take, List.length_drop]
      omega
  | directory => simp [pull] at pulled

theorem not_interrupted_of_pull {n : Nat} {cursor next : FileCursor} {failure : Failure}
    (pulled : cursor.pull n = (.error failure, next)) : failure.kind ≠ .interrupted := by
  cases cursor with
  | file position ahead => simp [pull] at pulled
  | directory =>
      simp only [pull, Prod.mk.injEq, Except.error.injEq] at pulled
      simp [← pulled.1, isADirectory]

instance : ByteFeed FileCursor where
  pull n cursor := cursor.pull n
  budget := left
  length_le_of_pull pulled := (pull_ok pulled).1
  budget_of_pull pulled := (pull_ok pulled).2
  budget_of_interrupted pulled interrupted :=
    absurd interrupted (not_interrupted_of_pull pulled)

/-- The same place after the file's content has become another. -/
def refresh (content : List UInt8) : FileCursor → FileCursor
  | file position _ => file position (content.drop position)
  | directory => directory

end FileCursor

/-- A feed read in blocks of `capacity`, with the rest of the current block pending. -/
structure Buffered (σ : Type) where
  capacity : Nat
  pending : List UInt8 := []
  inner : σ

namespace Buffered

variable {σ : Type} [ByteFeed σ]

def takePending (n : Nat) (feed : Buffered σ) : Except Failure (List UInt8) × Buffered σ :=
  (.ok (feed.pending.take n), { feed with pending := feed.pending.drop n })

/-- Requests of a block or more go past an empty buffer; others are met from a block. -/
def pull (n : Nat) (feed : Buffered σ) : Except Failure (List UInt8) × Buffered σ :=
  if feed.pending.isEmpty then
    if feed.capacity ≤ n then
      match ByteFeed.pull n feed.inner with
      | (result, inner) => (result, { feed with inner })
    else
      match ByteFeed.pull feed.capacity feed.inner with
      | (.ok block, inner) => takePending n { feed with pending := block, inner }
      | (.error failure, inner) => (.error failure, { feed with inner })
  else takePending n feed

def budget (feed : Buffered σ) : Nat := ByteFeed.budget feed.inner + feed.pending.length

theorem takePending_ok {n : Nat} {feed next : Buffered σ} {bytes : List UInt8}
    (taken : takePending n feed = (.ok bytes, next)) :
    bytes.length ≤ n ∧ next.budget + bytes.length ≤ feed.budget := by
  simp only [takePending, Prod.mk.injEq, Except.ok.injEq] at taken
  obtain ⟨rfl, rfl⟩ := taken
  simp only [budget, List.length_take, List.length_drop]
  omega

theorem pull_ok {n : Nat} {feed next : Buffered σ} {bytes : List UInt8}
    (pulled : feed.pull n = (.ok bytes, next)) :
    bytes.length ≤ n ∧ next.budget + bytes.length ≤ feed.budget := by
  unfold pull at pulled
  split at pulled
  · rename_i noPending
    split at pulled
    · simp only [Prod.mk.injEq] at pulled
      have inner : ByteFeed.pull n feed.inner = (.ok bytes, next.inner) := by
        rw [← pulled.1, ← pulled.2]
      have spent := ByteFeed.budget_of_pull inner
      refine ⟨ByteFeed.length_le_of_pull inner, ?_⟩
      rw [← pulled.2] at spent ⊢
      simp only [budget] at spent ⊢
      omega
    · split at pulled
      · rename_i block inner filled
        have spent := ByteFeed.budget_of_pull filled
        have taken := takePending_ok pulled
        simp only [budget] at taken ⊢
        omega
      · simp at pulled
  · exact takePending_ok pulled

theorem pull_interrupted {n : Nat} {feed next : Buffered σ} {failure : Failure}
    (pulled : feed.pull n = (.error failure, next)) (interrupted : failure.kind = .interrupted) :
    next.budget < feed.budget := by
  unfold pull at pulled
  split at pulled
  · split at pulled
    · simp only [Prod.mk.injEq] at pulled
      have inner : ByteFeed.pull n feed.inner = (.error failure, next.inner) := by
        rw [← pulled.1, ← pulled.2]
      have spent := ByteFeed.budget_of_interrupted inner interrupted
      rw [← pulled.2] at spent ⊢
      simp only [budget] at spent ⊢
      omega
    · split at pulled
      · simp [takePending] at pulled
      · rename_i problem inner filled
        simp only [Prod.mk.injEq, Except.error.injEq] at pulled
        obtain ⟨rfl, rfl⟩ := pulled
        have spent := ByteFeed.budget_of_interrupted filled interrupted
        simp only [budget]
        omega
  · simp [takePending] at pulled

instance : ByteFeed (Buffered σ) where
  pull n feed := feed.pull n
  budget := budget
  length_le_of_pull pulled := (pull_ok pulled).1
  budget_of_pull pulled := (pull_ok pulled).2
  budget_of_interrupted := pull_interrupted

end Buffered

abbrev FileFeed := Buffered FileCursor

namespace FileFeed

def openAt (content : List UInt8) (capacity : Nat) : FileFeed :=
  { capacity, inner := .file 0 content }

def ofDirectory (capacity : Nat) : FileFeed := { capacity, inner := .directory }

def refresh (feed : FileFeed) (content : List UInt8) : FileFeed :=
  { feed with inner := feed.inner.refresh content }

end FileFeed

end LineageJournal

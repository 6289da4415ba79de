import LineageJournal.Proofs.Stream.Delivery
import LineageJournal.Stream.FileFeed

/-! Ways for bytes to arrive. A file, a block buffer in front of a feed and a feed that is
served unevenly all deliver the same bytes; they differ in how many come with one pull and in
how often a pull is interrupted. -/

namespace LineageJournal

inductive Turn where
  | interrupted
  /-- Brings at most `extra + 1` bytes. -/
  | atMost (extra : Nat)
  deriving DecidableEq, Repr

/-- A feed whose next pulls go as laid down, and the ones after that as its inner feed likes. -/
structure UnevenFeed (σ : Type) where
  inner : σ
  turns : List Turn

namespace UnevenFeed

variable {σ : Type} [ByteFeed σ]

def interruption : Failure := ⟨.interrupted, "interrupted"⟩

def pass (n : Nat) (inner : σ) (turns : List Turn) :
    Except Failure (List UInt8) × UnevenFeed σ :=
  ((ByteFeed.pull n inner).1, { inner := (ByteFeed.pull n inner).2, turns })

def pull (n : Nat) (feed : UnevenFeed σ) : Except Failure (List UInt8) × UnevenFeed σ :=
  match feed.turns with
  | [] => pass n feed.inner []
  | .interrupted :: turns => (.error interruption, { feed with turns })
  | .atMost extra :: turns => pass (min n (extra + 1)) feed.inner turns

def budget (feed : UnevenFeed σ) : Nat := ByteFeed.budget feed.inner + feed.turns.length

theorem pass_eq {n : Nat} {inner : σ} {turns : List Turn} {next : UnevenFeed σ}
    {result : Except Failure (List UInt8)} (passed : pass n inner turns = (result, next)) :
    ByteFeed.pull n inner = (result, next.inner) ∧ next.turns = turns := by
  cases passed
  exact ⟨rfl, rfl⟩

theorem pull_ok {n : Nat} {feed next : UnevenFeed σ} {bytes : List UInt8}
    (pulled : feed.pull n = (.ok bytes, next)) :
    bytes.length ≤ n ∧ next.budget + bytes.length ≤ feed.budget := by
  unfold pull at pulled
  split at pulled
  · obtain ⟨inner, turns⟩ := pass_eq pulled
    have bound := ByteFeed.length_le_of_pull inner
    have spent := ByteFeed.budget_of_pull inner
    simp only [budget, turns, List.length_nil]
    omega
  · cases pulled
  · rename_i extra later laid
    obtain ⟨inner, turns⟩ := pass_eq pulled
    have bound := ByteFeed.length_le_of_pull inner
    have spent := ByteFeed.budget_of_pull inner
    simp only [budget, turns, laid, List.length_cons]
    omega

theorem pull_interrupted {n : Nat} {feed next : UnevenFeed σ} {failure : Failure}
    (pulled : feed.pull n = (.error failure, next)) (interrupted : failure.kind = .interrupted) :
    next.budget < feed.budget := by
  unfold pull at pulled
  split at pulled
  · obtain ⟨inner, turns⟩ := pass_eq pulled
    have spent := ByteFeed.budget_of_interrupted inner interrupted
    simp only [budget, turns, List.length_nil]
    omega
  · rename_i later laid
    cases pulled
    simp only [budget, laid, List.length_cons]
    omega
  · rename_i extra later laid
    obtain ⟨inner, turns⟩ := pass_eq pulled
    have spent := ByteFeed.budget_of_interrupted inner interrupted
    simp only [budget, turns, laid, List.length_cons]
    omega

instance : ByteFeed (UnevenFeed σ) where
  pull n feed := feed.pull n
  budget := budget
  length_le_of_pull pulled := (pull_ok pulled).1
  budget_of_pull pulled := (pull_ok pulled).2
  budget_of_interrupted := pull_interrupted

variable {stop : Option Failure} {ahead : σ → List UInt8 → Prop}

theorem isDelivery_inner (delivery : IsDelivery stop ahead) :
    IsDelivery stop fun (feed : UnevenFeed σ) bytes => ahead feed.inner bytes where
  of_ok := by
    intro n feed next bytes chunk start wanted pulled
    have pulled : feed.pull n = (.ok chunk, next) := pulled
    unfold pull at pulled
    split at pulled
    · exact delivery.of_ok start wanted (pass_eq pulled).1
    · cases pulled
    · exact delivery.of_ok start (Nat.lt_min.mpr ⟨wanted, Nat.succ_pos _⟩) (pass_eq pulled).1
  of_error := by
    intro n feed next bytes failure start wanted pulled
    have pulled : feed.pull n = (.error failure, next) := pulled
    unfold pull at pulled
    split at pulled
    · exact delivery.of_error start wanted (pass_eq pulled).1
    · cases pulled
      exact .inl ⟨rfl, start⟩
    · exact delivery.of_error start (Nat.lt_min.mpr ⟨wanted, Nat.succ_pos _⟩) (pass_eq pulled).1

theorem delivers {feed : σ} {bytes : List UInt8} (delivers : Delivers feed bytes stop)
    (turns : List Turn) : Delivers { inner := feed, turns : UnevenFeed σ } bytes stop := by
  obtain ⟨ahead, delivery, start⟩ := delivers
  exact ⟨_, isDelivery_inner delivery, start⟩

end UnevenFeed

namespace Buffered

variable {σ : Type} {stop : Option Failure} {ahead : σ → List UInt8 → Prop}

def Ahead (ahead : σ → List UInt8 → Prop) (feed : Buffered σ) (bytes : List UInt8) : Prop :=
  ∃ later, bytes = feed.pending ++ later ∧ ahead feed.inner later

theorem ahead_takePending {n : Nat} {feed next : Buffered σ} {bytes chunk : List UInt8}
    (start : Ahead ahead feed bytes) (wanted : 0 < n)
    (taken : takePending n feed = (.ok chunk, next)) :
    ∃ rest, bytes = chunk ++ rest ∧ Ahead ahead next rest ∧
      (chunk = [] → feed.pending = []) := by
  obtain ⟨later, rfl, supply⟩ := start
  cases taken
  refine ⟨feed.pending.drop n ++ later, ?_, ⟨later, rfl, supply⟩, ?_⟩
  · rw [← List.append_assoc, List.take_append_drop]
  · intro nothing
    exact (List.take_eq_nil_iff.mp nothing).resolve_left (Nat.ne_of_gt wanted)

variable [ByteFeed σ]

theorem isDelivery_ahead (delivery : IsDelivery stop ahead) :
    IsDelivery stop (Ahead ahead) where
  of_ok := by
    intro n feed next bytes chunk start wanted pulled
    have pulled : feed.pull n = (.ok chunk, next) := pulled
    unfold pull at pulled
    split at pulled
    · rename_i noPending
      have noPending : feed.pending = [] := List.isEmpty_iff.mp noPending
      obtain ⟨later, rfl, supply⟩ := start
      rw [noPending, List.nil_append]
      split at pulled
      -- The request goes past the buffer.
      · simp only [Prod.mk.injEq] at pulled
        obtain ⟨fetched, rfl⟩ := pulled
        obtain ⟨rest, split, after, atEnd⟩ :=
          delivery.of_ok supply wanted (Prod.ext fetched rfl)
        exact ⟨rest, split, ⟨rest, by rw [noPending, List.nil_append], after⟩, atEnd⟩
      -- A block is fetched and the request is met from it.
      · rename_i small
        split at pulled
        · rename_i block inner fetched
          obtain ⟨rest, split, after, atEnd⟩ := delivery.of_ok supply (by omega) fetched
          obtain ⟨left, shared, there, exhausted⟩ :=
            ahead_takePending ⟨rest, split, after⟩ wanted pulled
          exact ⟨left, shared, there, fun nothing => atEnd (exhausted nothing)⟩
        · cases pulled
    · rename_i somePending
      obtain ⟨rest, split, after, exhausted⟩ := ahead_takePending start wanted pulled
      refine ⟨rest, split, after, fun nothing => ?_⟩
      exact absurd (List.isEmpty_iff.mpr (exhausted nothing)) somePending
  of_error := by
    intro n feed next bytes failure start wanted pulled
    have pulled : feed.pull n = (.error failure, next) := pulled
    unfold pull at pulled
    split at pulled
    · rename_i noPending
      have noPending : feed.pending = [] := List.isEmpty_iff.mp noPending
      obtain ⟨later, rfl, supply⟩ := start
      rw [noPending, List.nil_append]
      split at pulled
      · simp only [Prod.mk.injEq] at pulled
        obtain ⟨fetched, rfl⟩ := pulled
        rcases delivery.of_error supply wanted (Prod.ext fetched rfl) with
          ⟨interrupted, after⟩ | stopped
        · exact .inl ⟨interrupted, later, by rw [noPending, List.nil_append], after⟩
        · exact .inr stopped
      · split at pulled
        · cases pulled
        · rename_i problem inner fetched
          cases pulled
          rcases delivery.of_error supply (by omega) fetched with ⟨interrupted, after⟩ | stopped
          · exact .inl ⟨interrupted, later, by rw [noPending, List.nil_append], after⟩
          · exact .inr stopped
    · cases pulled

theorem delivers {inner : σ} {bytes : List UInt8} (delivers : Delivers inner bytes stop)
    (capacity : Nat) : Delivers { capacity, inner : Buffered σ } bytes stop := by
  obtain ⟨ahead, delivery, start⟩ := delivers
  exact ⟨Ahead ahead, isDelivery_ahead delivery, bytes, rfl, start⟩

end Buffered

namespace FileCursor

theorem isDelivery_file :
    IsDelivery none fun cursor bytes => ∃ position, cursor = file position bytes where
  of_ok := by
    intro n cursor next bytes chunk start wanted pulled
    obtain ⟨position, rfl⟩ := start
    cases pulled
    refine ⟨bytes.drop n, (List.take_append_drop n bytes).symm, ⟨_, rfl⟩, fun nothing => ?_⟩
    exact ⟨(List.take_eq_nil_iff.mp nothing).resolve_left (Nat.ne_of_gt wanted), rfl⟩
  of_error := by
    intro n cursor next bytes failure start _ pulled
    obtain ⟨position, rfl⟩ := start
    cases pulled

theorem delivers (position : Nat) (bytes : List UInt8) : Delivers (file position bytes) bytes :=
  ⟨_, isDelivery_file, position, rfl⟩

end FileCursor

theorem FileFeed.delivers_openAt (content : List UInt8) (capacity : Nat) :
    Delivers (FileFeed.openAt content capacity) content :=
  Buffered.delivers (FileCursor.delivers 0 content) capacity

end LineageJournal

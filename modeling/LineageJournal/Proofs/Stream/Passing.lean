import LineageJournal.Proofs.Stream.Source
import LineageJournal.Stream.Script

/-! Supplies are feeds that bring their bytes in pieces of any size and fail when they like.
Whatever is read from a source over a supply, the bytes that it gives pass from the front of
what was to come, and a read that fails lets nothing pass. -/

namespace LineageJournal

section Supply

variable {σ : Type} [ByteFeed σ]

/-- `ahead feed bytes` holds where the feed has these bytes to bring. A pull brings any number of
them from the front, and one that fails brings none. -/
structure IsSupply (ahead : σ → List UInt8 → Prop) : Prop where
  of_ok : ∀ {n : Nat} {feed next : σ} {bytes chunk : List UInt8}, ahead feed bytes →
    ByteFeed.pull n feed = (.ok chunk, next) → ∃ rest, bytes = chunk ++ rest ∧ ahead next rest
  of_error : ∀ {n : Nat} {feed next : σ} {bytes : List UInt8} {failure : Failure},
    ahead feed bytes → ByteFeed.pull n feed = (.error failure, next) → ahead next bytes

/-- How a gathering ends when its pulls have brought `front`, after what was there earlier. -/
inductive Gathered.Brought (earlier : List UInt8) (missing : Nat) (front : List UInt8) :
    Gathered → Prop where
  | full (all : front.length = missing) :
      Brought earlier missing front (.full (earlier.reverse ++ front))
  | short (part : front.length < missing) :
      Brought earlier missing front (.short (earlier.reverse ++ front))
  | failed (part : front.length < missing) (failure : Failure) :
      Brought earlier missing front (.failed failure)

theorem Gathered.Brought.append {earlier chunk front : List UInt8} {missing : Nat}
    {outcome : Gathered} (within : chunk.length ≤ missing)
    (brought : outcome.Brought (chunk.reverse ++ earlier) (missing - chunk.length) front) :
    outcome.Brought earlier missing (chunk ++ front) := by
  have whole : (chunk.reverse ++ earlier).reverse ++ front =
      earlier.reverse ++ (chunk ++ front) := by
    rw [List.reverse_append, List.reverse_reverse, List.append_assoc]
  have counted : (chunk ++ front).length = chunk.length + front.length := List.length_append
  cases brought with
  | full all =>
      rw [whole]
      exact .full (by omega)
  | short part =>
      rw [whole]
      exact .short (by omega)
  | failed part failure => exact .failed (by omega) failure

variable {ahead : σ → List UInt8 → Prop}

theorem IsSupply.gatherFrom_brought (supply : IsSupply ahead) (pace : Pace)
    (earlier : List UInt8) (missing : Nat) (feed : σ) {bytes : List UInt8}
    (start : ahead feed bytes) :
    ∃ front rest, bytes = front ++ rest ∧ ahead (gatherFrom pace earlier missing feed).2 rest ∧
      (gatherFrom pace earlier missing feed).1.Brought earlier missing front := by
  fun_induction gatherFrom pace earlier missing feed generalizing bytes with
  | case1 pace earlier feed =>
      refine ⟨[], bytes, rfl, start, ?_⟩
      have nothing : Gathered.Brought earlier 0 [] (.full _) := .full rfl
      rwa [List.append_nil] at nothing
  | case2 pace earlier missing feed wanted chunk next pulled empty =>
      obtain ⟨rest, rfl, after⟩ := supply.of_ok start pulled
      rw [List.isEmpty_iff] at empty
      subst empty
      refine ⟨[], rest, rfl, after, ?_⟩
      have nothing : Gathered.Brought earlier missing [] (.short _) :=
        .short (Nat.pos_of_ne_zero wanted)
      rwa [List.append_nil] at nothing
  | case3 pace earlier missing feed wanted chunk next pulled nonempty ih =>
      simp only [List.unattach_reverse, List.unattach_attach] at ih
      obtain ⟨middle, rfl, after⟩ := supply.of_ok start pulled
      obtain ⟨front, rest, rfl, last, brought⟩ := ih after
      have within : chunk.length ≤ missing :=
        Nat.le_trans (ByteFeed.length_le_of_pull pulled) (pace.request_le missing)
      exact ⟨chunk ++ front, rest, (List.append_assoc ..).symm, last, brought.append within⟩
  | case4 pace earlier missing feed wanted failure next pulled interrupted ih =>
      exact ih (supply.of_error start pulled)
  | case5 pace earlier missing feed wanted failure next pulled other =>
      exact ⟨[], bytes, rfl, supply.of_error start pulled,
        .failed (Nat.pos_of_ne_zero wanted) failure⟩

theorem gather_zero (pace : Pace) (feed : σ) : gather pace 0 feed = (.full [], feed) := by
  rw [gather, gatherFrom, if_pos rfl]
  rfl

end Supply

namespace ScriptedFeed

/-- The bytes that are to come, whatever failures come between them. -/
def bytesOf : List Arrival → List UInt8
  | [] => []
  | .byte value :: rest => value :: bytesOf rest
  | .failure _ _ :: rest => bytesOf rest

theorem bytesOf_leadingBytesFrom (earlier : List UInt8) (limit : Nat) (arrivals : List Arrival) :
    earlier.reverse ++ bytesOf arrivals =
      (leadingBytesFrom earlier limit arrivals).1 ++
        bytesOf (leadingBytesFrom earlier limit arrivals).2 := by
  fun_induction leadingBytesFrom earlier limit arrivals with
  | case1 earlier limit value rest ih =>
      rw [← ih, bytesOf, List.reverse_cons, List.append_assoc]
      rfl
  | case2 earlier limit rest => rfl

def Brings (feed : ScriptedFeed) (bytes : List UInt8) : Prop := bytesOf feed.arrivals = bytes

theorem isSupply_brings : IsSupply Brings where
  of_ok := by
    rintro n feed next bytes chunk rfl pulled
    have pulled : feed.pull n = (.ok chunk, next) := pulled
    unfold pull at pulled
    split at pulled
    · cases pulled
    · cases pulled
    · cases pulled
      exact ⟨_, bytesOf_leadingBytesFrom [] _ feed.arrivals, rfl⟩
  of_error := by
    rintro n feed next bytes failure rfl pulled
    have pulled : feed.pull n = (.error failure, next) := pulled
    unfold pull at pulled
    split at pulled
    · rename_i arrivals
      cases pulled
      rw [arrivals, bytesOf]
      rfl
    · rename_i arrivals
      cases pulled
      rw [arrivals, bytesOf]
      rfl
    · cases pulled

end ScriptedFeed

namespace Source

variable {σ : Type}

def pass (source : Source σ) (front : List UInt8) (feed : σ) : Source σ :=
  deliver { source with feed, replay := source.replay.drop front.length } front

theorem pass_pass (source : Source σ) (first second : List UInt8) (feed later : σ) :
    (source.pass first feed).pass second later = source.pass (first ++ second) later := by
  have marked : (source.mark.bind (record · first)).bind (record · second) =
      source.mark.bind (record · (first ++ second)) := by
    cases source.mark with
    | none => rfl
    | some mark => exact record_append mark first second
  simp only [pass, deliver, marked, List.drop_drop, List.length_append, Nat.add_assoc]

def MarkFits (source : Source σ) : Prop :=
  ∀ mark, source.mark = some mark → mark.recorded.size ≤ mark.limit

theorem pass_nil {source : Source σ} (fits : source.MarkFits) (feed : σ) :
    source.pass [] feed = { source with feed } := by
  have marked : source.mark.bind (record · []) = source.mark := by
    cases known : source.mark with
    | none => rfl
    | some mark => exact record_nil (fits mark known)
  simp only [pass, deliver, marked, List.drop_zero, List.length_nil, Nat.add_zero]

section Reading

variable [ByteFeed σ] {ahead : σ → List UInt8 → Prop} {source next : Source σ}
  {inner : List UInt8} {n : Nat}

theorem read_closed (closed : source.closed = true) (n : Nat) :
    source.read n = (.error isClosed, source) := by
  rw [read, if_pos closed]

theorem read_replayed (isOpen : source.closed = false) (more : source.replay ≠ []) (n : Nat) :
    ∃ next, source.read n = (.ok (source.replay.take n), next) ∧ next.feed = source.feed := by
  have replaying : ¬ source.replay.isEmpty = true := mt List.isEmpty_iff.mp more
  rw [read, if_neg (by simp [isOpen]), if_neg replaying]
  exact ⟨_, rfl, rfl⟩

theorem read_pulled (isOpen : source.closed = false) (noReplay : source.replay = []) (n : Nat) :
    ∃ next, source.read n = ((ByteFeed.pull n source.feed).1, next) ∧
      next.feed = (ByteFeed.pull n source.feed).2 := by
  rw [read, if_neg (by simp [isOpen]), if_pos (List.isEmpty_iff.mpr noReplay)]
  obtain ⟨failure | bytes, feed⟩ := ByteFeed.pull n source.feed
  · exact ⟨_, rfl, rfl⟩
  · exact ⟨_, rfl, rfl⟩

theorem read_passes (supply : IsSupply ahead) (supplied : ahead source.feed inner)
    {chunk : List UInt8} (done : source.read n = (.ok chunk, next)) :
    ∃ feed rest, next = source.pass chunk feed ∧ ahead feed rest ∧
      source.replay ++ inner = chunk ++ (next.replay ++ rest) := by
  rcases Bool.eq_false_or_eq_true source.closed with closed | isOpen
  · cases (read_closed closed n).symm.trans done
  · cases reads_of_read isOpen done with
    | replayed replaying =>
        have dropped : source.replay.drop (source.replay.take n).length =
            source.replay.drop n := by
          rw [List.length_take]
          rcases Nat.le_total n source.replay.length with fits | beyond
          · rw [Nat.min_eq_left fits]
          · rw [Nat.min_eq_right beyond, List.drop_length, List.drop_eq_nil_of_le beyond]
        refine ⟨source.feed, inner, ?_, supplied, ?_⟩
        · simp only [pass, dropped]
        · simp only [deliver]
          rw [← List.append_assoc, List.take_append_drop]
    | @fetched _ feed noReplay pulled =>
        obtain ⟨rest, rfl, after⟩ := supply.of_ok supplied pulled
        refine ⟨feed, rest, ?_, after, ?_⟩
        · simp only [pass, noReplay, List.drop_nil]
        · simp only [deliver, noReplay, List.nil_append]

theorem read_fails {failure : Failure} (done : source.read n = (.error failure, next)) :
    next = { source with feed := next.feed } := by
  rcases Bool.eq_false_or_eq_true source.closed with closed | isOpen
  · cases (read_closed closed n).symm.trans done
    rfl
  · cases reads_of_read isOpen done with
    | failed noReplay pulled => rfl

theorem supplied_of_read_fails (supply : IsSupply ahead) (supplied : ahead source.feed inner)
    {failure : Failure} (done : source.read n = (.error failure, next)) :
    ahead next.feed inner := by
  rcases Bool.eq_false_or_eq_true source.closed with closed | isOpen
  · cases (read_closed closed n).symm.trans done
    exact supplied
  · cases reads_of_read isOpen done with
    | failed noReplay pulled => exact supply.of_error supplied pulled

/-- The source `source` was reached from `start` while `whole` was ahead, and `bytes` of it are
ahead now. -/
def Passed (ahead : σ → List UInt8 → Prop) (start : Source σ) (whole : List UInt8)
    (source : Source σ) (bytes : List UInt8) : Prop :=
  ∃ front feed rest, source = start.pass front feed ∧ ahead feed rest ∧
    bytes = source.replay ++ rest ∧ whole = front ++ bytes

theorem isSupply_passed (supply : IsSupply ahead) (start : Source σ) (whole : List UInt8) :
    IsSupply (Passed ahead start whole) where
  of_ok := by
    intro n source next bytes chunk passed pulled
    obtain ⟨front, feed, rest, rfl, supplied, rfl, rfl⟩ := passed
    have supplied : ahead (start.pass front feed).feed rest := supplied
    obtain ⟨later, left, rfl, after, split⟩ := read_passes supply supplied pulled
    refine ⟨_, split, front ++ chunk, later, left, pass_pass .., after, rfl, ?_⟩
    rw [List.append_assoc, split]
  of_error := by
    intro n source next bytes failure passed pulled
    obtain ⟨front, feed, rest, rfl, supplied, rfl, rfl⟩ := passed
    have supplied : ahead (start.pass front feed).feed rest := supplied
    have after := supplied_of_read_fails supply supplied pulled
    rw [read_fails pulled]
    exact ⟨front, next.feed, rest, rfl, after, rfl, rfl⟩

theorem gather_passes (supply : IsSupply ahead) (fits : source.MarkFits)
    (supplied : ahead source.feed inner) (pace : Pace) (count : Nat) :
    ∃ front feed rest, (gather pace count source).2 = source.pass front feed ∧ ahead feed rest ∧
      source.replay ++ inner = front ++ ((source.pass front feed).replay ++ rest) ∧
      (gather pace count source).1.Brought [] count front := by
  have start : Passed ahead source (source.replay ++ inner) source (source.replay ++ inner) :=
    ⟨[], source.feed, inner, (pass_nil fits source.feed).symm, supplied, rfl, rfl⟩
  obtain ⟨front, bytes, split, ⟨passed, feed, rest, reached, after, left, whole⟩, brought⟩ :=
    (isSupply_passed supply source _).gatherFrom_brought pace [] count source start
  have same : front = passed := List.append_cancel_right (split.symm.trans whole)
  subst same
  rw [left] at whole
  refine ⟨front, feed, rest, reached, after, ?_, brought⟩
  rw [whole, reached]

theorem gather_closed (closed : source.closed = true) (pace : Pace) {count : Nat}
    (wanted : 0 < count) : gather pace count source = (.failed isClosed, source) := by
  have pulled : ByteFeed.pull (pace.request count) source = (.error isClosed, source) :=
    read_closed closed _
  rw [gather, gatherFrom, if_neg (Nat.ne_of_gt wanted)]
  split
  · rename_i answer
    rw [pulled] at answer
    cases answer
  · rename_i answer
    rw [pulled] at answer
    cases answer
    exact if_neg (by decide)

theorem gather_closed_snd (closed : source.closed = true) (pace : Pace) (count : Nat) :
    (gather pace count source).2 = source := by
  rcases Nat.eq_zero_or_pos count with rfl | wanted
  · rw [gather_zero]
  · rw [gather_closed closed pace wanted]

end Reading

end Source

end LineageJournal

import LineageJournal.Proofs.Wire.Decoder
import LineageJournal.Stream.Decoding

/-! What a feed delivers. Pulls may be short and may be interrupted, as often as the feed
likes; a delivery says only which bytes come in which order, and whether a failure comes
after them. Whatever is gathered from a feed, and so whatever a decoder makes of it, depends
on nothing else. -/

namespace LineageJournal

variable {σ α : Type} [ByteFeed σ]

/-- `ahead feed bytes` holds where the feed is to deliver the bytes and then to end, or to
fail with `stop`. A pull brings bytes from the front and takes the feed to where the rest is
ahead, and it brings none only at the end. -/
structure IsDelivery (stop : Option Failure) (ahead : σ → List UInt8 → Prop) : Prop where
  of_ok : ∀ {n : Nat} {feed next : σ} {bytes chunk : List UInt8}, ahead feed bytes → 0 < n →
    ByteFeed.pull n feed = (.ok chunk, next) →
      ∃ rest, bytes = chunk ++ rest ∧ ahead next rest ∧ (chunk = [] → bytes = [] ∧ stop = none)
  of_error : ∀ {n : Nat} {feed next : σ} {bytes : List UInt8} {failure : Failure},
    ahead feed bytes → 0 < n → ByteFeed.pull n feed = (.error failure, next) →
      failure.kind = .interrupted ∧ ahead next bytes ∨
        failure.kind ≠ .interrupted ∧ bytes = [] ∧ stop = some failure

/-- The feed delivers exactly these bytes and then ends, or fails with `stop`. -/
def Delivers (feed : σ) (bytes : List UInt8) (stop : Option Failure := none) : Prop :=
  ∃ ahead, IsDelivery stop ahead ∧ ahead feed bytes

theorem isDelivery_delivers (stop : Option Failure) :
    IsDelivery stop fun (feed : σ) bytes => Delivers feed bytes stop where
  of_ok := by
    intro n feed next bytes chunk delivers wanted pulled
    obtain ⟨ahead, delivery, start⟩ := delivers
    obtain ⟨rest, split, after, atEnd⟩ := delivery.of_ok start wanted pulled
    exact ⟨rest, split, ⟨ahead, delivery, after⟩, atEnd⟩
  of_error := by
    intro n feed next bytes failure delivers wanted pulled
    obtain ⟨ahead, delivery, start⟩ := delivers
    rcases delivery.of_error start wanted pulled with ⟨interrupted, after⟩ | stopped
    · exact .inl ⟨interrupted, ahead, delivery, after⟩
    · exact .inr stopped

theorem Pace.request_le (missing : Nat) (pace : Pace) : pace.request missing ≤ missing := by
  cases pace with
  | whole => exact Nat.le_refl missing
  | copying => exact Nat.min_le_right 8192 missing
  | growing buffer => exact Nat.min_le_right buffer.room missing

/-- Where `ahead feed bytes` holds, the feed serves every request that stays within the bytes: a
pull brings some of them from the front, or it fails with `stop`, which may come at any time. -/
structure IsServing (stop : Option Failure) (ahead : σ → List UInt8 → Prop) : Prop where
  of_ok : ∀ {n : Nat} {feed next : σ} {bytes chunk : List UInt8}, ahead feed bytes → 0 < n →
    n ≤ bytes.length → ByteFeed.pull n feed = (.ok chunk, next) →
      chunk ≠ [] ∧ ∃ rest, bytes = chunk ++ rest ∧ ahead next rest
  of_error : ∀ {n : Nat} {feed next : σ} {bytes : List UInt8} {failure : Failure},
    ahead feed bytes → 0 < n → n ≤ bytes.length →
      ByteFeed.pull n feed = (.error failure, next) →
        failure.kind = .interrupted ∧ ahead next bytes ∨
          failure.kind ≠ .interrupted ∧ stop = some failure

namespace IsServing

variable {stop : Option Failure} {ahead : σ → List UInt8 → Prop}

theorem gatherFrom_cases (serving : IsServing stop ahead) (pace : Pace) (earlier : List UInt8)
    (missing : Nat) (feed : σ) {bytes : List UInt8} (start : ahead feed bytes)
    (enough : missing ≤ bytes.length) :
    (∃ next, gatherFrom pace earlier missing feed =
        (.full (earlier.reverse ++ bytes.take missing), next) ∧
      ahead next (bytes.drop missing)) ∨
    ∃ failure next, stop = some failure ∧
      gatherFrom pace earlier missing feed = (.failed failure, next) := by
  fun_induction gatherFrom pace earlier missing feed generalizing bytes with
  | case1 pace earlier feed =>
      exact .inl ⟨feed, by rw [List.take_zero, List.append_nil], start⟩
  | case2 pace earlier missing feed wanted chunk next pulled empty =>
      -- Within the bytes a pull brings some of them, and only the end brings none.
      obtain ⟨nonempty, _⟩ := serving.of_ok start (pace.request_pos (Nat.pos_of_ne_zero wanted))
        (Nat.le_trans (pace.request_le missing) enough) pulled
      exact absurd (List.isEmpty_iff.mp empty) nonempty
  | case3 pace earlier missing feed wanted chunk next pulled nonempty ih =>
      simp only [List.unattach_reverse, List.unattach_attach] at ih
      obtain ⟨_, rest, rfl, after⟩ :=
        serving.of_ok start (pace.request_pos (Nat.pos_of_ne_zero wanted))
          (Nat.le_trans (pace.request_le missing) enough) pulled
      have within : chunk.length ≤ missing :=
        Nat.le_trans (ByteFeed.length_le_of_pull pulled) (pace.request_le missing)
      rw [List.length_append] at enough
      rcases ih after (by omega) with ⟨last, gathered, left⟩ | failed
      · refine .inl ⟨last, ?_, ?_⟩
        · rw [gathered, List.reverse_append, List.reverse_reverse, List.append_assoc,
            List.take_append, List.take_of_length_le within]
        · rw [List.drop_append, List.drop_of_length_le within, List.nil_append]
          exact left
      · exact .inr failed
  | case4 pace earlier missing feed wanted failure next pulled interrupted ih =>
      rcases serving.of_error start (pace.request_pos (Nat.pos_of_ne_zero wanted))
        (Nat.le_trans (pace.request_le missing) enough) pulled with ⟨_, after⟩ | ⟨other, _⟩
      · exact ih after enough
      · exact absurd interrupted other
  | case5 pace earlier missing feed wanted failure next pulled other =>
      rcases serving.of_error start (pace.request_pos (Nat.pos_of_ne_zero wanted))
        (Nat.le_trans (pace.request_le missing) enough) pulled with ⟨interrupted, _⟩ | ⟨_, stops⟩
      · exact absurd interrupted other
      · exact .inr ⟨failure, next, stops, rfl⟩

theorem gather_cases (serving : IsServing stop ahead) (pace : Pace) {count : Nat} {feed : σ}
    {bytes : List UInt8} (start : ahead feed bytes) (enough : count ≤ bytes.length) :
    (∃ next, gather pace count feed = (.full (bytes.take count), next) ∧
      ahead next (bytes.drop count)) ∨
    ∃ failure next, stop = some failure ∧ gather pace count feed = (.failed failure, next) :=
  serving.gatherFrom_cases pace [] count feed start enough

/-- What a decoder reads from the bytes it reads from the feed, if that does not fail, and the
rest of them stays ahead. -/
theorem readFrom_cases (serving : IsServing stop ahead) {decoder : Wire.Decoder α} {feed : σ}
    {bytes rest : List UInt8} {value : α} (start : ahead feed bytes)
    (read : decoder.run bytes = .ok (value, rest)) :
    (∃ next, decoder.readFrom feed = (.ok value, next) ∧ ahead next rest) ∨
    ∃ failure next, stop = some failure ∧ decoder.readFrom feed = (.error failure, next) := by
  induction decoder generalizing feed bytes with
  | done result =>
      cases read
      exact .inl ⟨feed, rfl, start⟩
  | fail fault => cases read
  | take count demand continuation ih =>
      by_cases enough : count ≤ bytes.length
      · rw [Wire.Decoder.run_take enough] at read
        rcases serving.gather_cases demand.pace start enough with
          ⟨middle, gathered, after⟩ | ⟨failure, next, stops, gathered⟩
        · rw [Wire.Decoder.readFrom, gathered]
          exact ih _ after read
        · exact .inr ⟨failure, next, stops, by rw [Wire.Decoder.readFrom, gathered]⟩
      · rw [Wire.Decoder.run_take_of_short (by omega)] at read
        cases read

end IsServing

/-- By pulls from `feed`, which is at `offset`, the other feed has come to the other offset, and
none of the pulls has asked for a byte at `limit` or after it. -/
inductive PullsWithin (limit offset : Nat) (feed : σ) : Nat → σ → Prop where
  | start : PullsWithin limit offset feed offset feed
  | brings {reached n : Nat} {middle next : σ} {chunk : List UInt8}
      (earlier : PullsWithin limit offset feed reached middle) (wanted : 0 < n)
      (within : reached + n ≤ limit) (pulled : ByteFeed.pull n middle = (.ok chunk, next)) :
      PullsWithin limit offset feed (reached + chunk.length) next
  | fails {reached n : Nat} {middle next : σ} {failure : Failure}
      (earlier : PullsWithin limit offset feed reached middle) (wanted : 0 < n)
      (within : reached + n ≤ limit) (pulled : ByteFeed.pull n middle = (.error failure, next)) :
      PullsWithin limit offset feed reached next

theorem PullsWithin.eq_start {limit offset reached : Nat} {feed next : σ}
    (pulls : PullsWithin limit offset feed reached next) (used : limit ≤ offset) :
    reached = offset ∧ next = feed := by
  induction pulls with
  | start => exact ⟨rfl, rfl⟩
  | brings earlier wanted within pulled ih => omega
  | fails earlier wanted within pulled ih => omega

theorem IsServing.pullsWithin {stop : Option Failure} {ahead : σ → List UInt8 → Prop}
    (serving : IsServing stop ahead) (limit offset : Nat) (origin : σ) :
    IsServing stop fun feed bytes => ahead feed bytes ∧
      ∃ reached, reached + bytes.length = limit ∧ PullsWithin limit offset origin reached feed where
  of_ok := by
    rintro n feed next bytes chunk ⟨start, reached, ends, earlier⟩ wanted within pulled
    obtain ⟨nonempty, rest, rfl, after⟩ := serving.of_ok start wanted within pulled
    have asked : reached + n ≤ limit := by omega
    rw [List.length_append] at ends
    exact ⟨nonempty, rest, rfl, after, reached + chunk.length, by omega,
      .brings earlier wanted asked pulled⟩
  of_error := by
    rintro n feed next bytes failure ⟨start, reached, ends, earlier⟩ wanted within pulled
    rcases serving.of_error start wanted within pulled with ⟨interrupted, after⟩ | stopped
    · exact .inl ⟨interrupted, after, reached, ends, .fails earlier wanted (by omega) pulled⟩
    · exact .inr stopped

namespace IsDelivery

variable {stop : Option Failure} {ahead : σ → List UInt8 → Prop}

theorem isServing (delivery : IsDelivery stop ahead) : IsServing none ahead where
  of_ok := by
    intro n feed next bytes chunk start wanted within pulled
    obtain ⟨rest, split, after, atEnd⟩ := delivery.of_ok start wanted pulled
    refine ⟨?_, rest, split, after⟩
    intro nothing
    rw [(atEnd nothing).1, List.length_nil] at within
    omega
  of_error := by
    intro n feed next bytes failure start wanted within pulled
    rcases delivery.of_error start wanted pulled with interrupted | ⟨_, nothing, _⟩
    · exact .inl interrupted
    · rw [nothing, List.length_nil] at within
      omega

theorem isServing_front (delivery : IsDelivery stop ahead) :
    IsServing none fun feed bytes => ∃ beyond, ahead feed (bytes ++ beyond) where
  of_ok := by
    rintro n feed next bytes chunk ⟨beyond, start⟩ wanted within pulled
    have longer : n ≤ (bytes ++ beyond).length := by
      rw [List.length_append]
      omega
    obtain ⟨nonempty, rest, split, after⟩ := delivery.isServing.of_ok start wanted longer pulled
    have short := Nat.le_trans (ByteFeed.length_le_of_pull pulled) within
    obtain ⟨middle, rfl⟩ := List.prefix_of_prefix_length_le ⟨rest, split.symm⟩
      (List.prefix_append bytes beyond) short
    rw [List.append_assoc] at split
    refine ⟨nonempty, middle, rfl, beyond, ?_⟩
    rw [List.append_cancel_left split]
    exact after
  of_error := by
    rintro n feed next bytes failure ⟨beyond, start⟩ wanted within pulled
    have longer : n ≤ (bytes ++ beyond).length := by
      rw [List.length_append]
      omega
    rcases delivery.isServing.of_error start wanted longer pulled with
      ⟨interrupted, after⟩ | ⟨_, never⟩
    · exact .inl ⟨interrupted, beyond, after⟩
    · cases never

/-- Where a delivery fails before the last of the bytes, they are served with that failure, and
never in full. -/
theorem isServing_cut {failure : Failure} (delivery : IsDelivery (some failure) ahead) :
    IsServing (some failure) fun feed bytes =>
      ∃ front missing, bytes = front ++ missing ∧ missing ≠ [] ∧ ahead feed front where
  of_ok := by
    rintro n feed next bytes chunk ⟨front, missing, rfl, lacking, start⟩ wanted - pulled
    obtain ⟨rest, rfl, after, atEnd⟩ := delivery.of_ok start wanted pulled
    have nonempty : chunk ≠ [] := fun nothing => nomatch (atEnd nothing).2
    exact ⟨nonempty, rest ++ missing, List.append_assoc .., rest, missing, rfl, lacking, after⟩
  of_error := by
    rintro n feed next bytes problem ⟨front, missing, rfl, lacking, start⟩ wanted - pulled
    rcases delivery.of_error start wanted pulled with ⟨interrupted, after⟩ | ⟨other, _, stops⟩
    · exact .inl ⟨interrupted, front, missing, rfl, lacking, after⟩
    · exact .inr ⟨other, stops⟩

theorem gather_full (delivery : IsDelivery stop ahead) (pace : Pace) {count : Nat} {feed : σ}
    {bytes : List UInt8} (start : ahead feed bytes) (enough : count ≤ bytes.length) :
    ∃ next, gather pace count feed = (.full (bytes.take count), next) ∧
      ahead next (bytes.drop count) :=
  (delivery.isServing.gather_cases pace start enough).resolve_right
    fun ⟨_, _, never, _⟩ => nomatch never

theorem gather_stopped {failure : Failure} (delivery : IsDelivery (some failure) ahead)
    (pace : Pace) {count : Nat} {feed : σ} {bytes : List UInt8} (start : ahead feed bytes)
    (tooFew : bytes.length < count) :
    ∃ next, gather pace count feed = (.failed failure, next) := by
  let missing := List.replicate (count - bytes.length) (0 : UInt8)
  have length : (bytes ++ missing).length = count := by
    rw [List.length_append, List.length_replicate]
    omega
  have lacking : missing ≠ [] := by
    rw [Ne, List.replicate_eq_nil_iff]
    omega
  rcases delivery.isServing_cut.gather_cases pace ⟨bytes, missing, rfl, lacking, start⟩
    (Nat.le_of_eq length.symm) with ⟨_, _, front, left, split, more, _⟩ | ⟨_, next, ⟨⟩, gathered⟩
  · rw [← length, List.drop_length] at split
    exact absurd (List.append_eq_nil_iff.mp split.symm).2 more
  · exact ⟨next, gathered⟩

theorem gatherFrom_short (delivery : IsDelivery none ahead) (pace : Pace)
    (earlier : List UInt8) (missing : Nat) (feed : σ) {bytes : List UInt8}
    (start : ahead feed bytes) (tooFew : bytes.length < missing) :
    ∃ next, gatherFrom pace earlier missing feed = (.short (earlier.reverse ++ bytes), next) ∧
      ahead next [] := by
  fun_induction gatherFrom pace earlier missing feed generalizing bytes with
  | case1 pace earlier feed => omega
  | case2 pace earlier missing feed wanted chunk next pulled empty =>
      obtain ⟨rest, split, after, atEnd⟩ :=
        delivery.of_ok start (pace.request_pos (Nat.pos_of_ne_zero wanted)) pulled
      obtain ⟨nothing, _⟩ := atEnd (List.isEmpty_iff.mp empty)
      have noRest : rest = [] := (List.append_eq_nil_iff.mp (split.symm.trans nothing)).2
      exact ⟨next, by rw [nothing, List.append_nil], noRest ▸ after⟩
  | case3 pace earlier missing feed wanted chunk next pulled nonempty ih =>
      simp only [List.unattach_reverse, List.unattach_attach] at ih
      obtain ⟨rest, rfl, after, _⟩ :=
        delivery.of_ok start (pace.request_pos (Nat.pos_of_ne_zero wanted)) pulled
      rw [List.length_append] at tooFew
      obtain ⟨last, gathered, left⟩ := ih after (by omega)
      refine ⟨last, ?_, left⟩
      rw [gathered, List.reverse_append, List.reverse_reverse, List.append_assoc]
  | case4 pace earlier missing feed wanted failure next pulled interrupted ih =>
      rcases delivery.of_error start (pace.request_pos (Nat.pos_of_ne_zero wanted)) pulled with
        ⟨_, after⟩ | ⟨other, _⟩
      · exact ih after tooFew
      · exact absurd interrupted other
  | case5 pace earlier missing feed wanted failure next pulled other =>
      rcases delivery.of_error start (pace.request_pos (Nat.pos_of_ne_zero wanted)) pulled with
        ⟨interrupted, _⟩ | ⟨_, _, never⟩
      · exact absurd interrupted other
      · cases never

theorem gather_short (delivery : IsDelivery none ahead) (pace : Pace) {count : Nat} {feed : σ}
    {bytes : List UInt8} (start : ahead feed bytes) (tooFew : bytes.length < count) :
    ∃ next, gather pace count feed = (.short bytes, next) ∧ ahead next [] :=
  delivery.gatherFrom_short pace [] count feed start tooFew

theorem gather_cases (delivery : IsDelivery stop ahead) (pace : Pace) (count : Nat) {feed : σ}
    {bytes : List UInt8} (start : ahead feed bytes) :
    (count ≤ bytes.length ∧ ∃ next, gather pace count feed = (.full (bytes.take count), next) ∧
      ahead next (bytes.drop count)) ∨
    (bytes.length < count ∧ stop = none ∧ ∃ next,
      gather pace count feed = (.short bytes, next) ∧ ahead next []) ∨
    (bytes.length < count ∧ ∃ failure next, stop = some failure ∧
      gather pace count feed = (.failed failure, next)) := by
  rcases Nat.lt_or_ge bytes.length count with tooFew | enough
  · cases stop with
    | none => exact .inr (.inl ⟨tooFew, rfl, delivery.gather_short pace start tooFew⟩)
    | some failure =>
        obtain ⟨next, gathered⟩ := delivery.gather_stopped pace start tooFew
        exact .inr (.inr ⟨tooFew, failure, next, rfl, gathered⟩)
  · exact .inl ⟨enough, delivery.gather_full pace start enough⟩

theorem readFrom_of_run (delivery : IsDelivery stop ahead) {decoder : Wire.Decoder α}
    {feed : σ} {bytes rest : List UInt8} {value : α} (start : ahead feed bytes)
    (read : decoder.run bytes = .ok (value, rest)) :
    ∃ next, decoder.readFrom feed = (.ok value, next) ∧ ahead next rest :=
  (delivery.isServing.readFrom_cases start read).resolve_right fun ⟨_, _, never, _⟩ => nomatch never

theorem readFrom_of_fault (delivery : IsDelivery none ahead) {decoder : Wire.Decoder α}
    {feed : σ} {bytes : List UInt8} {fault : Wire.DecodeFault} (start : ahead feed bytes)
    (faulty : decoder.run bytes = .error fault) :
    ∃ next, decoder.readFrom feed = (.error fault.failure, next) := by
  induction decoder generalizing feed bytes with
  | done result => cases faulty
  | fail other =>
      cases faulty
      exact ⟨feed, rfl⟩
  | take count demand continuation ih =>
      by_cases enough : count ≤ bytes.length
      · rw [Wire.Decoder.run_take enough] at faulty
        obtain ⟨middle, gathered, after⟩ := delivery.gather_full demand.pace start enough
        obtain ⟨next, done⟩ := ih _ after faulty
        exact ⟨next, by rw [Wire.Decoder.readFrom, gathered]; exact done⟩
      · have tooFew : bytes.length < count := by omega
        rw [Wire.Decoder.run_take_of_short tooFew] at faulty
        cases faulty
        obtain ⟨next, gathered, _⟩ := delivery.gather_short demand.pace start tooFew
        exact ⟨next, by rw [Wire.Decoder.readFrom, gathered]⟩

end IsDelivery

end LineageJournal

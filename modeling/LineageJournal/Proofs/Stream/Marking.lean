import LineageJournal.Proofs.Stream.Passing

/-! Marks and resets. A source is read, skipped, marked, reset and closed in any order, while
its feed serves it in pieces of any size and fails when it likes. All the same its position says
which bytes are still to come, its mark holds what has passed since it was set, and a reset
works for as long as no more than the limit has passed. -/

namespace LineageJournal.Source

variable {σ : Type}

inductive Call where
  | read (n : Nat)
  | readByte
  | mark (limit : Nat)
  | reset
  | skip (n : Nat)
  | close
  deriving DecidableEq, Repr

inductive Answer where
  | bytes (result : Except Failure (List UInt8))
  | byte (result : Except Failure (Option UInt8))
  | done (result : Except Failure Unit)

section Calls

variable [ByteFeed σ]

def perform (source : Source σ) : Call → Answer × Source σ
  | .read n => (.bytes (source.read n).1, (source.read n).2)
  | .readByte => (.byte (readByte source).1, (readByte source).2)
  | .mark limit => (.done (.ok ()), source.setMark limit)
  | .reset => (.done source.reset.1, source.reset.2)
  | .skip n => (.done (skipBytes n source).1, (skipBytes n source).2)
  | .close => (.done (.ok ()), source.close)

/-- A call and its answer, with the positions before and after it. -/
structure Exchange where
  call : Call
  answer : Answer
  before : Nat
  after : Nat

def exchange (source : Source σ) (call : Call) : Exchange where
  call := call
  answer := (source.perform call).1
  before := source.consumed
  after := (source.perform call).2.consumed

def performAll : List Call → Source σ → List Exchange × Source σ
  | [], source => ([], source)
  | call :: later, source =>
    let rest := performAll later (source.perform call).2
    (source.exchange call :: rest.1, rest.2)

end Calls

/-- A place to go back to, as the callers know it: where it was marked and with which limit, and
how many bytes have passed since it was marked or gone back to. -/
structure Anchor where
  position : Nat
  limit : Nat
  passed : Nat := 0
  deriving DecidableEq, Repr

/-- The anchor after an exchange. All bytes that are read or skipped count. -/
def anchorAfter (anchor : Option Anchor) (exchange : Exchange) : Option Anchor :=
  match exchange.call, exchange.answer with
  | .mark limit, _ => some { position := exchange.before, limit }
  | .reset, .done (.ok ()) => anchor.map fun known => { known with passed := 0 }
  | .reset, _ => anchor
  | .close, _ => none
  | _, _ => anchor.map fun known =>
      { known with passed := known.passed + (exchange.after - exchange.before) }

def lastAnchor (past : List Exchange) : Option Anchor := past.foldl anchorAfter none

def isOver (past : List Exchange) : Bool := past.any (·.call = .close)

/-- The mark that a source has for the anchor: the bytes of the data that have passed since, as
long as they are not more than the limit. -/
def Anchor.mark? (data : List UInt8) (anchor : Anchor) : Option Mark :=
  if anchor.passed ≤ anchor.limit then
    some
      { position := anchor.position
        limit := anchor.limit
        recorded := .ofList ((data.drop anchor.position).take anchor.passed) }
  else none

/-- Where the data is `data`, the source is what the callers know: the position tells the bytes
that are still to come, and the anchor the mark. -/
structure Account (ahead : σ → List UInt8 → Prop) (data : List UInt8) (anchor : Option Anchor)
    (ended : Bool) (source : Source σ) : Prop where
  closed : source.closed = ended
  within : source.consumed ≤ data.length
  supplied : ended = false →
    ∃ inner, data.drop source.consumed = source.replay ++ inner ∧ ahead source.feed inner
  marked : source.mark = anchor.bind (Anchor.mark? data)
  reached : ∀ known, anchor = some known → known.position + known.passed = source.consumed
  still : ended = true → ∀ known, anchor = some known → known.passed = 0

def Anchor.pass (count : Nat) (anchor : Anchor) : Anchor :=
  { anchor with passed := anchor.passed + count }

variable {ahead : σ → List UInt8 → Prop} {data : List UInt8} {anchor : Option Anchor}
  {ended : Bool} {source : Source σ}

theorem Anchor.record_mark? (known : Anchor) {front : List UInt8}
    (within : known.position + known.passed + front.length ≤ data.length)
    (isFront : (data.drop (known.position + known.passed)).take front.length = front) :
    (known.mark? data).bind (record · front) = (known.pass front.length).mark? data := by
  have size : (ByteLog.ofList ((data.drop known.position).take known.passed)).size =
      known.passed := by
    show ((data.drop known.position).take known.passed).length = known.passed
    rw [List.length_take, List.length_drop]
    omega
  by_cases holds : known.passed ≤ known.limit
  · rw [mark?, if_pos holds, Option.bind_some, record]
    by_cases still : known.passed + front.length ≤ known.limit
    · rw [size, if_neg (Nat.not_lt.mpr still), mark?, pass, if_pos still]
      refine congrArg (fun log => some (Mark.mk known.position known.limit log)) ?_
      apply ByteLog.ext_toList
      rw [ByteLog.toList_append, ByteLog.toList_ofList, ByteLog.toList_ofList, List.take_add,
        List.drop_drop, isFront]
    · rw [size, if_pos (Nat.lt_of_not_le still), mark?, pass, if_neg still]
  · have stillNot : ¬ known.passed + front.length ≤ known.limit := by omega
    rw [mark?, if_neg holds, mark?, pass, if_neg stillNot]
    rfl

theorem Account.markFits (account : Account ahead data anchor ended source) :
    source.MarkFits := by
  intro mark isMark
  obtain ⟨known, -, isMark⟩ := Option.bind_eq_some_iff.mp (account.marked.symm.trans isMark)
  rw [Anchor.mark?] at isMark
  split at isMark
  · rename_i holds
    cases isMark
    exact Nat.le_trans (List.length_take_le _ _) holds
  · cases isMark

theorem Account.pass (account : Account ahead data anchor false source) {front rest : List UInt8}
    {feed : σ} (supplied : ahead feed rest)
    (split : data.drop source.consumed = front ++ ((source.pass front feed).replay ++ rest)) :
    Account ahead data (anchor.map (Anchor.pass front.length)) false (source.pass front feed) := by
  have within : source.consumed + front.length ≤ data.length := by
    have lengths := congrArg List.length split
    have start := account.within
    rw [List.length_drop, List.length_append] at lengths
    omega
  refine ⟨account.closed, within, fun _ => ⟨rest, ?_, supplied⟩, ?_, ?_, fun never => nomatch never⟩
  · show data.drop (source.consumed + front.length) = _
    rw [← List.drop_drop, split, List.drop_left]
  · show source.mark.bind (record · front) = _
    rw [account.marked]
    cases anchor with
    | none => rfl
    | some known =>
        have reached := account.reached known rfl
        refine known.record_mark? (by omega) ?_
        rw [reached, split, List.take_left]
  · intro known isKnown
    obtain ⟨earlier, rfl, rfl⟩ := Option.map_eq_some_iff.mp isKnown
    show earlier.position + (earlier.passed + front.length) = source.consumed + front.length
    rw [← account.reached earlier rfl, Nat.add_assoc]

theorem Account.setMark (account : Account ahead data anchor ended source) (limit : Nat) :
    Account ahead data (some { position := source.consumed, limit }) ended
      (source.setMark limit) where
  closed := account.closed
  within := account.within
  supplied := account.supplied
  marked := by
    rw [Option.bind_some, Anchor.mark?, if_pos (Nat.zero_le limit)]
    rfl
  reached := by
    rintro known ⟨⟩
    rfl
  still := by
    rintro - known ⟨⟩
    rfl

theorem Account.close (account : Account ahead data anchor ended source) :
    Account ahead data none true source.close where
  closed := rfl
  within := account.within
  supplied := fun never => nomatch never
  marked := rfl
  reached := fun _ never => nomatch never
  still := fun _ _ never => nomatch never

theorem Account.reset_cases (account : Account ahead data anchor ended source) :
    (∃ known next, anchor = some known ∧ known.passed ≤ known.limit ∧
      source.reset = (.ok (), next) ∧ next.consumed = known.position ∧
      next.mark = some { position := known.position, limit := known.limit } ∧
      Account ahead data (some { known with passed := 0 }) ended next) ∨
    ((∀ known, anchor = some known → ¬ known.passed ≤ known.limit) ∧
      source.reset = (.error noMark, source)) := by
  by_cases works : ∃ known, anchor = some known ∧ known.passed ≤ known.limit
  · obtain ⟨known, rfl, holds⟩ := works
    have reached := account.reached known rfl
    have isMark := account.marked
    rw [Option.bind_some, Anchor.mark?, if_pos holds] at isMark
    -- What has passed since the mark comes again, before what is left of an earlier replay.
    let recorded := ByteLog.ofList ((data.drop known.position).take known.passed)
    let next : Source σ :=
      { source with
        consumed := known.position
        replay := recorded.toList ++ source.replay
        mark := some { position := known.position, limit := known.limit } }
    have goesBack : source.reset = (.ok (), next) := by rw [Source.reset, isMark]
    refine .inl ⟨known, next, rfl, holds, goesBack, rfl, rfl, account.closed, ?_, ?_, ?_, ?_, ?_⟩
    · have within := account.within
      show known.position ≤ data.length
      omega
    · intro isOpen
      obtain ⟨inner, split, supplied⟩ := account.supplied isOpen
      refine ⟨inner, ?_, supplied⟩
      show data.drop known.position = recorded.toList ++ source.replay ++ inner
      rw [ByteLog.toList_ofList, List.append_assoc, ← split, ← reached, ← List.drop_drop,
        List.take_append_drop]
    · rw [Option.bind_some, Anchor.mark?, if_pos (Nat.zero_le known.limit)]
      rfl
    · rintro later ⟨⟩
      rfl
    · rintro - later ⟨⟩
      rfl
  · have lost : ∀ known, anchor = some known → ¬ known.passed ≤ known.limit :=
      fun known isKnown holds => works ⟨known, isKnown, holds⟩
    have isMark : source.mark = none := by
      rw [account.marked]
      cases anchor with
      | none => rfl
      | some known => exact if_neg (lost known rfl)
    exact .inr ⟨lost, by rw [Source.reset, isMark]⟩

theorem Account.reset_iff (account : Account ahead data anchor ended source) :
    source.reset.1 = .ok () ↔ ∃ known, anchor = some known ∧ known.passed ≤ known.limit := by
  rcases account.reset_cases with ⟨known, next, isKnown, holds, goesBack, -⟩ | ⟨lost, fails⟩
  · rw [goesBack]
    exact ⟨fun _ => ⟨known, isKnown, holds⟩, fun _ => rfl⟩
  · rw [fails]
    refine ⟨(fun works => nomatch works), ?_⟩
    rintro ⟨known, isKnown, holds⟩
    exact absurd holds (lost known isKnown)

theorem Account.reset_ok (account : Account ahead data anchor ended source) {known : Anchor}
    {next : Source σ} (isKnown : anchor = some known) (done : source.reset = (.ok (), next)) :
    next.consumed = known.position ∧
      next.mark = some { position := known.position, limit := known.limit } := by
  rcases account.reset_cases with ⟨same, after, isSame, -, goesBack, back, again, -⟩ | ⟨-, fails⟩
  · cases isKnown.symm.trans isSame
    cases goesBack.symm.trans done
    exact ⟨back, again⟩
  · cases fails.symm.trans done

theorem reset_failed {next : Source σ} {failure : Failure}
    (fails : source.reset = (.error failure, next)) : next = source := by
  rw [Source.reset] at fails
  split at fails <;> cases fails
  rfl

theorem Account.held (account : Account ahead data anchor ended source) {mark : Mark}
    (isMark : source.mark = some mark) :
    ∃ known, anchor = some known ∧ mark.position = known.position ∧ mark.limit = known.limit ∧
      mark.recorded.toList.length ≤ mark.limit ∧
      mark.recorded.toList =
        (data.drop mark.position).take (source.consumed - mark.position) := by
  have fits := account.markFits mark isMark
  rw [← ByteLog.length_toList] at fits
  obtain ⟨known, rfl, knownMark⟩ := Option.bind_eq_some_iff.mp (account.marked.symm.trans isMark)
  have reached := account.reached known rfl
  rw [Anchor.mark?] at knownMark
  split at knownMark
  · cases knownMark
    refine ⟨known, rfl, rfl, rfl, fits, ?_⟩
    rw [ByteLog.toList_ofList, ← reached, Nat.add_sub_cancel_left]
  · cases knownMark

def Moves (ahead : σ → List UInt8 → Prop) (source next : Source σ) : Prop :=
  (source.closed = true → next = source) ∧
    ∀ inner, source.closed = false → ahead source.feed inner → source.MarkFits →
      ∃ front feed rest, next = source.pass front feed ∧ ahead feed rest ∧
        source.replay ++ inner = front ++ (next.replay ++ rest)

theorem Account.of_moves {next : Source σ} (account : Account ahead data anchor ended source)
    (moves : source.Moves ahead next) :
    Account ahead data (anchor.map (Anchor.pass (next.consumed - source.consumed))) ended next := by
  cases ended with
  | true =>
      rw [moves.1 account.closed, Nat.sub_self]
      cases anchor <;> exact account
  | false =>
      obtain ⟨inner, split, supplied⟩ := account.supplied rfl
      obtain ⟨front, feed, rest, rfl, after, whole⟩ :=
        moves.2 inner account.closed supplied account.markFits
      have count : (source.pass front feed).consumed - source.consumed = front.length :=
        Nat.add_sub_cancel_left ..
      rw [count]
      exact account.pass after (split.trans whole)

theorem account_fresh {feed : σ} (start : ahead feed data) :
    Account ahead data none false { feed } where
  closed := rfl
  within := Nat.zero_le data.length
  supplied := fun _ => ⟨data, rfl, start⟩
  marked := rfl
  reached := fun _ never => nomatch never
  still := fun _ _ never => nomatch never

section Runs

variable [ByteFeed σ]

theorem moves_read (supply : IsSupply ahead) (source : Source σ) (n : Nat) :
    source.Moves ahead (source.read n).2 := by
  refine ⟨fun closed => by rw [read_closed closed], fun inner _ supplied fits => ?_⟩
  cases answer : source.read n with
  | mk result next =>
    cases result with
    | ok chunk =>
        obtain ⟨feed, rest, moved, after, split⟩ := read_passes supply supplied answer
        exact ⟨chunk, feed, rest, moved, after, split⟩
    | error failure =>
        have same := read_fails answer
        refine ⟨[], next.feed, inner, ?_, supplied_of_read_fails supply supplied answer, ?_⟩
        · rw [pass_nil fits]
          exact same
        · rw [same]
          rfl

theorem moves_gather (supply : IsSupply ahead) (source : Source σ) (pace : Pace) (count : Nat) :
    source.Moves ahead (gather pace count source).2 := by
  refine ⟨fun closed => gather_closed_snd closed pace count, fun inner _ supplied fits => ?_⟩
  obtain ⟨front, feed, rest, reached, after, split, -⟩ :=
    gather_passes supply fits supplied pace count
  exact ⟨front, feed, rest, reached, after, by rw [reached, split]⟩

theorem readByte_snd (source : Source σ) : (readByte source).2 = (gather .whole 1 source).2 := by
  rw [readByte]
  split <;> rename_i answer <;> rw [answer]

theorem skipBytes_snd (n : Nat) (source : Source σ) :
    (skipBytes n source).2 = (gather .copying n source).2 := by
  rw [skipBytes]
  split <;> rename_i answer <;> rw [answer]

theorem Account.perform (supply : IsSupply ahead)
    (account : Account ahead data anchor ended source) (call : Call) :
    Account ahead data (anchorAfter anchor (source.exchange call))
      (ended || decide (call = .close)) (source.perform call).2 := by
  cases call with
  | read n =>
      rw [decide_eq_false (by simp), Bool.or_false]
      exact account.of_moves (moves_read supply source n)
  | readByte =>
      rw [decide_eq_false (by simp), Bool.or_false]
      have moves := moves_gather supply source .whole 1
      rw [← readByte_snd] at moves
      exact account.of_moves moves
  | mark limit =>
      rw [decide_eq_false (by simp), Bool.or_false]
      exact account.setMark limit
  | reset =>
      rw [decide_eq_false (by simp), Bool.or_false]
      rcases account.reset_cases with ⟨known, next, rfl, -, goesBack, -, -, after⟩ | ⟨-, fails⟩
      · simp only [exchange, Source.perform, goesBack, anchorAfter]
        exact after
      · simp only [exchange, Source.perform, fails, anchorAfter]
        exact account
  | skip n =>
      rw [decide_eq_false (by simp), Bool.or_false]
      have moves := moves_gather supply source .copying n
      rw [← skipBytes_snd] at moves
      exact account.of_moves moves
  | close =>
      rw [decide_eq_true rfl, Bool.or_true]
      exact account.close

theorem Account.performAll (supply : IsSupply ahead) (calls : List Call)
    (account : Account ahead data anchor ended source) :
    Account ahead data ((source.performAll calls).1.foldl anchorAfter anchor)
      (ended || isOver (source.performAll calls).1) (source.performAll calls).2 := by
  induction calls generalizing source anchor ended with
  | nil =>
      rw [Source.performAll, isOver, List.any_nil, Bool.or_false]
      exact account
  | cons call later ih =>
      have after := ih (account.perform supply call)
      rw [Bool.or_assoc] at after
      exact after

/-- The source after the exchanges `past`, where the data is `data`. -/
structure Faithful (ahead : σ → List UInt8 → Prop) (data : List UInt8) (past : List Exchange)
    (source : Source σ) : Prop where
  toCome : isOver past = false →
    ∃ inner, data.drop source.consumed = source.replay ++ inner ∧ ahead source.feed inner
  /-- A mark holds the bytes that have passed since it was set, as many as its limit at most. -/
  held : ∀ mark, source.mark = some mark →
    ∃ known, lastAnchor past = some known ∧ mark.position = known.position ∧
      mark.limit = known.limit ∧ mark.recorded.toList.length ≤ mark.limit ∧
      mark.recorded.toList =
        (data.drop mark.position).take (source.consumed - mark.position)
  /-- What is to be read again comes before anything that the feed brings. -/
  replayed : isOver past = false → source.replay ≠ [] → ∀ n, ∃ next,
    source.read n = (.ok (source.replay.take n), next) ∧ next.feed = source.feed
  pulled : isOver past = false → source.replay = [] → ∀ n, ∃ next,
    source.read n = ((ByteFeed.pull n source.feed).1, next) ∧
      next.feed = (ByteFeed.pull n source.feed).2
  read : ∀ n chunk next, source.read n = (.ok chunk, next) →
    chunk = (data.drop source.consumed).take chunk.length ∧
      next.consumed = source.consumed + chunk.length
  read_failed : ∀ n failure next, source.read n = (.error failure, next) →
    next = { source with feed := next.feed }
  readByte : ∀ byte next, readByte source = (.ok (some byte), next) →
    data[source.consumed]? = some byte ∧ next.consumed = source.consumed + 1
  readByte_nothing : ∀ result next, LineageJournal.readByte source = (result, next) →
    (∀ byte, result ≠ .ok (some byte)) → next = { source with feed := next.feed }
  skip : ∀ n next, skipBytes n source = (.ok (), next) → next.consumed = source.consumed + n
  /-- A skip that fails has passed over fewer bytes. -/
  skip_failed : ∀ n failure next, skipBytes n source = (.error failure, next) →
    source.consumed ≤ next.consumed ∧ next.consumed < source.consumed + n
  /-- A reset succeeds as long as no more than the limit has passed. -/
  reset_iff : source.reset.1 = .ok () ↔
    ∃ known, lastAnchor past = some known ∧ known.passed ≤ known.limit
  reset : ∀ known next, lastAnchor past = some known → source.reset = (.ok (), next) →
    next.consumed = known.position ∧
      next.mark = some { position := known.position, limit := known.limit }
  reset_failed : ∀ failure next, source.reset = (.error failure, next) → next = source
  /-- After the close nothing is read and the position stays. -/
  finished : isOver past = true →
    (∀ n, 0 < n → source.read n = (.error isClosed, source) ∧
      skipBytes n source = (.error isClosed, source)) ∧
    LineageJournal.readByte source = (.error isClosed, source) ∧
    ∀ call, (source.perform call).2.consumed = source.consumed

theorem Account.gathered (supply : IsSupply ahead)
    (account : Account ahead data anchor ended source) (pace : Pace) {count : Nat}
    {outcome : Gathered} {next : Source σ}
    (gathered : LineageJournal.gather pace count source = (outcome, next)) :
    ∃ front feed, next = source.pass front feed ∧ outcome.Brought [] count front ∧
      front = (data.drop source.consumed).take front.length := by
  cases ended with
  | true =>
      have same : source = source.pass [] source.feed := (pass_nil account.markFits _).symm
      rcases Nat.eq_zero_or_pos count with rfl | wanted
      · rw [gather_zero] at gathered
        cases gathered
        exact ⟨[], _, same, .full rfl, rfl⟩
      · rw [gather_closed account.closed pace wanted] at gathered
        cases gathered
        exact ⟨[], _, same, .failed wanted isClosed, rfl⟩
  | false =>
      obtain ⟨inner, whole, supplied⟩ := account.supplied rfl
      obtain ⟨front, feed, rest, moved, -, split, brought⟩ :=
        gather_passes supply account.markFits supplied pace count
      rw [gathered] at moved brought
      refine ⟨front, feed, moved, brought, ?_⟩
      rw [whole, split, List.take_left]

theorem Account.closed_perform (account : Account ahead data anchor true source) (call : Call) :
    (source.perform call).2.consumed = source.consumed := by
  cases call with
  | read n => rw [Source.perform, read_closed account.closed]
  | readByte => rw [Source.perform, readByte_snd, gather_closed_snd account.closed]
  | mark limit => rfl
  | reset =>
      rcases account.reset_cases with ⟨known, next, isKnown, -, goesBack, back, -⟩ | ⟨-, fails⟩
      · rw [Source.perform, goesBack, back, ← account.reached known isKnown,
          account.still rfl known isKnown, Nat.add_zero]
      · rw [Source.perform, fails]
  | skip n => rw [Source.perform, skipBytes_snd, gather_closed_snd account.closed]
  | close => rfl

theorem Account.read_ok (supply : IsSupply ahead)
    (account : Account ahead data anchor ended source) {n : Nat} {chunk : List UInt8}
    {next : Source σ} (done : source.read n = (.ok chunk, next)) :
    chunk = (data.drop source.consumed).take chunk.length ∧
      next.consumed = source.consumed + chunk.length := by
  cases ended with
  | true =>
      rw [read_closed account.closed] at done
      cases done
  | false =>
      obtain ⟨inner, whole, supplied⟩ := account.supplied rfl
      obtain ⟨feed, rest, rfl, -, split⟩ := read_passes supply supplied done
      exact ⟨by rw [whole, split, List.take_left], rfl⟩

theorem Account.readByte_some (supply : IsSupply ahead)
    (account : Account ahead data anchor ended source) {byte : UInt8} {next : Source σ}
    (done : LineageJournal.readByte source = (.ok (some byte), next)) :
    data[source.consumed]? = some byte ∧ next.consumed = source.consumed + 1 := by
  rw [LineageJournal.readByte] at done
  split at done
  · rename_i bytes stopped gathered
    obtain ⟨front, feed, rfl, brought, isFront⟩ := account.gathered supply .whole gathered
    cases brought with
    | full all =>
        obtain ⟨first, rfl⟩ := List.length_eq_one_iff.mp all
        cases done
        have isHead := congrArg List.head? isFront
        rw [List.length_singleton, List.head?_take, if_neg Nat.one_ne_zero, List.head?_drop]
          at isHead
        exact ⟨isHead.symm, rfl⟩
  · cases done
  · cases done

theorem Account.readByte_nothing (supply : IsSupply ahead)
    (account : Account ahead data anchor ended source) {result : Except Failure (Option UInt8)}
    {next : Source σ} (done : LineageJournal.readByte source = (result, next))
    (nothing : ∀ byte, result ≠ .ok (some byte)) : next = { source with feed := next.feed } := by
  cases gathered : LineageJournal.gather .whole 1 source with
  | mk outcome stopped =>
    obtain ⟨front, feed, rfl, brought, -⟩ := account.gathered supply .whole gathered
    have unmoved : front = [] → next = source.pass front feed →
        next = { source with feed := next.feed } := by
      rintro rfl rfl
      rw [pass_nil account.markFits]
    rw [LineageJournal.readByte, gathered] at done
    cases brought with
    | full all =>
        obtain ⟨first, rfl⟩ := List.length_eq_one_iff.mp all
        cases done
        exact absurd rfl (nothing first)
    | short part =>
        cases done
        exact unmoved (List.length_eq_zero_iff.mp (Nat.lt_one_iff.mp part)) rfl
    | failed part failure =>
        cases done
        exact unmoved (List.length_eq_zero_iff.mp (Nat.lt_one_iff.mp part)) rfl

theorem Account.skip_ok (supply : IsSupply ahead)
    (account : Account ahead data anchor ended source) {n : Nat} {next : Source σ}
    (done : skipBytes n source = (.ok (), next)) : next.consumed = source.consumed + n := by
  cases gathered : LineageJournal.gather .copying n source with
  | mk outcome stopped =>
    obtain ⟨front, feed, rfl, brought, -⟩ := account.gathered supply .copying gathered
    rw [skipBytes, gathered] at done
    cases brought with
    | full all =>
        cases done
        exact congrArg (source.consumed + ·) all
    | short part => cases done
    | failed part failure => cases done

theorem Account.skip_failed (supply : IsSupply ahead)
    (account : Account ahead data anchor ended source) {n : Nat} {failure : Failure}
    {next : Source σ} (done : skipBytes n source = (.error failure, next)) :
    source.consumed ≤ next.consumed ∧ next.consumed < source.consumed + n := by
  cases gathered : LineageJournal.gather .copying n source with
  | mk outcome stopped =>
    obtain ⟨front, feed, rfl, brought, -⟩ := account.gathered supply .copying gathered
    rw [skipBytes, gathered] at done
    cases brought with
    | full all => cases done
    | short part =>
        cases done
        exact ⟨Nat.le_add_right .., Nat.add_lt_add_left part _⟩
    | failed part failure =>
        cases done
        exact ⟨Nat.le_add_right .., Nat.add_lt_add_left part _⟩

/-- Whatever calls are made on a source, and in whatever order, over a feed that has the data to
bring, in whatever pieces and with whatever failures in between, the source stays faithful to the
data and to its marks. -/
theorem faithful_of_supply (supply : IsSupply ahead) {feed : σ} (start : ahead feed data)
    (calls : List Call) :
    Faithful ahead data (({ feed } : Source σ).performAll calls).1
      (({ feed } : Source σ).performAll calls).2 := by
  have account := (account_fresh start).performAll supply calls
  rw [Bool.false_or] at account
  exact
    { toCome := account.supplied
      held := fun mark isMark => account.held isMark
      replayed := fun notOver => read_replayed (account.closed.trans notOver)
      pulled := fun notOver => read_pulled (account.closed.trans notOver)
      read := fun n chunk next done => account.read_ok supply done
      read_failed := fun n failure next done => read_fails done
      readByte := fun byte next done => account.readByte_some supply done
      readByte_nothing := fun result next done nothing =>
        account.readByte_nothing supply done nothing
      skip := fun n next done => account.skip_ok supply done
      skip_failed := fun n failure next done => account.skip_failed supply done
      reset_iff := account.reset_iff
      reset := fun known next isKnown done => account.reset_ok isKnown done
      reset_failed := fun failure next done => reset_failed done
      finished := fun isOver => by
        rw [isOver] at account
        refine ⟨fun n wanted => ⟨read_closed account.closed n, ?_⟩, ?_, account.closed_perform⟩
        · rw [skipBytes, gather_closed account.closed .copying wanted]
        · rw [LineageJournal.readByte, gather_closed account.closed .whole Nat.one_pos] }

/-- A feed that fails once after its first byte. The bytes of the mark are read again, and then
more is skipped than the mark allows. -/
theorem faithful_of_supply_failing :
    let feed : ScriptedFeed :=
      { arrivals := [.byte 65, .failure ⟨.other, "injected"⟩ 0, .byte 66, .byte 67]
        chunk := some 2 }
    let run := ({ feed } : Source ScriptedFeed).performAll
      [.mark 2, .read 4, .readByte, .readByte, .reset, .read 1, .skip 2, .reset]
    Faithful ScriptedFeed.Brings [65, 66, 67] run.1 run.2 := by
  intro feed run
  have start : feed.Brings [65, 66, 67] := rfl
  exact faithful_of_supply ScriptedFeed.isSupply_brings start _

end Runs

end LineageJournal.Source

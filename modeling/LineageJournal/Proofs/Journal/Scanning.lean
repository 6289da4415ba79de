import LineageJournal.Proofs.Journal.Reading

/-! Scans of a segment. Records have no length before them, so only decoding tells where the
next one begins; a segment is a sequence of records, and reading it on gives their events in
order, each at its place. -/

namespace LineageJournal

open Wire

/-- Calls `nextRecord` once for each time. Every answer comes with the position after it. -/
def RecordReader.nextRecords {σ : Type} [ByteFeed σ] :
    List Int64 → RecordReader σ → List (Except JournalError (Option Event) × Nat)
  | [], _ => []
  | now :: later, reader =>
    match reader.nextRecord now with
    | (result, next) => (result, next.position) :: next.nextRecords later

/-- Calls at these times read the events, one at each time, until there are no more events or no
more times. If no time is left, it does not matter which reader is the last one. -/
inductive RecordReader.Leads {σ : Type} [ByteFeed σ] :
    List Int64 → RecordReader σ → List (Event × Nat) → List Int64 → RecordReader σ → Prop where
  | stay (times : List Int64) (reader : RecordReader σ) : Leads times reader [] times reader
  | ended (reader last : RecordReader σ) : Leads [] reader [] [] last
  | next {now : Int64} {times left : List Int64} {reader next last : RecordReader σ}
      {event : Event} {records : List (Event × Nat)}
      (answer : reader.nextRecord now = (.ok (some event), next))
      (later : Leads times next records left last) :
      Leads (now :: times) reader ((event, next.position) :: records) left last

theorem RecordReader.Leads.nextRecords {σ : Type} [ByteFeed σ] {reader last : RecordReader σ}
    {times left : List Int64} {records : List (Event × Nat)}
    (leads : Leads times reader records left last) :
    reader.nextRecords times =
      records.map (fun record => (.ok (some record.1), record.2)) ++ last.nextRecords left := by
  induction leads with
  | stay times reader => rfl
  | ended reader last => rfl
  | next answer later ih =>
      rw [RecordReader.nextRecords, answer]
      simp only [ih]
      rfl

theorem RecordReader.At.nextRecords_nil {σ : Type} [ByteFeed σ] {reader : RecordReader σ}
    {layout : Layout} {filename : String} {offset : Nat}
    (place : reader.At layout filename offset []) (times : List Int64) :
    reader.nextRecords times = List.replicate times.length (.ok none, offset) := by
  induction times generalizing reader with
  | nil => rfl
  | cons now later ih =>
      obtain ⟨next, answer, after⟩ := place.nextRecord_nil now
      rw [nextRecords, answer, List.length_cons, List.replicate_succ, ← ih after]
      simp only [after.position]

namespace Records

def accepted (record : Event × Nat) : Except JournalError Event × Nat := (.ok record.1, record.2)

variable {σ : Type} [ByteFeed σ]

/-- Takes one item for each time, with the position after it, and tells whether the items
ended. -/
def scan : List Int64 → Records σ → List (Except JournalError Event × Nat) × Bool
  | [], _ => ([], false)
  | now :: later, records =>
    match records.next now with
    | (none, _) => ([], true)
    | (some item, rest) =>
      match scan later rest with
      | (items, ended) => ((item, rest.reader.position) :: items, ended)

def scanFeed (feed : σ) (version : UInt32) (filename : String) (times : List Int64) :
    Except JournalError (List (Except JournalError Event × Nat) × Bool) :=
  (RecordReader.new feed version filename).map fun reader => scan times { reader }

theorem scan_replicate (now : Int64) (limit : Nat) (records : Records σ) :
    ((scan (.replicate limit now) records).1.map Prod.fst,
      (scan (.replicate limit now) records).2) =
        ((records.take now limit).1, (records.take now limit).2.1) := by
  induction limit generalizing records with
  | zero => rfl
  | succ limit ih =>
      rw [List.replicate_succ, scan, take]
      cases records.next now with
      | mk item rest =>
          cases item with
          | none => rfl
          | some item =>
              have later := ih rest
              simp only [Prod.mk.injEq] at later
              simp only [List.map_cons, later.1, later.2]

theorem scan_finished (reader : RecordReader σ) (now : Int64) (later : List Int64) :
    scan (now :: later) { reader, finished := true } = ([], true) := rfl

section Next

variable {reader next : RecordReader σ} {now : Int64}

theorem next_of_none (answer : reader.nextRecord now = (.ok none, next)) :
    ({ reader } : Records σ).next now = (none, ⟨next, true⟩) := by
  rw [Records.next, if_neg Bool.false_ne_true]
  simp only [answer]

theorem next_of_some {event : Event} (answer : reader.nextRecord now = (.ok (some event), next)) :
    ({ reader } : Records σ).next now = (some (.ok event), ⟨next, false⟩) := by
  rw [Records.next, if_neg Bool.false_ne_true]
  simp only [answer]

theorem next_of_error {error : JournalError}
    (answer : reader.nextRecord now = (.error error, next)) :
    ({ reader } : Records σ).next now = (some (.error error), ⟨next, true⟩) := by
  rw [Records.next, if_neg Bool.false_ne_true]
  simp only [answer]

theorem scan_of_none (answer : reader.nextRecord now = (.ok none, next)) (later : List Int64) :
    scan (now :: later) { reader } = ([], true) := by
  simp only [scan, next_of_none answer]

theorem scan_of_some {event : Event} (answer : reader.nextRecord now = (.ok (some event), next))
    (later : List Int64) :
    scan (now :: later) { reader } =
      ((.ok event, next.position) :: (scan later { reader := next }).1,
        (scan later { reader := next }).2) := by
  simp only [scan, next_of_some answer]

theorem scan_of_leads {last : RecordReader σ} {times left : List Int64}
    {records : List (Event × Nat)} (leads : reader.Leads times records left last) :
    scan times { reader } =
      (records.map accepted ++ (scan left { reader := last }).1,
        (scan left { reader := last }).2) := by
  induction leads with
  | stay times reader => rfl
  | ended reader last => rfl
  | next answer later ih =>
      rw [scan_of_some answer, ih]
      rfl

theorem scan_of_error {error : JournalError} (answer : reader.nextRecord now = (.error error, next))
    (later : List Int64) :
    scan (now :: later) { reader } = ([(.error error, next.position)], !later.isEmpty) := by
  simp only [scan, next_of_error answer]
  cases later with
  | nil => rfl
  | cons time later => rw [scan_finished, List.isEmpty_cons, Bool.not_false]

end Next

end Records

namespace Wire.Layout

/-- From the offset on, the bytes are the records of these events, each listed with the
offset where it ends. -/
inductive Sequence (layout : Layout) (filename : String) :
    Nat → List UInt8 → List (Event × Nat) → Prop where
  | nil (offset : Nat) : Sequence layout filename offset [] []
  | cons {offset : Nat} {record rest : List UInt8} {event : Event}
      {records : List (Event × Nat)} (first : layout.IsRecord filename offset record event)
      (later : Sequence layout filename (offset + record.length) rest records) :
      Sequence layout filename offset (record ++ rest)
        ((event, offset + record.length) :: records)

def readAll (layout : Layout) (times : List Int64) (records : List (Event × Nat)) :
    List (Event × Nat) :=
  List.zipWith (fun now record => (layout.readAt now record.1, record.2)) times records

variable {layout : Layout} {filename : String} {offset : Nat} {bytes rest : List UInt8}
  {records : List (Event × Nat)} {σ : Type} [ByteFeed σ] {reader : RecordReader σ}

theorem readAll_nil (times : List Int64) : layout.readAll times [] = [] := List.zipWith_nil_right

theorem readAll_claimed (times : List Int64) (records : List (Event × Nat)) :
    claimed.readAll times records = records.take times.length := by
  induction times generalizing records with
  | nil => rfl
  | cons now later ih =>
      cases records with
      | nil => rfl
      | cons record records => exact congrArg (record :: ·) (ih records)

namespace Sequence

theorem append {more : List UInt8} {later : List (Event × Nat)}
    (first : layout.Sequence filename offset bytes records)
    (second : layout.Sequence filename (offset + bytes.length) more later) :
    layout.Sequence filename offset (bytes ++ more) (records ++ later) := by
  induction first with
  | nil offset => exact second
  | @cons offset record rest event records first _ ih =>
      rw [List.append_assoc]
      rw [List.length_append, ← Nat.add_assoc] at second
      exact .cons first (ih second)

theorem leads (sequence : layout.Sequence filename offset bytes records)
    (place : reader.At layout filename offset (bytes ++ rest)) (times : List Int64) :
    ∃ last : RecordReader σ, last.At layout filename (offset + bytes.length) rest ∧
      reader.Leads times (layout.readAll times records) (times.drop records.length) last := by
  induction sequence generalizing reader times with
  | nil offset =>
      rw [readAll_nil]
      exact ⟨reader, place, .stay times reader⟩
  | @cons offset record bytes event records first later ih =>
      rw [List.append_assoc] at place
      rw [List.length_append, ← Nat.add_assoc]
      cases times with
      | nil =>
          -- The reader stays where it is, but there is a reader at the end all the same.
          obtain ⟨next, _, after⟩ := place.nextRecord_isRecord first 0
          obtain ⟨last, there, _⟩ := ih after []
          exact ⟨last, there, .ended reader last⟩
      | cons now times =>
          obtain ⟨next, answer, after⟩ := place.nextRecord_isRecord first now
          obtain ⟨last, there, others⟩ := ih after times
          refine ⟨last, there, ?_⟩
          rw [← after.position]
          exact .next answer others

theorem nextRecords (sequence : layout.Sequence filename offset bytes records)
    (place : reader.At layout filename offset (bytes ++ rest)) (times : List Int64) :
    ∃ last : RecordReader σ, last.At layout filename (offset + bytes.length) rest ∧
      reader.nextRecords times =
        (layout.readAll times records).map (fun record => (.ok (some record.1), record.2)) ++
          last.nextRecords (times.drop records.length) := by
  obtain ⟨last, there, leads⟩ := sequence.leads place times
  exact ⟨last, there, leads.nextRecords⟩

theorem scan (sequence : layout.Sequence filename offset bytes records)
    (place : reader.At layout filename offset (bytes ++ rest)) (times : List Int64) :
    ∃ last : RecordReader σ, last.At layout filename (offset + bytes.length) rest ∧
      Records.scan times { reader } =
        ((layout.readAll times records).map Records.accepted ++
            (Records.scan (times.drop records.length) { reader := last }).1,
          (Records.scan (times.drop records.length) { reader := last }).2) := by
  obtain ⟨last, there, leads⟩ := sequence.leads place times
  exact ⟨last, there, Records.scan_of_leads leads⟩

end Sequence

theorem sequence_of_scan {times : List Int64}
    (place : reader.At layout filename offset bytes)
    (clean : Records.scan times { reader } = (records.map Records.accepted, true)) :
    layout.Sequence filename offset bytes records := by
  induction times generalizing reader offset bytes records with
  | nil => exact absurd (congrArg Prod.snd clean) Bool.false_ne_true
  | cons now later ih =>
      by_cases empty : bytes = []
      · subst empty
        obtain ⟨next, answer, _⟩ := place.nextRecord_nil now
        rw [Records.scan_of_none answer] at clean
        have none : records = [] := List.map_eq_nil_iff.mp (congrArg Prod.fst clean).symm
        rw [none]
        exact .nil offset
      · cases read : (layout.record now).run bytes with
        -- A fault would be an item that is no event.
        | error fault =>
            obtain ⟨next, answer⟩ := place.nextRecord_of_fault empty read
            rw [Records.scan_of_error answer] at clean
            cases records <;> simp [Records.accepted] at clean
        | ok decoded =>
            obtain ⟨draft, rest⟩ := decoded
            obtain ⟨record, rfl⟩ := Decoder.suffix_of_run read
            obtain ⟨next, answer, after⟩ := place.nextRecord_of_run read
            rw [List.length_append, Nat.add_sub_cancel] at after
            cases finished : RecordReader.finish filename offset draft with
            | error error =>
                rw [finished] at answer
                rw [Records.scan_of_error answer] at clean
                cases records <;> simp [Records.accepted] at clean
            | ok event =>
                rw [finished] at answer
                rw [Records.scan_of_some answer, after.position] at clean
                cases records with
                | nil => simp at clean
                | cons head records =>
                    simp only [List.map_cons, Records.accepted, Prod.mk.injEq, List.cons.injEq,
                      Except.ok.injEq] at clean
                    obtain ⟨⟨⟨sameEvent, sameStop⟩, tail⟩, ended⟩ := clean
                    have whole : head = (event, offset + record.length) :=
                      Prod.ext sameEvent.symm sameStop.symm
                    rw [whole]
                    refine .cons (isRecord_of_run read finished) (ih after ?_)
                    exact Prod.ext tail ended

end Wire.Layout

end LineageJournal

import LineageJournal.Journal.ParallelWrites
import LineageJournal.Proofs.Journal.Segment
import LineageJournal.Proofs.Stream.Backing

/-! Whole records from parallel writes. The workers share a writer and the buffer in which they
encode, and the steps of others may come between any two steps of a call. Only the holder of
the mutex gets beyond waiting, so what it has put into the buffer and into the sink is still
there when it goes on. The records come out whole, in an order that every worker's own order
allows. -/

namespace LineageJournal

open Wire

section Orders

variable {α : Type} {programs left : List (List α)} {order : List α}

/-- The items of `order` have been taken from the programs, each from the front of one of them,
and `left` is what is left. -/
inductive Taken (programs : List (List α)) : List α → List (List α) → Prop where
  | start : Taken programs [] programs
  | next {order : List α} {left : List (List α)} {index : Nat} {item : α} {rest : List α}
      (earlier : Taken programs order left) (front : left[index]? = some (item :: rest)) :
      Taken programs (order ++ [item]) (left.set index rest)

/-- Every item of the programs comes once, and those of one program come in its order. -/
def IsInterleaving (programs : List (List α)) (order : List α) : Prop :=
  ∃ left, Taken programs order left ∧ ∀ program ∈ left, program = []

theorem perm_flatten_set {item : α} {rest : List α} {index : Nat}
    (front : left[index]? = some (item :: rest)) :
    (item :: (left.set index rest).flatten).Perm left.flatten := by
  induction left generalizing index with
  | nil => cases front
  | cons program others ih =>
      cases index with
      | zero =>
          simp only [List.getElem?_cons_zero, Option.some.injEq] at front
          rw [front]
          exact .refl _
      | succ index =>
          rw [List.set_cons_succ, List.flatten_cons, List.flatten_cons]
          exact List.perm_middle.symm.trans ((ih front).append_left program)

theorem Taken.perm (taken : Taken programs order left) :
    (order ++ left.flatten).Perm programs.flatten := by
  induction taken with
  | start => exact .refl _
  | next earlier front ih =>
      rw [List.append_assoc]
      exact ((perm_flatten_set front).append_left _).trans ih

theorem Taken.length (taken : Taken programs order left) : left.length = programs.length := by
  induction taken with
  | start => rfl
  | next earlier front ih => rw [List.length_set, ih]

theorem IsInterleaving.perm (interleaving : IsInterleaving programs order) :
    order.Perm programs.flatten := by
  obtain ⟨left, taken, empty⟩ := interleaving
  have nothing : left.flatten = [] := List.flatten_eq_nil_iff.mpr empty
  have whole := taken.perm
  rwa [nothing, List.append_nil] at whole

end Orders

namespace WriteCall

def pair (call : WriteCall) : Event × UInt64 := (call.event, call.recordId)

def encode (call : WriteCall) : Except EncodeFault (List UInt8) :=
  call.event.encode call.recordId

def answer (call : WriteCall) : Except JournalError Nat := call.event.recordSize call.recordId

def records (calls : List WriteCall) : List UInt8 := RecordWriter.recordBytes (calls.map pair)

def sizes (calls : List WriteCall) : List Nat := RecordWriter.recordSizes (calls.map pair)

theorem sum_sizes (calls : List WriteCall) : (sizes calls).sum = (records calls).length :=
  RecordWriter.sum_recordSizes (calls.map pair)

variable {call : WriteCall} (earlier : List WriteCall)

theorem records_append_singleton {record : List UInt8} (encoded : call.encode = .ok record) :
    records (earlier ++ [call]) = records earlier ++ record := by
  have encoded : call.event.encode call.recordId = .ok record := encoded
  rw [records, List.map_append, RecordWriter.recordBytes_append]
  simp [records, RecordWriter.recordBytes, pair, encoded]

theorem sizes_append_singleton {record : List UInt8} (encoded : call.encode = .ok record) :
    sizes (earlier ++ [call]) = sizes earlier ++ [record.length] := by
  have encoded : call.event.encode call.recordId = .ok record := encoded
  rw [sizes, List.map_append, RecordWriter.recordSizes_append]
  simp [sizes, RecordWriter.recordSizes, pair, encoded]

theorem records_append_refused {fault : EncodeFault} (refused : call.encode = .error fault) :
    records (earlier ++ [call]) = records earlier := by
  have refused : call.event.encode call.recordId = .error fault := refused
  rw [records, List.map_append, RecordWriter.recordBytes_append]
  simp [records, RecordWriter.recordBytes, pair, refused]

theorem sizes_append_refused {fault : EncodeFault} (refused : call.encode = .error fault) :
    sizes (earlier ++ [call]) = sizes earlier := by
  have refused : call.event.encode call.recordId = .error fault := refused
  rw [sizes, List.map_append, RecordWriter.recordSizes_append]
  simp [sizes, RecordWriter.recordSizes, pair, refused]

theorem length_sizes {calls : List WriteCall}
    (encodable : ∀ call ∈ calls, ∃ record, call.encode = .ok record) :
    (sizes calls).length = calls.length := by
  induction calls with
  | nil => rfl
  | cons call later ih =>
      rw [List.forall_mem_cons] at encodable
      obtain ⟨⟨record, encoded⟩, others⟩ := encodable
      have encoded : call.event.encode call.recordId = .ok record := encoded
      have rest := ih others
      simp only [sizes, List.map_cons, RecordWriter.recordSizes, pair, encoded,
        List.length_cons] at rest ⊢
      exact congrArg (· + 1) rest

end WriteCall

/-! ### What every step preserves -/

namespace ParallelWrites

variable {σ : Type} {valid accepting : σ → Prop} {content : σ → List UInt8}

/-- How far the holder of the mutex is with its call: what the buffer and the sink hold of its
record, and whether it has been counted, where `earlier` was in the sink and `count` records had
been counted before. -/
inductive Progress (content : σ → List UInt8) (earlier : List UInt8) (count : Nat)
    (writer : RecordWriter σ) (buffer : List UInt8) (call : WriteCall) : Phase → Prop where
  | clearing (same : content writer.sink = earlier) (counted : writer.recordsWritten = count) :
      Progress content earlier count writer buffer call .clearing
  | filling (empty : buffer = []) (same : content writer.sink = earlier)
      (counted : writer.recordsWritten = count) :
      Progress content earlier count writer buffer call .filling
  | writing {written : Nat} (encoded : call.encode = .ok buffer)
      (part : content writer.sink = earlier ++ buffer.take written)
      (counted : writer.recordsWritten = count) :
      Progress content earlier count writer buffer call (.writing earlier.length written)
  | flushing (encoded : call.encode = .ok buffer) (whole : content writer.sink = earlier ++ buffer)
      (counted : writer.recordsWritten = count) :
      Progress content earlier count writer buffer call (.flushing earlier.length)
  | counting (encoded : call.encode = .ok buffer) (whole : content writer.sink = earlier ++ buffer)
      (counted : writer.recordsWritten = count) :
      Progress content earlier count writer buffer call (.counting earlier.length)
  | wrote {record : List UInt8} (encoded : call.encode = .ok record)
      (whole : content writer.sink = earlier ++ record)
      (counted : writer.recordsWritten = count + 1) :
      Progress content earlier count writer buffer call (.releasing (.ok record.length))
  | refused {fault : EncodeFault} (refused : call.encode = .error fault)
      (same : content writer.sink = earlier) (counted : writer.recordsWritten = count) :
      Progress content earlier count writer buffer call (.releasing (.error (.ofEncoding fault)))

/-- The state once the calls of `order` have been answered, from `origin` on, and no others but
the one that the holder of the mutex is in. The others wait. -/
structure Sound (valid accepting : σ → Prop) (content : σ → List UInt8)
    (origin : RecordWriter σ) (programs : List (List WriteCall)) (order : List WriteCall)
    (state : ParallelWrites σ) : Prop where
  valid : valid state.writer.sink
  accepts : accepting state.writer.sink
  isOpen : state.writer.closed = false
  taken : Taken programs order (state.workers.map Worker.calls)
  answered : ∀ (index : Nat) (worker : Worker), state.workers[index]? = some worker →
    ∃ done, programs[index]? = some (done ++ worker.calls) ∧
      worker.results.reverse = done.map WriteCall.answer
  waiting : ∀ (index : Nat) (worker : Worker), state.workers[index]? = some worker →
    state.holder ≠ some index → worker.phase = .waiting
  idle : state.holder = none →
    content state.writer.sink = content origin.sink ++ WriteCall.records order ∧
      state.writer.recordsWritten = origin.recordsWritten + (WriteCall.sizes order).length
  busy : ∀ index, state.holder = some index → ∃ (worker : Worker) (call : WriteCall)
    (later : List WriteCall), state.workers[index]? = some worker ∧ worker.calls = call :: later ∧
      Progress content (content origin.sink ++ WriteCall.records order)
        (origin.recordsWritten + (WriteCall.sizes order).length) state.writer state.buffer call
        worker.phase

variable {origin : RecordWriter σ} {programs : List (List WriteCall)} {order : List WriteCall}
  {state : ParallelWrites σ} {index : Nat} {worker : Worker} {call : WriteCall}
  {later : List WriteCall}

theorem getElem?_workers_set (found : state.workers[index]? = some worker) (moved : Worker)
    (other : Nat) :
    (state.workers.set index moved)[other]? =
      if other = index then some moved else state.workers[other]? := by
  obtain ⟨inside, -⟩ := List.getElem?_eq_some_iff.mp found
  by_cases own : other = index
  · rw [if_pos own, own, List.getElem?_set_self inside]
  · rw [if_neg own, List.getElem?_set_ne (Ne.symm own)]

theorem set_of_getElem? {α : Type} {items : List α} {item : α}
    (found : items[index]? = some item) : items.set index item = items := by
  obtain ⟨inside, rfl⟩ := List.getElem?_eq_some_iff.mp found
  exact List.set_getElem_self inside

theorem moveOn_phase (found : state.workers[index]? = some worker) :
    state.moveOn index worker worker.phase = state := by
  rw [moveOn]
  exact congrArg (fun workers => { state with workers }) (set_of_getElem? found)

theorem getElem?_calls (found : state.workers[index]? = some worker) :
    (state.workers.map Worker.calls)[index]? = some worker.calls := by
  rw [List.getElem?_map, found, Option.map_some]

namespace Sound

theorem moved (sound : Sound valid accepting content origin programs order state)
    (found : state.workers[index]? = some worker) (calls : worker.calls = call :: later)
    (writer : RecordWriter σ) (buffer : List UInt8) {phase : Phase} (kept : valid writer.sink)
    (accepts : accepting writer.sink) (isOpen : writer.closed = false)
    (free : ∀ other, state.holder = some other → other = index)
    (progress : Progress content (content origin.sink ++ WriteCall.records order)
      (origin.recordsWritten + (WriteCall.sizes order).length) writer buffer call phase) :
    Sound valid accepting content origin programs order
      { state.moveOn index worker phase with writer, buffer, holder := some index } where
  valid := kept
  accepts := accepts
  isOpen := isOpen
  taken := by
    show Taken programs order ((state.workers.set index { worker with phase }).map Worker.calls)
    rw [List.map_set, set_of_getElem? (getElem?_calls found)]
    exact sound.taken
  answered := by
    intro other seen located
    have located := (getElem?_workers_set found _ other).symm.trans located
    split at located
    · cases located
      rename_i own
      exact own ▸ sound.answered index worker found
    · exact sound.answered other seen located
  waiting := by
    intro other seen located apart
    have apart : other ≠ index := fun own => apart (congrArg some own.symm)
    have located := (getElem?_workers_set found _ other).symm.trans located
    rw [if_neg apart] at located
    exact sound.waiting other seen located fun holds => apart (free other holds)
  idle := by
    intro none
    cases none
  busy := by
    intro other holds
    cases holds
    refine ⟨{ worker with phase }, call, later, ?_, calls, progress⟩
    show (state.workers.set index { worker with phase })[index]? = some { worker with phase }
    rw [getElem?_workers_set found, if_pos rfl]

theorem goesOn (sound : Sound valid accepting content origin programs order state)
    (found : state.workers[index]? = some worker) (calls : worker.calls = call :: later)
    (holds : state.holder = some index) (writer : RecordWriter σ) (buffer : List UInt8)
    {phase : Phase} (kept : valid writer.sink) (accepts : accepting writer.sink)
    (isOpen : writer.closed = false)
    (progress : Progress content (content origin.sink ++ WriteCall.records order)
      (origin.recordsWritten + (WriteCall.sizes order).length) writer buffer call phase) :
    Sound valid accepting content origin programs order
      { state.moveOn index worker phase with writer, buffer } := by
  have next := sound.moved found calls writer buffer kept accepts isOpen
    (fun other owns => Option.some.inj (owns.symm.trans holds)) progress
  rwa [← holds] at next

theorem released (sound : Sound valid accepting content origin programs order state)
    (found : state.workers[index]? = some worker) (calls : worker.calls = call :: later)
    (holds : state.holder = some index)
    (content_eq : content state.writer.sink =
      content origin.sink ++ WriteCall.records (order ++ [call]))
    (count_eq : state.writer.recordsWritten =
      origin.recordsWritten + (WriteCall.sizes (order ++ [call])).length) :
    Sound valid accepting content origin programs (order ++ [call])
      { state with
        holder := none
        workers := state.workers.set index
          { calls := later, phase := .waiting, results := call.answer :: worker.results } } where
  valid := sound.valid
  accepts := sound.accepts
  isOpen := sound.isOpen
  taken := by
    have front := getElem?_calls found
    rw [calls] at front
    show Taken programs (order ++ [call]) ((state.workers.set index _).map Worker.calls)
    rw [List.map_set]
    exact .next sound.taken front
  answered := by
    intro other seen located
    have located := (getElem?_workers_set found _ other).symm.trans located
    split at located
    · cases located
      rename_i own
      subst own
      obtain ⟨done, program, results⟩ := sound.answered other worker found
      refine ⟨done ++ [call], ?_, ?_⟩
      · rw [program, calls, List.append_assoc, List.singleton_append]
      · rw [List.reverse_cons, results, List.map_append, List.map_singleton]
    · exact sound.answered other seen located
  waiting := by
    intro other seen located _
    have located := (getElem?_workers_set found _ other).symm.trans located
    split at located
    · cases located
      rfl
    · rename_i apart
      apply sound.waiting other seen located
      intro owns
      exact apart (Option.some.inj (owns.symm.trans holds))
  idle := fun _ => ⟨content_eq, count_eq⟩
  busy := by
    intro other owns
    cases owns

section Steps

variable [ByteSink σ]

theorem filled (appending : IsAppending valid content)
    (sound : Sound valid accepting content origin programs order state)
    (found : state.workers[index]? = some worker) (calls : worker.calls = call :: later)
    (holds : state.holder = some index)
    (same : content state.writer.sink = content origin.sink ++ WriteCall.records order)
    (counted : state.writer.recordsWritten =
      origin.recordsWritten + (WriteCall.sizes order).length) :
    let record := emitAll (call.event.fields call.recordId)
    let state := { state with buffer := record.bytes }
    Sound valid accepting content origin programs order
      (match record.fault with
      | none => state.moveOn index worker (.writing (ByteSink.bytesWritten state.writer.sink) 0)
      | some fault => state.moveOn index worker (.releasing (.error (.ofEncoding fault)))) := by
  intro record state
  cases missing : record.fault with
  | none =>
      have encoded : call.encode = .ok record.bytes := Emission.toExcept_eq_ok.mpr ⟨missing, rfl⟩
      have base := appending.bytesWritten_eq sound.valid
      rw [same] at base
      simp only [state, base]
      refine sound.goesOn found calls holds state.writer record.bytes sound.valid sound.accepts
        sound.isOpen (.writing encoded ?_ counted)
      rw [List.take_zero, List.append_nil]
      exact same
  | some fault =>
      have refused : call.encode = .error fault := by
        rw [WriteCall.encode, Event.encode, Emission.toExcept, missing]
      exact sound.goesOn found calls holds state.writer record.bytes sound.valid sound.accepts
        sound.isOpen (.refused refused same counted)

theorem offered (appending : IsAppending valid content) (reliable : IsReliable valid accepting)
    (sound : Sound valid accepting content origin programs order state)
    (found : state.workers[index]? = some worker) (calls : worker.calls = call :: later)
    (holds : state.holder = some index) {written : Nat}
    (phase : worker.phase =
      .writing (content origin.sink ++ WriteCall.records order).length written)
    (encoded : call.encode = .ok state.buffer)
    (part : content state.writer.sink =
      content origin.sink ++ WriteCall.records order ++ state.buffer.take written)
    (counted : state.writer.recordsWritten =
      origin.recordsWritten + (WriteCall.sizes order).length)
    (more : written < state.buffer.length) :
    Sound valid accepting content origin programs order
      (state.offer index worker (content origin.sink ++ WriteCall.records order).length
        written) := by
  rw [offer]
  cases wrote : ByteSink.write (state.buffer.drop written) state.writer.sink with
  | mk result sink =>
      cases result with
      | error failure =>
          obtain ⟨accepts, interrupted⟩ :=
            reliable.of_write_error sound.valid sound.accepts wrote
          obtain ⟨kept, taken, _, same, none⟩ := appending.of_write_error sound.valid wrote
          rw [none interrupted, List.append_nil] at same
          have next := sound.goesOn found calls holds { state.writer with sink } state.buffer
            kept accepts sound.isOpen
            (.writing encoded (same.trans part) counted)
          simp only [if_pos interrupted]
          rw [← phase, moveOn_phase found] at next
          exact next
      | ok taken =>
          obtain ⟨accepts, something⟩ := reliable.of_write_ok sound.valid sound.accepts wrote
          obtain ⟨kept, _, grown⟩ := appending.of_write_ok sound.valid wrote
          cases taken with
          -- A sink that does not fail takes a byte at least.
          | zero =>
              have nonempty : state.buffer.drop written ≠ [] := by
                rw [Ne, List.drop_eq_nil_iff]
                omega
              exact absurd rfl (something nonempty)
          | succ taken =>
              rw [part, List.append_assoc, ← List.take_add] at grown
              exact sound.goesOn found calls holds { state.writer with sink } state.buffer
                kept accepts sound.isOpen
                (.writing encoded grown counted)

theorem flushed (appending : IsAppending valid content) (reliable : IsReliable valid accepting)
    (sound : Sound valid accepting content origin programs order state)
    (found : state.workers[index]? = some worker) (calls : worker.calls = call :: later)
    (holds : state.holder = some index) (encoded : call.encode = .ok state.buffer)
    (whole : content state.writer.sink =
      content origin.sink ++ WriteCall.records order ++ state.buffer)
    (counted : state.writer.recordsWritten =
      origin.recordsWritten + (WriteCall.sizes order).length) :
    Sound valid accepting content origin programs order
      (state.flush index worker (content origin.sink ++ WriteCall.records order).length) := by
  obtain ⟨kept, same⟩ := appending.of_flush sound.valid
  obtain ⟨done, accepts⟩ := reliable.of_flush sound.valid sound.accepts
  rw [flush]
  cases emptied : ByteSink.flush state.writer.sink with
  | mk result sink =>
      rw [emptied] at kept same done accepts
      cases done
      exact sound.goesOn found calls holds { state.writer with sink } state.buffer
        kept accepts sound.isOpen
        (.counting encoded (same.trans whole) counted)

theorem counted (appending : IsAppending valid content)
    (sound : Sound valid accepting content origin programs order state) {earlier : List UInt8}
    {record : List UInt8} (whole : content state.writer.sink = earlier ++ record) :
    ByteSink.bytesWritten state.writer.sink - earlier.length = record.length := by
  rw [appending.bytesWritten_eq sound.valid, whole, List.length_append, Nat.add_sub_cancel_left]

theorem advance (appending : IsAppending valid content) (reliable : IsReliable valid accepting)
    (sound : Sound valid accepting content origin programs order state)
    (found : state.workers[index]? = some worker) (calls : worker.calls = call :: later) :
    ∃ next, Sound valid accepting content origin programs next
      (state.advance index worker call later) := by
  -- Only the holder of the mutex gets on, by the phases of its call.
  by_cases holds : state.holder = some index
  · obtain ⟨holder, own, rest, located, same, progress⟩ := sound.busy index holds
    rw [found] at located
    cases located
    rw [calls] at same
    cases same
    rw [ParallelWrites.advance]
    generalize phase : worker.phase = current at progress
    cases progress with
    | clearing same counted =>
        simp only [sound.isOpen, if_neg Bool.false_ne_true]
        exact ⟨order, sound.goesOn found calls holds state.writer []
          sound.valid sound.accepts sound.isOpen (.filling rfl same counted)⟩
    | filling empty same counted =>
        simp only [empty, List.nil_append]
        exact ⟨order, sound.filled appending found calls holds same counted⟩
    | @writing written encoded part counted =>
        dsimp only
        split
        · rename_i more
          exact ⟨order,
            sound.offered appending reliable found calls holds phase encoded part counted more⟩
        · rename_i all
          rw [List.take_of_length_le (by omega)] at part
          exact ⟨order, sound.goesOn found calls holds state.writer state.buffer
            sound.valid sound.accepts sound.isOpen
            (.flushing encoded part counted)⟩
    | flushing encoded whole counted =>
        exact ⟨order, sound.flushed appending reliable found calls holds encoded whole counted⟩
    | counting encoded whole counted =>
        dsimp only
        rw [sound.counted appending whole]
        exact ⟨order, sound.goesOn found calls holds
          { state.writer with recordsWritten := state.writer.recordsWritten + 1 } state.buffer
          sound.valid sound.accepts sound.isOpen
          (.wrote encoded whole (congrArg (· + 1) counted))⟩
    | wrote encoded whole counted =>
        -- The call returns, so it comes last in the order.
        have answer : call.answer = .ok _ := Event.recordSize_of_encode encoded
        dsimp only
        rw [← answer]
        refine ⟨order ++ [call], sound.released found calls holds ?_ ?_⟩
        · rw [WriteCall.records_append_singleton order encoded, whole, List.append_assoc]
        · rw [WriteCall.sizes_append_singleton order encoded, counted, List.length_append,
            List.length_singleton, Nat.add_assoc]
    | refused refused same counted =>
        have answer : call.answer = .error _ := Event.recordSize_of_fault refused
        dsimp only
        rw [← answer]
        refine ⟨order ++ [call], sound.released found calls holds ?_ ?_⟩
        · rw [WriteCall.records_append_refused order refused, same]
        · rw [WriteCall.sizes_append_refused order refused, counted]
  · rw [ParallelWrites.advance, sound.waiting index worker found holds]
    cases holder : state.holder with
    | some other => exact ⟨order, by simpa only [holder] using sound⟩
    | none =>
        obtain ⟨same, counted⟩ := sound.idle holder
        have free : ∀ other, state.holder = some other → other = index := by
          intro other owns
          rw [holder] at owns
          cases owns
        exact ⟨order, sound.moved found calls state.writer state.buffer
          sound.valid sound.accepts sound.isOpen free (.clearing same counted)⟩

theorem step (appending : IsAppending valid content) (reliable : IsReliable valid accepting)
    (sound : Sound valid accepting content origin programs order state) (index : Nat) :
    ∃ next, Sound valid accepting content origin programs next (state.step index) := by
  rw [ParallelWrites.step]
  cases found : state.workers[index]? with
  | none => exact ⟨order, sound⟩
  | some worker =>
      cases calls : worker.calls with
      | nil => exact ⟨order, by simpa only [calls] using sound⟩
      | cons call later =>
          simp only [calls]
          exact sound.advance appending reliable found calls

theorem run (appending : IsAppending valid content) (reliable : IsReliable valid accepting)
    (sound : Sound valid accepting content origin programs order state) (schedule : List Nat) :
    ∃ last, Sound valid accepting content origin programs last (state.run schedule) := by
  induction schedule generalizing order state with
  | nil => exact ⟨order, sound⟩
  | cons index schedule ih =>
      obtain ⟨next, after⟩ := sound.step appending reliable index
      exact ih after

end Steps

end Sound

/-! ### Every call returns -/

/-- The number of bytes that the event puts out, also if it is refused in the end. -/
def volume (call : WriteCall) : Nat := (emitAll (call.event.fields call.recordId)).bytes.length

/-- The steps that a call may still need, if the sink takes its bytes one by one. -/
def stepsLeft (size : Nat) : Phase → Nat
  | .waiting => size + 8
  | .clearing => size + 7
  | .filling => size + 6
  | .writing _ written => size - written + 5
  | .flushing _ => 4
  | .counting _ => 3
  | .releasing _ => 2

def workOf (worker : Worker) : Nat :=
  match worker.calls with
  | [] => 0
  | call :: later =>
    stepsLeft (volume call) worker.phase + (later.map fun call => volume call + 8).sum

theorem workOf_cons (calls : worker.calls = call :: later) :
    workOf worker =
      stepsLeft (volume call) worker.phase + (later.map fun call => volume call + 8).sum := by
  rw [workOf, calls]

theorem workOf_waiting (waiting : worker.phase = .waiting) :
    workOf worker = (worker.calls.map fun call => volume call + 8).sum := by
  cases calls : worker.calls with
  | nil => rw [workOf, calls, List.map_nil, List.sum_nil]
  | cons call later => rw [workOf_cons calls, waiting, stepsLeft, List.map_cons, List.sum_cons]

theorem sum_map_set {α : Type} {items : List α} {item : α} (found : items[index]? = some item)
    (size : α → Nat) (moved : α) :
    ((items.set index moved).map size).sum + size item = (items.map size).sum + size moved := by
  obtain ⟨inside, rfl⟩ := List.getElem?_eq_some_iff.mp found
  have before := ((List.getElem_cons_eraseIdx_perm inside).map size).sum_nat
  have after := ((List.set_perm_cons_eraseIdx inside moved).map size).sum_nat
  rw [List.map_cons, List.sum_cons] at before after
  omega

section Work

variable [ByteSink σ]

/-- What is left to do. Every interruption of the sink makes a step be taken again. -/
def work (state : ParallelWrites σ) : Nat :=
  (state.workers.map workOf).sum + ByteSink.patience state.writer.sink

theorem work_lt {next : ParallelWrites σ} {moved : Worker}
    (found : state.workers[index]? = some worker)
    (moves : next.workers = state.workers.set index moved)
    (spends : workOf moved + ByteSink.patience next.writer.sink <
      workOf worker + ByteSink.patience state.writer.sink) : next.work < state.work := by
  have sums := sum_map_set found workOf moved
  rw [work, work, moves]
  omega

theorem work_moveOn_lt {next : ParallelWrites σ} {phase : Phase}
    (found : state.workers[index]? = some worker) (calls : worker.calls = call :: later)
    (moves : next.workers = state.workers.set index { worker with phase })
    (kept : ByteSink.patience next.writer.sink ≤ ByteSink.patience state.writer.sink)
    (spends : stepsLeft (volume call) phase < stepsLeft (volume call) worker.phase) :
    next.work < state.work := by
  have after : workOf { worker with phase } =
      stepsLeft (volume call) phase + (later.map fun call => volume call + 8).sum :=
    workOf_cons calls
  refine work_lt found moves ?_
  rw [after, workOf_cons calls]
  omega

namespace Sound

theorem work_offer_lt (patient : IsPatient valid)
    (sound : Sound valid accepting content origin programs order state)
    (found : state.workers[index]? = some worker) (calls : worker.calls = call :: later)
    {before written : Nat} (phase : worker.phase = .writing before written)
    (size : volume call = state.buffer.length) (more : written < state.buffer.length) :
    (state.offer index worker before written).work < state.work := by
  rw [offer]
  cases wrote : ByteSink.write (state.buffer.drop written) state.writer.sink with
  | mk result sink =>
      have kept := patient.of_write sound.valid wrote
      obtain failure | _ | taken := result
      · by_cases interrupted : failure.kind = .interrupted
        · simp only [if_pos interrupted]
          refine work_lt found (set_of_getElem? found).symm ?_
          exact Nat.add_lt_add_left (ByteSink.patience_of_interrupted wrote interrupted) _
        · simp only [if_neg interrupted]
          refine work_moveOn_lt found calls rfl kept ?_
          rw [phase, stepsLeft, stepsLeft]
          omega
      · refine work_moveOn_lt found calls rfl kept ?_
        rw [phase, stepsLeft, stepsLeft]
        omega
      · refine work_moveOn_lt found calls rfl kept ?_
        rw [phase, stepsLeft, stepsLeft]
        omega

theorem work_flush_lt (patient : IsPatient valid)
    (sound : Sound valid accepting content origin programs order state)
    (found : state.workers[index]? = some worker) (calls : worker.calls = call :: later)
    {before : Nat} (phase : worker.phase = .flushing before) :
    (state.flush index worker before).work < state.work := by
  have kept := patient.of_flush sound.valid
  rw [flush]
  cases flushed : ByteSink.flush state.writer.sink with
  | mk result sink =>
      rw [flushed] at kept
      cases result
      all_goals
        refine work_moveOn_lt found calls rfl kept ?_
        rw [phase, stepsLeft, stepsLeft]
        omega

theorem work_advance_lt (patient : IsPatient valid)
    (sound : Sound valid accepting content origin programs order state)
    (found : state.workers[index]? = some worker) (calls : worker.calls = call :: later)
    (free : ∀ other, state.holder = some other → other = index) :
    (state.advance index worker call later).work < state.work := by
  rw [ParallelWrites.advance]
  cases holder : state.holder with
  | none =>
      have waiting := sound.waiting index worker found (by simp [holder])
      rw [waiting]
      refine work_moveOn_lt found calls rfl (Nat.le_refl _) ?_
      rw [waiting, stepsLeft, stepsLeft]
      omega
  | some other =>
      have own := free other holder
      subst own
      obtain ⟨_, own, rest, located, same, progress⟩ := sound.busy other holder
      cases found.symm.trans located
      cases calls.symm.trans same
      generalize phase : worker.phase = current at progress
      cases progress with
      | clearing =>
          simp only [sound.isOpen, if_neg Bool.false_ne_true]
          refine work_moveOn_lt found calls rfl (Nat.le_refl _) ?_
          rw [phase, stepsLeft, stepsLeft]
          omega
      | filling =>
          dsimp only
          cases (emitAll (call.event.fields call.recordId)).fault
          all_goals
            refine work_moveOn_lt found calls rfl (Nat.le_refl _) ?_
            rw [phase, stepsLeft, stepsLeft]
            omega
      | @writing written encoded =>
          have size : volume call = state.buffer.length := by
            rw [volume, (Emission.toExcept_eq_ok.mp encoded).2]
          dsimp only
          split
          · rename_i more
            exact sound.work_offer_lt patient found calls phase size more
          · refine work_moveOn_lt found calls rfl (Nat.le_refl _) ?_
            rw [phase, stepsLeft, stepsLeft]
            omega
      | flushing => exact sound.work_flush_lt patient found calls phase
      | counting =>
          refine work_moveOn_lt found calls rfl (Nat.le_refl _) ?_
          rw [phase, stepsLeft, stepsLeft]
          omega
      | wrote | refused =>
          refine work_lt found rfl (Nat.add_lt_add_right ?_ _)
          show _ < workOf worker
          rw [workOf_waiting rfl, workOf_cons calls, phase, stepsLeft]
          exact Nat.lt_add_of_pos_left (by omega)

theorem step_eq_self_or_work_lt (patient : IsPatient valid)
    (sound : Sound valid accepting content origin programs order state) (index : Nat) :
    state.step index = state ∨ (state.step index).work < state.work := by
  rw [ParallelWrites.step]
  cases found : state.workers[index]? with
  | none => exact .inl rfl
  | some worker =>
      cases calls : worker.calls with
      | nil => exact .inl (by simp only [calls])
      | cons call later =>
          simp only [calls]
          by_cases free : ∀ other, state.holder = some other → other = index
          · exact .inr (sound.work_advance_lt patient found calls free)
          · simp only [not_forall] at free
            obtain ⟨other, holds, apart⟩ := free
            have waiting := sound.waiting index worker found
              fun own => apart (Option.some.inj (holds.symm.trans own))
            rw [ParallelWrites.advance, waiting, holds]
            exact .inl rfl

/-- There is a worker that can go on: the holder of the mutex, or any other if there is none. -/
theorem exists_work_step_lt (patient : IsPatient valid)
    (sound : Sound valid accepting content origin programs order state)
    (busy : state.isDone = false) :
    ∃ index ∈ List.range state.workers.length, (state.step index).work < state.work := by
  obtain ⟨index, worker, call, later, found, calls, free⟩ :
      ∃ (index : Nat) (worker : Worker) (call : WriteCall) (later : List WriteCall),
        state.workers[index]? = some worker ∧ worker.calls = call :: later ∧
          ∀ other, state.holder = some other → other = index := by
    cases holder : state.holder with
    | some index =>
        obtain ⟨worker, call, later, found, calls, _⟩ := sound.busy index holder
        exact ⟨index, worker, call, later, found, calls,
          fun other own => (Option.some.inj own).symm⟩
    | none =>
        obtain ⟨worker, member, left⟩ := List.all_eq_false.mp busy
        obtain ⟨index, found⟩ := List.mem_iff_getElem?.mp member
        obtain ⟨call, later, calls⟩ :=
          List.exists_cons_of_ne_nil fun none => left (List.isEmpty_iff.mpr none)
        exact ⟨index, worker, call, later, found, calls, fun _ never => nomatch never⟩
  refine ⟨index, List.mem_range.mpr (List.getElem?_eq_some_iff.mp found).1, ?_⟩
  rw [ParallelWrites.step, found]
  simp only [calls]
  exact sound.work_advance_lt patient found calls free

/-- As long as the steps change nothing, each of them finds the state that the first one found. -/
theorem run_eq_self_or_work_lt (appending : IsAppending valid content)
    (reliable : IsReliable valid accepting) (patient : IsPatient valid)
    (sound : Sound valid accepting content origin programs order state) (schedule : List Nat) :
    (∀ index ∈ schedule, state.step index = state) ∨ (state.run schedule).work < state.work := by
  suffices ((∀ index ∈ schedule, state.step index = state) ∧ state.run schedule = state) ∨
      (state.run schedule).work < state.work from this.imp_left And.left
  induction schedule generalizing order state with
  | nil => exact .inl ⟨List.forall_mem_nil _, rfl⟩
  | cons index later ih =>
      obtain ⟨next, after⟩ := sound.step appending reliable index
      have rest := ih after
      have first : state.run (index :: later) = (state.step index).run later := rfl
      rw [first]
      rcases sound.step_eq_self_or_work_lt patient index with same | less
      · rw [same] at rest ⊢
        refine rest.imp_left ?_
        rintro ⟨still, stays⟩
        exact ⟨List.forall_mem_cons.mpr ⟨same, still⟩, stays⟩
      · rcases rest with ⟨-, stays⟩ | lesser
        · rw [stays]
          exact .inr less
        · exact .inr (Nat.lt_trans lesser less)

theorem isDone_runInTurn (appending : IsAppending valid content)
    (reliable : IsReliable valid accepting) (patient : IsPatient valid)
    (sound : Sound valid accepting content origin programs order state) {rounds : Nat}
    (enough : state.work ≤ rounds) : (state.runInTurn rounds).isDone = true := by
  induction rounds generalizing order state with
  | zero =>
      cases done : state.isDone with
      | true => exact done
      | false =>
          obtain ⟨index, _, less⟩ := sound.exists_work_step_lt patient done
          exact absurd less (by omega)
  | succ rounds ih =>
      rw [runInTurn]
      split
      · assumption
      · rename_i busy
        obtain ⟨index, listed, less⟩ :=
          sound.exists_work_step_lt patient (Bool.eq_false_iff.mpr busy)
        obtain ⟨next, after⟩ :=
          sound.run appending reliable (List.range state.workers.length)
        refine ih after ?_
        -- A round in which nothing changes would have no step that leaves less to do.
        rcases sound.run_eq_self_or_work_lt appending reliable patient
            (List.range state.workers.length) with still | lesser
        · rw [still index listed] at less
          exact absurd less (Nat.lt_irrefl _)
        · omega

end Sound

end Work

/-! ### Whole records -/

/-- Workers that are about to write, whatever an earlier call has left in the buffer. -/
def start (writer : RecordWriter σ) (buffer : List UInt8) (programs : List (List WriteCall)) :
    ParallelWrites σ :=
  { writer, buffer, workers := programs.map fun calls => { calls } }

theorem sound_start {writer : RecordWriter σ} (kept : valid writer.sink)
    (accepts : accepting writer.sink) (isOpen : writer.closed = false) (buffer : List UInt8)
    (programs : List (List WriteCall)) :
    Sound valid accepting content writer programs [] (start writer buffer programs) where
  valid := kept
  accepts := accepts
  isOpen := isOpen
  taken := by
    have same : (start writer buffer programs).workers.map Worker.calls = programs := by
      rw [start, List.map_map]
      exact List.map_id programs
    rw [same]
    exact .start
  answered := by
    intro index worker found
    obtain ⟨calls, program, rfl⟩ := Option.map_eq_some_iff.mp (List.getElem?_map ▸ found)
    exact ⟨[], program, rfl⟩
  waiting := by
    intro index worker found _
    obtain ⟨calls, _, rfl⟩ := Option.map_eq_some_iff.mp (List.getElem?_map ▸ found)
    rfl
  idle _ := ⟨(List.append_nil _).symm, rfl⟩
  busy := by
    intro index holds
    cases holds

theorem Sound.finished (sound : Sound valid accepting content origin programs order state)
    (done : state.isDone = true) :
    state.holder = none ∧ IsInterleaving programs order ∧
      state.workers.map (fun worker => worker.results.reverse) =
        programs.map (·.map WriteCall.answer) := by
  have idle : ∀ worker ∈ state.workers, worker.calls = [] := by
    intro worker member
    exact List.isEmpty_iff.mp (List.all_eq_true.mp done worker member)
  refine ⟨?_, ⟨state.workers.map Worker.calls, sound.taken, ?_⟩, ?_⟩
  · cases holder : state.holder with
    | none => rfl
    | some index =>
        obtain ⟨worker, call, later, found, calls, _⟩ := sound.busy index holder
        rw [idle worker (List.mem_of_getElem? found)] at calls
        cases calls
  · intro program member
    obtain ⟨worker, listed, rfl⟩ := List.mem_map.mp member
    exact idle worker listed
  · have lengths : state.workers.length = programs.length := by
      have kept := sound.taken.length
      rwa [List.length_map] at kept
    apply List.ext_getElem?
    intro index
    rw [List.getElem?_map, List.getElem?_map]
    cases found : state.workers[index]? with
    | none =>
        rw [List.getElem?_eq_none_iff, lengths, ← List.getElem?_eq_none_iff] at found
        rw [found]
        rfl
    | some worker =>
        obtain ⟨calls, program, results⟩ := sound.answered index worker found
        rw [idle worker (List.mem_of_getElem? found), List.append_nil] at program
        rw [program, Option.map_some, Option.map_some, results]

theorem foldl_add {α : Type} (size : α → Nat) (items : List α) (first : Nat) :
    items.foldl (fun sum item => sum + size item) first = first + (items.map size).sum := by
  induction items generalizing first with
  | nil => rfl
  | cons item rest ih => rw [List.foldl_cons, ih, List.map_cons, List.sum_cons, Nat.add_assoc]

theorem roundsFor_eq_workOf (waiting : worker.phase = .waiting) :
    roundsFor worker = workOf worker := by
  rw [workOf_waiting waiting]
  exact (foldl_add (fun call => volume call + 8) worker.calls 0).trans (Nat.zero_add _)

variable [ByteSink σ]

theorem exists_run_of_runInTurn (state : ParallelWrites σ) (rounds : Nat) :
    ∃ schedule, state.runInTurn rounds = state.run schedule := by
  induction rounds generalizing state with
  | zero => exact ⟨[], rfl⟩
  | succ rounds ih =>
      rw [runInTurn]
      split
      · exact ⟨[], rfl⟩
      · obtain ⟨later, same⟩ := ih (state.run (List.range state.workers.length))
        refine ⟨List.range state.workers.length ++ later, ?_⟩
        rw [same, run, run, run, List.foldl_append]

/-- Over a sink that does not fail, and is not interrupted for ever, taking turns brings every call
to its end. -/
theorem isDone_finish (appending : IsAppending valid content)
    (reliable : IsReliable valid accepting) (patient : IsPatient valid) {writer : RecordWriter σ}
    (kept : valid writer.sink) (accepts : accepting writer.sink) (isOpen : writer.closed = false)
    (buffer : List UInt8) (programs : List (List WriteCall)) :
    ∃ schedule,
      (start writer buffer programs).finish = (start writer buffer programs).run schedule ∧
      ((start writer buffer programs).run schedule).isDone = true := by
  have sound : Sound valid accepting content writer programs [] (start writer buffer programs) :=
    sound_start kept accepts isOpen buffer programs
  have rounds : (start writer buffer programs).workers.map roundsFor =
      (start writer buffer programs).workers.map workOf := by
    refine List.map_congr_left fun worker member => roundsFor_eq_workOf ?_
    obtain ⟨calls, _, rfl⟩ := List.mem_map.mp member
    rfl
  have enough : (start writer buffer programs).work ≤
      (start writer buffer programs).workers.foldl (fun rounds worker => rounds + roundsFor worker)
        (ByteSink.patience (start writer buffer programs).writer.sink + 1) := by
    rw [foldl_add, rounds, work]
    omega
  obtain ⟨schedule, same⟩ := exists_run_of_runInTurn (start writer buffer programs) _
  exact ⟨schedule, same, same ▸ sound.isDone_runInTurn appending reliable patient enough⟩

theorem isDone_finish_create (name : String) (capacity : Nat) (programs : List (List WriteCall)) :
    (start { name, sink := FileSink.create capacity } [] programs).finish.isDone = true := by
  let writer : RecordWriter (FileSink DiskFile) := { name, sink := FileSink.create capacity }
  have sound : writer.sink.Sound := ⟨rfl, rfl⟩
  have isOpen : writer.closed = false := rfl
  obtain ⟨schedule, same, done⟩ :=
    isDone_finish FileSink.isAppending FileSink.isReliable (FileSink.isPatient FileSink.Sound)
      sound rfl isOpen [] programs
  rw [same]
  exact done

/-- When all workers are done, whatever the schedule was, a sink that only appends and does not
fail has got the records of all calls, each as a whole and once, in an order that keeps every
worker's own; every call has answered the size of its record, and the writer has counted the
records and their bytes. An event without a record adds nothing and its call says why. -/
theorem written_of_isDone (appending : IsAppending valid content)
    (reliable : IsReliable valid accepting) {writer : RecordWriter σ} (kept : valid writer.sink)
    (accepts : accepting writer.sink) (isOpen : writer.closed = false) (buffer : List UInt8)
    (programs : List (List WriteCall)) (schedule : List Nat)
    (done : ((start writer buffer programs).run schedule).isDone = true) :
    let last := (start writer buffer programs).run schedule
    ∃ order, IsInterleaving programs order ∧
      content last.writer.sink = content writer.sink ++ WriteCall.records order ∧
      last.workers.map (fun worker => worker.results.reverse) =
        programs.map (·.map WriteCall.answer) ∧
      last.writer.recordsWritten = writer.recordsWritten + (WriteCall.sizes order).length ∧
      last.writer.bytesWritten = writer.bytesWritten + (WriteCall.sizes order).sum ∧
      ((∀ call ∈ programs.flatten, ∃ record, call.encode = .ok record) →
        (WriteCall.sizes order).length = (programs.map List.length).sum) := by
  intro last
  obtain ⟨order, sound⟩ :=
    (sound_start kept accepts isOpen buffer programs).run appending reliable schedule
  obtain ⟨free, interleaving, answers⟩ := sound.finished done
  obtain ⟨whole, counted⟩ := sound.idle free
  refine ⟨order, interleaving, whole, answers, counted, ?_, fun encodable => ?_⟩
  · show ByteSink.bytesWritten last.writer.sink = ByteSink.bytesWritten writer.sink + _
    rw [appending.bytesWritten_eq sound.valid, appending.bytesWritten_eq kept, whole,
      List.length_append, WriteCall.sum_sizes]
  · have each : ∀ call ∈ order, ∃ record, call.encode = .ok record := by
      intro call member
      exact encodable call (interleaving.perm.mem_iff.mp member)
    rw [WriteCall.length_sizes each, interleaving.perm.length_eq, List.length_flatten]

/-- Two workers take turns; the second one waits while the first puts its record into the sink
in three pieces. -/
theorem written_of_isDone_receipts :
    let writer : RecordWriter LimitedSink := { name := "segment", sink := { chunk := some 100 } }
    let programs : List (List WriteCall) := [[⟨Event.receipt, 7⟩], [⟨Event.receipt, 8⟩]]
    let schedule := (List.replicate 10 [0, 1]).flatten ++ List.replicate 9 1
    let last := (start writer [7] programs).run schedule
    last.isDone = true ∧ ∃ order, IsInterleaving programs order ∧
      last.writer.sink.bytes = WriteCall.records order ∧ last.writer.recordsWritten = 2 := by
  intro writer programs schedule
  have steady : writer.sink.Steady := ⟨by decide, rfl, rfl, rfl, rfl⟩
  have done : ((start writer [7] programs).run schedule).isDone = true := by
    set_option maxRecDepth 10000 in decide +kernel
  have written := written_of_isDone LimitedSink.isAppending LimitedSink.isReliable trivial steady
    rfl [7] programs schedule done
  generalize (start writer [7] programs).run schedule = last at done written ⊢
  obtain ⟨order, interleaving, whole, _, counted, _, all⟩ := written
  have encodable : ∀ call ∈ programs.flatten, ∃ record, call.encode = .ok record := by
    exact List.forall_mem_cons.mpr ⟨⟨_, rfl⟩, List.forall_mem_singleton.mpr ⟨_, rfl⟩⟩
  rw [all encodable] at counted
  exact ⟨done, order, interleaving, whole, counted⟩

end ParallelWrites

end LineageJournal

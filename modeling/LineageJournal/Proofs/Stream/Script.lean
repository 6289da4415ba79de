import LineageJournal.Proofs.Stream.Delivery
import LineageJournal.Stream.Script

/-! Scripted feeds deliver the bytes before their first failure, in pulls of any bound but
zero. -/

namespace LineageJournal.ScriptedFeed

inductive Ends : Option Failure → List Arrival → Prop where
  | done : Ends none []
  | failing (failure : Failure) (again : Nat) (later : List Arrival) :
      Ends (some failure) (.failure failure again :: later)

variable {stop : Option Failure} {tail : List Arrival}

theorem leadingBytesFrom_map_byte (ends : Ends stop tail) (earlier : List UInt8) (limit : Nat)
    (bytes : List UInt8) :
    leadingBytesFrom earlier limit (bytes.map .byte ++ tail) =
      (earlier.reverse ++ bytes.take limit, (bytes.drop limit).map .byte ++ tail) := by
  induction bytes generalizing earlier limit with
  | nil => cases ends <;> cases limit <;> simp [leadingBytesFrom]
  | cons byte rest ih =>
      cases limit with
      | zero => simp [leadingBytesFrom]
      | succ limit =>
          rw [List.map_cons, List.cons_append, leadingBytesFrom, ih, List.reverse_cons,
            List.append_assoc]
          rfl

theorem pull_map_byte (ends : Ends stop tail) (n : Nat) (byte : UInt8) (rest : List UInt8)
    (chunk : Option Nat) :
    pull n { arrivals := (byte :: rest).map .byte ++ tail, chunk } =
      (.ok ((byte :: rest).take (min n (chunk.getD n))),
        { arrivals := ((byte :: rest).drop (min n (chunk.getD n))).map .byte ++ tail, chunk }) := by
  have leading := leadingBytesFrom_map_byte ends [] (min n (chunk.getD n)) (byte :: rest)
  simp only [pull, List.map_cons, List.cons_append] at leading ⊢
  rw [leading]
  rfl

def Holds (chunk : Option Nat) (stop : Option Failure) (feed : ScriptedFeed)
    (bytes : List UInt8) : Prop :=
  ∃ tail, Ends stop tail ∧ feed = { arrivals := bytes.map .byte ++ tail, chunk }

theorem isDelivery_holds {chunk : Option Nat} (positive : chunk ≠ some 0)
    (lasting : ∀ failure, stop = some failure → failure.kind ≠ .interrupted) :
    IsDelivery stop (Holds chunk stop) where
  of_ok := by
    rintro n feed next bytes front ⟨tail, ends, rfl⟩ wanted pulled
    cases bytes with
    | nil =>
        cases ends with
        | done =>
            have nothing : pull n { arrivals := [], chunk } =
                (.ok [], { arrivals := [], chunk }) := by
              simp [pull, leadingBytesFrom]
            cases nothing.symm.trans pulled
            exact ⟨[], rfl, ⟨[], .done, rfl⟩, fun _ => ⟨rfl, rfl⟩⟩
        | failing failure again later => cases again <;> cases pulled
    | cons byte rest =>
        cases (pull_map_byte ends n byte rest chunk).symm.trans pulled
        refine ⟨_, (List.take_append_drop _ _).symm, ⟨tail, ends, rfl⟩, fun nothing => ?_⟩
        have bound : 0 < min n (chunk.getD n) := by
          cases chunk with
          | none => simpa using wanted
          | some size =>
              have : size ≠ 0 := fun zero => positive (congrArg some zero)
              simp only [Option.getD_some]
              omega
        rcases List.take_eq_nil_iff.mp nothing with zero | empty
        · omega
        · cases empty
  of_error := by
    rintro n feed next bytes failure ⟨tail, ends, rfl⟩ - pulled
    cases bytes with
    | nil =>
        cases ends with
        | done => simp [ByteFeed.pull, pull, leadingBytesFrom] at pulled
        | failing failure again later =>
            cases again <;> cases pulled <;> exact .inr ⟨lasting _ rfl, rfl, rfl⟩
    | cons byte rest => cases (pull_map_byte ends n byte rest chunk).symm.trans pulled

theorem delivers_ofBytes (bytes : List UInt8) : Delivers (ofBytes bytes) bytes := by
  refine ⟨Holds none none, isDelivery_holds (by decide) (fun _ never => nomatch never), [],
    .done, ?_⟩
  rw [ofBytes, List.append_nil]

theorem delivers_failing (bytes : List UInt8) {failure : Failure}
    (lasting : failure.kind ≠ .interrupted) (again : Nat) (later : List Arrival)
    {chunk : Option Nat} (positive : chunk ≠ some 0) :
    Delivers
      ({ arrivals := bytes.map .byte ++ .failure failure again :: later, chunk } : ScriptedFeed)
      bytes (some failure) := by
  refine ⟨Holds chunk (some failure), isDelivery_holds positive ?_, _, .failing .., rfl⟩
  rintro _ ⟨⟩
  exact lasting

end LineageJournal.ScriptedFeed

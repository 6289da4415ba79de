import LineageJournal.Proofs.Wire.Decoder
import LineageJournal.Wire.LegacyDecoder

/-! Records and the clock. The bytes of a record decide everything that is read from them but
the entry date of the legacy layouts, which is the time of reading. -/

namespace LineageJournal.Wire

namespace Decoder

/-- The time of reading is put in after everything else has been read. -/
theorem legacyRecord_eq_bind (version : LegacyVersion) (now : Int64) :
    legacyRecord version now =
      legacyRecord version 0 >>= fun draft => pure { draft with entryDate := now } := by
  simp only [legacyRecord, LawfulMonad.bind_assoc, LawfulMonad.pure_bind]

end Decoder

namespace Layout

def entryDate (layout : Layout) (now recorded : Int64) : Int64 :=
  match layout with
  | legacy _ => now
  | sized => recorded
  | claimed => recorded

variable {layout : Layout} {now : Int64} {bytes rest : List UInt8} {draft : Draft}

theorem run_record_at (read : (layout.record now).run bytes = .ok (draft, rest))
    (later : Int64) :
    (layout.record later).run bytes =
      .ok ({ draft with entryDate := layout.entryDate later draft.entryDate }, rest) := by
  cases layout with
  | legacy version =>
      have read : (Decoder.legacyRecord version now).run bytes = .ok (draft, rest) := read
      change (Decoder.legacyRecord version later).run bytes = _
      rw [Decoder.legacyRecord_eq_bind] at read ⊢
      obtain ⟨timeless, middle, first, last⟩ := Decoder.run_bind_eq_ok read
      cases last
      rw [Decoder.run_bind_of_ok first]
      rfl
  | sized => exact read
  | claimed => exact read

theorem length_lt_of_run_record (read : (layout.record now).run bytes = .ok (draft, rest)) :
    rest.length < bytes.length := by
  have begins : ∃ continuation, layout.record now = Decoder.word 8 >>= continuation := by
    have modern (tail : EventKind × Draft → Decoder Draft) :
        ∃ continuation, Decoder.modernHead >>= tail = Decoder.word 8 >>= continuation := by
      simp only [Decoder.modernHead, Decoder.uint64, LawfulMonad.bind_assoc]
      exact ⟨_, rfl⟩
    cases layout with
    | legacy version => exact ⟨_, LawfulMonad.bind_assoc _ _ _⟩
    | sized => exact modern _
    | claimed => exact modern _
  obtain ⟨continuation, same⟩ := begins
  rw [same] at read
  obtain ⟨eventId, middle, first, remaining⟩ := Decoder.run_bind_eq_ok read
  have bound := (Decoder.suffix_of_run remaining).length_le
  by_cases enough : 8 ≤ bytes.length
  · rw [Decoder.word, Decoder.run_take enough] at first
    cases first
    rw [List.length_drop] at bound
    omega
  · rw [Decoder.word, Decoder.run_take_of_short (by omega)] at first
    cases first

end Layout

end LineageJournal.Wire

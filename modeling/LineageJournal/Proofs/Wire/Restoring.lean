import LineageJournal.Proofs.Wire.LegacyRecord
import LineageJournal.Proofs.Wire.Record
import LineageJournal.Proofs.Wire.Size

/-! Fields written back. Whatever a decoder has taken for a field, the value it gives can be
written, and in no more bytes than were taken: flags are single bytes again, texts come in
standard UTF-8, and of equal keys only one is left. -/

namespace LineageJournal

open Wire

namespace Wire

namespace Emission

structure Within (emission : Emission) (size : Nat) : Prop where
  accepted : emission.fault = none
  short : emission.bytes.length ≤ size

theorem within_empty : empty.Within 0 := ⟨rfl, Nat.le_refl 0⟩

theorem within_word (width n : Nat) : (word width n).Within width :=
  ⟨rfl, Nat.le_of_eq (bigEndian_length width n)⟩

theorem within_flag (value : Bool) : (flag value).Within 1 := ⟨rfl, Nat.le_refl 1⟩

theorem Within.append {first second : Emission} {size more : Nat} (head : first.Within size)
    (tail : second.Within more) : (first ++ second).Within (size + more) where
  accepted := fault_append.mpr ⟨head.accepted, tail.accepted⟩
  short := by
    rw [bytes_append head.accepted, List.length_append]
    exact Nat.add_le_add head.short tail.short

theorem Within.mono {emission : Emission} {size more : Nat} (within : emission.Within size)
    (enough : size ≤ more) : emission.Within more :=
  ⟨within.accepted, Nat.le_trans within.short enough⟩

theorem within_sized {width limit size : Nat} {field text : String}
    (fits : (Utf8.encode text).length ≤ limit) (short : (Utf8.encode text).length ≤ size) :
    (sized width limit field text).Within (width + size) := by
  unfold sized
  simp only [if_pos fits]
  constructor
  · rfl
  · simp only [List.length_append, bigEndian_length]
    omega

section Lists

variable {α : Type} {emit : α → Emission} {items fewer : List α} {size : Nat}

def total (emit : α → Emission) (items : List α) : Nat :=
  (items.map fun item => (emit item).bytes.length).sum

theorem total_le_of_sublist (kept : fewer.Sublist items) :
    total emit fewer ≤ total emit items := by
  induction kept with
  | slnil => exact Nat.le_refl _
  | cons item _ ih => exact Nat.le_trans ih (Nat.le_add_left _ _)
  | cons_cons item _ ih => exact Nat.add_le_add_left ih _

theorem total_le_of_subperm (kept : fewer.Subperm items) : total emit fewer ≤ total emit items := by
  obtain ⟨same, perm, sublist⟩ := kept
  have equal : total emit same = total emit fewer := (perm.map _).sum_nat
  exact equal ▸ total_le_of_sublist sublist

theorem within_counted_iff :
    (counted emit items).Within size ↔
      items.length ≤ maxLongLength ∧ (∀ item ∈ items, (emit item).fault = none) ∧
        4 + total emit items ≤ size := by
  have accepted : (counted emit items).fault = none ↔
      items.length ≤ maxLongLength ∧ ∀ item ∈ items, (emit item).fault = none := by
    rw [← fault_count, ← fault_concat_map]
    exact fault_append
  have length (few : items.length ≤ maxLongLength)
      (each : ∀ item ∈ items, (emit item).fault = none) :
      (counted emit items).bytes.length = 4 + total emit items :=
    takes_counted (fun _ _ => rfl) items (accepted.mpr ⟨few, each⟩)
  constructor
  · intro within
    obtain ⟨few, each⟩ := accepted.mp within.accepted
    exact ⟨few, each, length few each ▸ within.short⟩
  · intro ⟨few, each, short⟩
    exact ⟨accepted.mpr ⟨few, each⟩, length few each ▸ short⟩

theorem Within.counted_of_subperm (within : (counted emit items).Within size)
    (kept : fewer.Subperm items) : (counted emit fewer).Within size := by
  rw [within_counted_iff] at within ⊢
  obtain ⟨few, accepted, short⟩ := within
  have less : total emit fewer ≤ total emit items := total_le_of_subperm kept
  have shorter := kept.length_le
  refine ⟨by omega, ?_, by omega⟩
  intro item member
  exact accepted item (kept.subset member)

end Lists

end Emission

namespace Decoder

variable {α : Type}

/-- What the decoder gives can be written in the bytes that it has used. -/
def Restores (decoder : Decoder α) (emit : α → Emission) : Prop :=
  decoder.Ensures fun used value => (emit value).Within used

theorem ensures_word (width : Nat) :
    (word width).Ensures fun used n => used = width ∧ n < 256 ^ width := by
  apply ensures_take
  intro bytes full
  exact ensures_pure ⟨rfl, full ▸ ofBigEndian_lt bytes⟩

theorem ensures_uint64 : uint64.Ensures fun used _ => used = 8 := by
  apply ensures_bind (ensures_word 8)
  intro used n known
  exact ensures_pure known.1

theorem restores_uint64 : uint64.Restores fun value => .word 8 value.toNat := by
  apply ensures_uint64.imp
  intro used value same
  exact same ▸ Emission.within_word 8 _

theorem restores_millis : millis.Restores fun value => .word 8 value.toUInt64.toNat := by
  apply ensures_bind ensures_uint64
  intro used value same
  exact ensures_pure (same ▸ Emission.within_word 8 _)

theorem ensures_flag : flag.Ensures fun used _ => used = 1 := by
  apply ensures_bind (ensures_word 1)
  intro used n known
  exact ensures_pure known.1

theorem ensures_count : count.Ensures fun used n => used = 4 ∧ n ≤ maxLongLength := by
  apply ensures_bind (ensures_word 4)
  intro used n ⟨same, small⟩
  dsimp only
  split
  · exact ensures_fail _
  · rename_i positive
    have below := toNat_signed32_lt small positive
    exact ensures_pure ⟨same, Nat.le_of_lt_succ below⟩

theorem ensures_textOfShort (bytes : List UInt8) :
    (textOfShort bytes).Ensures fun used text =>
      used = 0 ∧ (Utf8.encode text).length ≤ bytes.length := by
  unfold textOfShort
  split
  · rename_i decoded
    exact ensures_pure ⟨rfl, Utf8.length_le_of_decode decoded⟩
  · split
    · rename_i decoded
      exact ensures_pure ⟨rfl, ModifiedUtf8.length_le_of_decode? decoded⟩
    · exact ensures_fail _

theorem ensures_textOfLong (bytes : List UInt8) :
    (textOfLong bytes).Ensures fun used text =>
      used = 0 ∧ (Utf8.encode text).length ≤ bytes.length := by
  unfold textOfLong
  split
  · rename_i decoded
    exact ensures_pure ⟨rfl, Utf8.length_le_of_decode decoded⟩
  · exact ensures_fail _

theorem restores_short (field : String) : short.Restores (.short field) := by
  apply ensures_bind (ensures_word 2)
  intro used length ⟨same, small⟩
  apply ensures_take
  intro bytes full
  apply (ensures_textOfShort bytes).imp
  intro more text ⟨nothing, shorter⟩
  have fits : length ≤ maxShortLength := Nat.le_of_lt_succ small
  rw [full] at shorter
  rw [same, nothing]
  exact Emission.within_sized (Nat.le_trans shorter fits) shorter

theorem restores_long (field : String) : long.Restores (.long field) := by
  apply ensures_bind (ensures_word 4)
  intro used length ⟨same, small⟩
  dsimp only
  split
  · exact ensures_fail _
  · rename_i positive
    have below := toNat_signed32_lt small positive
    apply ensures_take
    intro bytes full
    apply (ensures_textOfLong bytes).imp
    intro more text ⟨nothing, shorter⟩
    have fits : (signed32 length).toNat ≤ maxLongLength := Nat.le_of_lt_succ below
    rw [full] at shorter
    rw [same, nothing]
    exact Emission.within_sized (Nat.le_trans shorter fits) shorter

theorem restores_nullable {present : Decoder α} {emit : α → Emission}
    (restores : present.Restores emit) : (nullable present).Restores (.nullable emit) := by
  apply ensures_bind ensures_flag
  intro used raised same
  rw [same]
  cases raised with
  | false => exact ensures_pure (Emission.within_flag false)
  | true =>
      apply ensures_bind restores
      intro more value within
      exact ensures_pure ((Emission.within_flag true).append within)

theorem restores_eventKind (field : String) :
    eventKind.Restores fun kind => .short field kind.name := by
  apply ensures_bind (restores_short field)
  intro used name within
  split
  · rename_i kind found
    rw [← EventKind.name_of_ofName? found] at within
    exact ensures_pure within
  · exact ensures_fail _

theorem ensures_uuid : uuid.Ensures fun used _ => used = 16 := by
  apply ensures_bind ensures_uint64
  intro used high same
  apply ensures_bind ensures_uint64
  intro more low equal
  exact ensures_pure (by omega)

theorem restores_uuid : uuid.Restores .uuid := by
  apply ensures_uuid.imp
  intro used id same
  exact same ▸ (Emission.within_word 8 _).append (Emission.within_word 8 _)

theorem ensures_timesFrom {item : Decoder α} {emit : α → Emission} (restores : item.Restores emit)
    (earlier : List α) (count : Nat) :
    (timesFrom item earlier count).Ensures fun used items =>
      ∃ later, items = earlier.reverse ++ later ∧ later.length = count ∧
        (∀ value ∈ later, (emit value).fault = none) ∧ Emission.total emit later ≤ used := by
  induction count generalizing earlier with
  | zero =>
      exact ensures_pure ⟨[], (List.append_nil _).symm, rfl, nofun, Nat.le_refl 0⟩
  | succ count ih =>
      apply ensures_bind restores
      intro used value within
      apply (ih (value :: earlier)).imp
      intro more items ⟨later, same, length, accepted, short⟩
      refine ⟨value :: later, ?_, by rw [List.length_cons, length], ?_, ?_⟩
      · rw [same, List.reverse_cons, List.append_assoc, List.singleton_append]
      · exact List.forall_mem_cons.mpr ⟨within.accepted, accepted⟩
      · exact Nat.add_le_add within.short short

theorem restores_counted {item : Decoder α} {emit : α → Emission}
    (restores : item.Restores emit) : (counted item).Restores (.counted emit) := by
  apply ensures_bind ensures_count
  intro used n ⟨same, few⟩
  apply (ensures_timesFrom restores [] n).imp
  intro more items ⟨later, all, length, accepted, short⟩
  rw [List.reverse_nil, List.nil_append] at all
  rw [all, Emission.within_counted_iff]
  exact ⟨by omega, accepted, by omega⟩

theorem restores_uuids : uuids.Restores (.counted .uuid) := restores_counted restores_uuid

/-- A list is written as the set of its identifiers, so an identifier that came twice is written
once. -/
theorem restores_lineage :
    uuids.Restores fun ids => .counted .uuid (UuidSet.ofList ids).toList := by
  apply restores_uuids.imp
  intro used ids within
  exact within.counted_of_subperm (UuidSet.toList_ofList_subperm ids)

theorem restores_map {κ ν : Type} [KeyOrder κ] {entry : Decoder (κ × ν)}
    {emit : κ × ν → Emission} (restores : entry.Restores emit) :
    (counted entry >>= fun entries => pure (SortedMap.ofList entries)).Restores
      fun map => .counted emit map.entries := by
  apply ensures_bind (restores_counted restores)
  intro used entries within
  exact ensures_pure (within.counted_of_subperm (SortedMap.entries_ofList_subperm entries))

theorem restores_attributes :
    attributes.Restores fun map => .counted .attributeEntry map.entries := by
  apply restores_map
  apply ensures_bind (restores_long "attribute key")
  intro used key first
  apply ensures_bind (restores_long "attribute value")
  intro more value second
  exact ensures_pure (first.append second)

theorem restores_updates : updates.Restores fun map => .counted .updateEntry map.entries := by
  apply restores_map
  apply ensures_bind (restores_long "attribute key")
  intro used key first
  apply ensures_bind (restores_nullable (restores_long "attribute value"))
  intro more value second
  exact ensures_pure (first.append second)

end Decoder

end Wire

end LineageJournal

import LineageJournal.Wire.Field

/-! Emissions and their faults. The first part that is refused decides why the whole is, and
nothing is refused where every length and every count has room. -/

namespace LineageJournal.Wire

namespace Emission

theorem empty_append (emission : Emission) : empty ++ emission = emission := rfl

theorem append_empty (emission : Emission) : emission ++ empty = emission := by
  obtain ⟨bytes, fault⟩ := emission
  cases fault with
  | none =>
      change Emission.mk (bytes ++ []) none = _
      rw [List.append_nil]
  | some fault => rfl

theorem append_assoc (first second third : Emission) :
    first ++ second ++ third = first ++ (second ++ third) := by
  obtain ⟨bytes, _ | fault⟩ := first
  · obtain ⟨more, _ | fault⟩ := second
    · change Emission.mk (bytes ++ more ++ third.bytes) third.fault = _
      rw [List.append_assoc]
      rfl
    · rfl
  · rfl

theorem bytes_append {first second : Emission} (accepted : first.fault = none) :
    (first ++ second).bytes = first.bytes ++ second.bytes := by
  obtain ⟨bytes, _ | fault⟩ := first
  · rfl
  · cases accepted

theorem toExcept_eq_ok {emission : Emission} {bytes : List UInt8} :
    emission.toExcept = .ok bytes ↔ emission.fault = none ∧ emission.bytes = bytes := by
  obtain ⟨out, _ | fault⟩ := emission
  · simp [toExcept]
  · simp [toExcept]

theorem toExcept_eq_error {emission : Emission} {fault : EncodeFault} :
    emission.toExcept = .error fault ↔ emission.fault = some fault := by
  obtain ⟨out, _ | other⟩ := emission
  · simp [toExcept]
  · simp [toExcept]

theorem fault_append_eq_or (first second : Emission) :
    (first ++ second).fault = first.fault.or second.fault := by
  obtain ⟨bytes, _ | fault⟩ := first
  · rfl
  · rfl

theorem fault_append {first second : Emission} :
    (first ++ second).fault = none ↔ first.fault = none ∧ second.fault = none := by
  rw [fault_append_eq_or, Option.or_eq_none_iff]

theorem fault_concat_eq_findSome? (emissions : List Emission) :
    (concat emissions).fault = emissions.findSome? Emission.fault := by
  induction emissions with
  | nil => rfl
  | cons emission rest ih =>
      change (emission ++ concat rest).fault = _
      rw [fault_append_eq_or, ih, List.findSome?_cons]
      cases emission.fault <;> rfl

theorem fault_concat {emissions : List Emission} :
    (concat emissions).fault = none ↔ ∀ emission ∈ emissions, emission.fault = none := by
  rw [fault_concat_eq_findSome?, List.findSome?_eq_none_iff]

theorem fault_count {n : Nat} : (count n).fault = none ↔ n ≤ maxLongLength := by
  unfold count
  split
  · rename_i few
    exact iff_of_true rfl few
  · rename_i many
    exact iff_of_false nofun many

theorem fault_sized (width limit : Nat) (field text : String) :
    (sized width limit field text).fault =
      if (Utf8.encode text).length ≤ limit then none
      else some (.stringTooLong field (Utf8.encode text).length limit) :=
  apply_ite Emission.fault _ _ _

theorem fault_short {field text : String} :
    (short field text).fault = none ↔ (Utf8.encode text).length ≤ maxShortLength := by
  rw [short, fault_sized, ite_eq_left_iff]
  simp

theorem fault_long {field text : String} :
    (long field text).fault = none ↔ (Utf8.encode text).length ≤ maxLongLength := by
  rw [long, fault_sized, ite_eq_left_iff]
  simp

section Items

variable {α : Type} {emit : α → Emission}

theorem fault_nullable_eq_bind (value : Option α) :
    (nullable emit value).fault = value.bind fun written => (emit written).fault := by
  cases value with
  | none => rfl
  | some written => exact fault_append_eq_or (flag true) (emit written)

theorem fault_nullable {value : Option α}
    (accepted : ∀ written ∈ value, (emit written).fault = none) :
    (nullable emit value).fault = none := by
  rw [fault_nullable_eq_bind, Option.bind_eq_none_iff]
  exact accepted

theorem fault_concat_map {items : List α} :
    (concat (items.map emit)).fault = none ↔ ∀ item ∈ items, (emit item).fault = none := by
  rw [fault_concat]
  simp

theorem fault_counted {items : List α} (fits : items.length ≤ maxLongLength)
    (accepted : ∀ item ∈ items, (emit item).fault = none) :
    (counted emit items).fault = none :=
  fault_append.mpr ⟨fault_count.mpr fits, fault_concat_map.mpr accepted⟩

end Items

theorem fault_uuids {ids : List Uuid} (fits : ids.length ≤ maxLongLength) :
    (counted uuid ids).fault = none :=
  fault_counted fits fun _ _ => rfl

theorem fault_attributes {entries : List (String × String)}
    (fits : entries.length ≤ maxLongLength)
    (keys : ∀ entry ∈ entries, (Utf8.encode entry.1).length ≤ maxLongLength)
    (values : ∀ entry ∈ entries, (Utf8.encode entry.2).length ≤ maxLongLength) :
    (counted attributeEntry entries).fault = none :=
  fault_counted fits fun entry listed => fault_append.mpr
    ⟨fault_long.mpr (keys entry listed), fault_long.mpr (values entry listed)⟩

end Emission

theorem emitAll_nil : emitAll [] = .empty := rfl

theorem emitAll_cons (field : Field) (rest : List Field) :
    emitAll (field :: rest) = field.emit ++ emitAll rest := rfl

theorem emitAll_append (first second : List Field) :
    emitAll (first ++ second) = emitAll first ++ emitAll second := by
  induction first with
  | nil => rfl
  | cons field rest ih =>
      rw [List.cons_append, emitAll_cons, emitAll_cons, ih, Emission.append_assoc]

end LineageJournal.Wire

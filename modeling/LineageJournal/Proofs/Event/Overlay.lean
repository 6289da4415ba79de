import LineageJournal.Proofs.SortedMap
import LineageJournal.Proofs.Wire.Record

/-! Attributes after an event. Every key is looked up in the changes first, and only where these
say nothing about it in the attributes before the event. So it does not matter in which order the
changes are made, nor whether they are made again, and a record carries all that is needed. -/

namespace LineageJournal

open Wire

namespace Event

theorem get?_applyUpdate (base : Attributes) (change : String × Option String) (key : String) :
    (applyUpdate base change).get? key = ([change].lookup key).getD (base.get? key) := by
  obtain ⟨changed, _ | value⟩ := change
  · rw [applyUpdate, SortedMap.get?_erase, List.lookup_cons]
    cases key == changed <;> rfl
  · rw [applyUpdate, SortedMap.get?_insert_eq_or, List.lookup_cons, List.lookup_cons]
    cases key == changed <;> rfl

theorem get?_foldl_applyUpdate (base : Attributes) (changes : List (String × Option String))
    (key : String) :
    (changes.foldl applyUpdate base).get? key =
      (changes.reverse.lookup key).getD (base.get? key) := by
  induction changes generalizing base with
  | nil => rfl
  | cons change later ih =>
      calc
        (later.foldl applyUpdate (applyUpdate base change)).get? key
          = (later.reverse.lookup key).getD ((applyUpdate base change).get? key) := ih _
        _ = ((later.reverse.lookup key).or ([change].lookup key)).getD (base.get? key) := by
          rw [get?_applyUpdate, Option.getD_or]
        _ = ((change :: later).reverse.lookup key).getD (base.get? key) := by
          rw [List.reverse_cons, List.lookup_append]

theorem get?_foldl_of_perm (base : Attributes) {updates : AttributeUpdates}
    {order : List (String × Option String)} (perm : order.Perm updates.entries) (key : String) :
    (order.foldl applyUpdate base).get? key = (updates.get? key).getD (base.get? key) := by
  have turned : order.reverse.Perm updates.entries := (List.reverse_perm order).trans perm
  rw [get?_foldl_applyUpdate, lookup_of_perm updates.keys_nodup turned,
    ← SortedMap.get?_eq_lookup updates]

theorem get?_attributes (event : Event) (key : String) :
    event.attributes.get? key =
      (event.updatedAttributes.get? key).getD (event.previousAttributes.get? key) :=
  get?_foldl_of_perm event.previousAttributes (List.Perm.refl _) key

/-- What the attributes after an event are. -/
structure IsOverlaid (event : Event) : Prop where
  found : ∀ key, event.attributes.get? key =
    match event.updatedAttributes.get? key with
    | some (some value) => some value
    | some none => none
    | none => event.previousAttributes.get? key
  ascending : event.attributes.keys.Pairwise (· < ·)
  once : event.attributes.keys.Nodup
  anyOrder : ∀ order : List (String × Option String),
    order.Perm event.updatedAttributes.entries →
    order.foldl applyUpdate event.previousAttributes = event.attributes
  again : { event with previousAttributes := event.attributes }.attributes = event.attributes
  readBack : ∀ {recordId : UInt64} {record : List UInt8}, event.encode recordId = .ok record →
    ∀ (rest : List UInt8) (now : Int64), ∃ draft read,
      (Layout.claimed.record now).run (record ++ rest) = .ok (draft, rest) ∧
        draft.build = .ok read ∧ read.attributes = event.attributes

/-- After an event an attribute has its new value if it was given one, is missing if it was
removed, whether or not it was there before, and is otherwise what it was before; its keys are in
increasing order, each once. The changes may be made in any order, and to make them again changes
nothing. An event that is read back from its record has the same attributes. -/
theorem attributes_overlay (event : Event) : event.IsOverlaid := by
  constructor
  case found =>
    intro key
    rw [get?_attributes]
    obtain _ | _ | value := event.updatedAttributes.get? key <;> rfl
  case ascending => exact event.attributes.keys_pairwise
  case once => exact event.attributes.keys_nodup
  case anyOrder =>
    intro order perm
    refine SortedMap.ext_get? fun key => ?_
    rw [get?_foldl_of_perm event.previousAttributes perm, get?_attributes]
  case again =>
    refine SortedMap.ext_get? fun key => ?_
    rw [get?_attributes, get?_attributes]
    cases event.updatedAttributes.get? key <;> rfl
  case readBack =>
    intro recordId record encoded rest now
    exact ⟨_, _, run_record_draftOf encoded rest now, build_draftOf event _, rfl⟩

theorem attributes_overlay_receipt :
    receipt.attributes.entries = [("a", ""), ("c", "2")] ∧
      [("c", some "2"), ("b", none)].foldl applyUpdate receipt.previousAttributes =
        receipt.attributes ∧
      ∃ record, receipt.encode 7 = .ok record ∧ ∃ draft read,
        (Layout.claimed.record 0).run (record ++ [0xFF]) = .ok (draft, [0xFF]) ∧
          draft.build = .ok read ∧ read.attributes = receipt.attributes := by
  have overlaid := attributes_overlay receipt
  exact ⟨rfl, overlaid.anyOrder _ (List.Perm.swap _ _ []), _, rfl,
    overlaid.readBack rfl [0xFF] 0⟩

end Event

end LineageJournal

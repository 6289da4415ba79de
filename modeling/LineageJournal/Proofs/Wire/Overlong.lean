import LineageJournal.Proofs.Wire.Record

/-! Records that are refused. Where every four-byte length has room, a record is refused for a
text whose two bytes of length are too few, and the first such text that the record carries is
the one that the fault names. -/

namespace LineageJournal

open Wire

def ContentClaim.texts (claim : Option ContentClaim) : List (String × Option String) :=
  [("claim_container", claim.bind (·.container)),
    ("claim_section", claim.bind (·.sectionName)),
    ("claim_identifier", claim.bind (·.identifier))]

def Event.tailTexts (event : Event) : List (String × Option String) :=
  [("transit_uri", event.transitUri),
    ("source_system_flow_file_identifier", event.sourceSystemId),
    ("alternate_identifier_uri", event.alternateUri),
    ("relationship", event.relationship)]

/-- The texts of an event in wire order, under the names that faults report. -/
def Event.texts (event : Event) : List (String × Option String) :=
  [("component_id", event.componentId),
    ("component_type", event.componentType),
    ("details", event.details)] ++
  ContentClaim.texts (some event.currentClaim) ++
  ContentClaim.texts event.previousClaim ++
  ("source_queue_identifier", event.sourceQueue) :: event.tailTexts

def IsOverlong (entry : String × Option String) : Prop :=
  ∃ text, entry.2 = some text ∧ maxShortLength < (Utf8.encode text).length

def overlong? (entry : String × Option String) : Option EncodeFault :=
  entry.2.bind fun text => (Emission.short entry.1 text).fault

theorem overlong?_eq_some {entry : String × Option String} {fault : EncodeFault} :
    overlong? entry = some fault ↔
      ∃ text, entry.2 = some text ∧ maxShortLength < (Utf8.encode text).length ∧
        fault = .stringTooLong entry.1 (Utf8.encode text).length maxShortLength := by
  rw [overlong?, Option.bind_eq_some_iff]
  refine exists_congr fun text => and_congr_right fun _ => ?_
  rw [Emission.short, Emission.fault_sized]
  split
  · rename_i short
    exact iff_of_false (Option.some_ne_none fault).symm fun long =>
      absurd long.1 (Nat.not_lt.mpr short)
  · rename_i long
    rw [Option.some_inj]
    exact ⟨fun same => ⟨Nat.lt_of_not_le long, same.symm⟩, fun same => same.2.symm⟩

theorem overlong?_eq_none {entry : String × Option String} :
    overlong? entry = none ↔ ¬ IsOverlong entry := by
  rw [Option.eq_none_iff_forall_ne_some]
  constructor
  · rintro none ⟨text, present, long⟩
    exact none _ (overlong?_eq_some.mpr ⟨text, present, long, rfl⟩)
  · intro short fault found
    obtain ⟨text, present, long, -⟩ := overlong?_eq_some.mp found
    exact short ⟨text, present, long⟩

instance : DecidablePred IsOverlong := fun entry =>
  decidable_of_iff (overlong? entry ≠ none) (by rw [Ne, overlong?_eq_none, not_not])

namespace Wire

theorem fault_emitAll_cons (field : Field) (rest : List Field) :
    (emitAll (field :: rest)).fault = field.emit.fault.or (emitAll rest).fault :=
  Emission.fault_append_eq_or _ _

theorem fault_emitAll_append (first second : List Field) :
    (emitAll (first ++ second)).fault = (emitAll first).fault.or (emitAll second).fault := by
  rw [emitAll_append, Emission.fault_append_eq_or]

theorem Field.fault_nullableShort (name : String) (text : Option String) :
    (Field.emit { name, value := .nullableShort text }).fault = overlong? (name, text) :=
  Emission.fault_nullable_eq_bind text

end Wire

theorem findSome?_cons_eq_or {α β : Type} (f : α → Option β) (first : α) (rest : List α) :
    (first :: rest).findSome? f = (f first).or (rest.findSome? f) := by
  rw [List.findSome?_cons]
  cases f first <;> rfl

theorem ContentClaim.fault_fields (claim : Option ContentClaim) :
    (emitAll (fields claim)).fault = (texts (claim.bind carried)).findSome? overlong? := by
  obtain _ | ⟨_ | container, _ | sectionName, _ | identifier, offset, size⟩ := claim
  case some.some.some.some =>
    have kept : carried ⟨some container, some sectionName, some identifier, offset, size⟩ =
        some (.located container sectionName identifier (offset.getD 0) size) := by
      cases offset <;> rfl
    rw [Option.bind_some, kept]
    simp only [fields, fieldsOf, fault_emitAll_cons, texts, findSome?_cons_eq_or]
    rfl
  all_goals rfl

theorem ContentClaim.findSome?_texts_getD (claim : Option ContentClaim) :
    (texts (some (claim.getD {}))).findSome? overlong? = (texts claim).findSome? overlong? := by
  cases claim <;> rfl

namespace Event

/-- Attribute keys and values and the numbers of entries have four-byte lengths, and these are
enough. -/
structure IsBounded (event : Event) : Prop where
  lineage : event.lineage.toList.length ≤ maxLongLength
  previous : event.previousAttributes.entries.length ≤ maxLongLength
  previousKeys : ∀ entry ∈ event.previousAttributes.entries,
    (Utf8.encode entry.1).length ≤ maxLongLength
  previousValues : ∀ entry ∈ event.previousAttributes.entries,
    (Utf8.encode entry.2).length ≤ maxLongLength
  updates : event.updatedAttributes.entries.length ≤ maxLongLength
  updatedKeys : ∀ entry ∈ event.updatedAttributes.entries,
    (Utf8.encode entry.1).length ≤ maxLongLength
  updatedValues : ∀ entry ∈ event.updatedAttributes.entries, ∀ value ∈ entry.2,
    (Utf8.encode value).length ≤ maxLongLength
  parents : event.parents.length ≤ maxLongLength
  children : event.children.length ≤ maxLongLength

theorem fault_updates {updates : AttributeUpdates} (fits : updates.entries.length ≤ maxLongLength)
    (keys : ∀ entry ∈ updates.entries, (Utf8.encode entry.1).length ≤ maxLongLength)
    (values : ∀ entry ∈ updates.entries, ∀ value ∈ entry.2,
      (Utf8.encode value).length ≤ maxLongLength) :
    (Emission.counted .updateEntry updates.entries).fault = none :=
  Emission.fault_counted fits fun entry listed => Emission.fault_append.mpr
    ⟨Emission.fault_long.mpr (keys entry listed), Emission.fault_nullable fun value present =>
      Emission.fault_long.mpr (values entry listed value present)⟩

variable {event : Event}

theorem fault_tailFields_eq (bounded : event.IsBounded) (recordId : UInt64) :
    (emitAll event.tailFields).fault =
      (event.carried recordId).tailTexts.findSome? overlong? := by
  have parents : (Field.emit { value := .uuids event.parents }).fault = none :=
    Emission.fault_uuids bounded.parents
  have children : (Field.emit { value := .uuids event.children }).fault = none :=
    Emission.fault_uuids bounded.children
  simp only [tailFields, tailTexts, carried]
  cases event.kind
  case fork | join | clone | replay =>
    simp only [fault_emitAll_cons, parents, children]
    rfl
  all_goals
    simp only [fault_emitAll_cons, Field.fault_nullableShort, findSome?_cons_eq_or]
    rfl

theorem fault_fields_eq (bounded : event.IsBounded) (recordId : UInt64) :
    (emitAll (event.fields recordId)).fault =
      (event.carried recordId).texts.findSome? overlong? := by
  have kind : (Field.emit { name := "event_type", value := .short event.kind.name }).fault =
      none := by
    cases event.kind <;> decide
  have lineage : (Field.emit { value := .uuids event.lineage.toList }).fault = none :=
    Emission.fault_uuids bounded.lineage
  have previous : (Field.emit { value := .attributes event.previousAttributes }).fault = none :=
    Emission.fault_attributes bounded.previous bounded.previousKeys bounded.previousValues
  have updates : (Field.emit { value := .updates event.updatedAttributes }).fault = none :=
    fault_updates bounded.updates bounded.updatedKeys bounded.updatedValues
  have word (value : UInt64) : (Field.emit { value := .word value }).fault = none := rfl
  have millis (value : Int64) : (Field.emit { value := .millis value }).fault = none := rfl
  have uuid (id : Uuid) : (Field.emit { value := .uuid id }).fault = none := rfl
  have carried : (event.carried recordId).texts =
      [("component_id", event.componentId),
        ("component_type", event.componentType),
        ("details", event.details)] ++
      ContentClaim.texts (some (event.currentClaim.carried.getD {})) ++
      ContentClaim.texts (event.previousClaim.bind ContentClaim.carried) ++
      ("source_queue_identifier", event.sourceQueue) ::
        (event.carried recordId).tailTexts := rfl
  have current : (emitAll (ContentClaim.fields (some event.currentClaim))).fault =
      (ContentClaim.texts (some (event.currentClaim.carried.getD {}))).findSome? overlong? := by
    rw [ContentClaim.fault_fields, ContentClaim.findSome?_texts_getD, Option.bind_some]
  simp only [carried, fields, fault_emitAll_append, fault_emitAll_cons, word, kind, millis,
    lineage, uuid, previous, updates, current, ContentClaim.fault_fields, Field.fault_nullableShort,
    fault_tailFields_eq bounded recordId, Option.none_or, List.findSome?_append,
    findSome?_cons_eq_or]
  rfl

theorem encode_ok_iff (bounded : event.IsBounded) (recordId : UInt64) :
    (∃ bytes, event.encode recordId = .ok bytes) ↔
      ∀ entry ∈ (event.carried recordId).texts, ¬ IsOverlong entry := by
  simp only [encode, Emission.toExcept_eq_ok, fault_fields_eq bounded, List.findSome?_eq_none_iff,
    overlong?_eq_none]
  exact ⟨fun ⟨_, short, _⟩ => short, fun short => ⟨_, short, rfl⟩⟩

theorem encode_eq_error_iff (bounded : event.IsBounded) (recordId : UInt64)
    (fault : EncodeFault) :
    event.encode recordId = .error fault ↔
      ∃ earlier field text later,
        (event.carried recordId).texts = earlier ++ (field, some text) :: later ∧
        (∀ entry ∈ earlier, ¬ IsOverlong entry) ∧
        maxShortLength < (Utf8.encode text).length ∧
        fault = .stringTooLong field (Utf8.encode text).length maxShortLength := by
  rw [encode, Emission.toExcept_eq_error, fault_fields_eq bounded, List.findSome?_eq_some_iff]
  simp only [overlong?_eq_none, overlong?_eq_some]
  constructor
  · rintro ⟨earlier, ⟨field, value⟩, later, split, ⟨text, present, long, named⟩, short⟩
    cases present
    exact ⟨earlier, field, text, later, split, short, long, named⟩
  · rintro ⟨earlier, field, text, later, split, short, long, named⟩
    exact ⟨earlier, (field, some text), later, split, ⟨text, rfl, long, named⟩, short⟩

theorem encode_carried (event : Event) (recordId : UInt64) :
    (event.carried recordId).encode recordId = event.encode recordId := by
  have tail : (event.carried recordId).tailFields = event.tailFields := by
    simp only [tailFields, carried]
    cases event.kind <;> rfl
  have current : ContentClaim.fields (some (event.currentClaim.carried.getD {})) =
      ContentClaim.fields (some event.currentClaim) := by
    rw [ContentClaim.fields_getD]
    exact ContentClaim.fields_bind_carried (some event.currentClaim)
  have previous := ContentClaim.fields_bind_carried event.previousClaim
  rw [encode, encode, fields, fields, tail]
  simp only [carried, current, previous]

end Event

end LineageJournal

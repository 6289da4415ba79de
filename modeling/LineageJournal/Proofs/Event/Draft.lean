import Mathlib.Data.List.DropRight
import LineageJournal.Event.Draft
import LineageJournal.Proofs.SortedMap

/-! Events built from edits. For each field an edit puts a value in place of what was there,
extends what was there or does nothing, and what it does depends on no other field. So a field has
what was put there last, extended by the later edits, however the edits of other fields stand
between them. -/

namespace LineageJournal

def ContentClaim.settled (claim : ContentClaim) : ContentClaim :=
  if claim.isResolved then { claim with offset := some (claim.offset.getD 0) } else claim

theorem ContentClaim.withDefaultOffset_eq_settled (claim : ContentClaim) :
    claim.withDefaultOffset = claim.settled := by
  obtain ⟨container, sectionName, identifier, offset, size⟩ := claim
  rw [withDefaultOffset, settled]
  cases isResolved ⟨container, sectionName, identifier, offset, size⟩ with
  | false => rfl
  | true => cases offset <;> rfl

namespace Draft

inductive Field where
  | eventId
  | kind
  | eventTime
  | entryDate
  | duration
  | lineageStart
  | flowFile
  | lineage
  | componentId
  | componentType
  | details
  | sourceQueue
  | transitUri
  | alternateUri
  | relationship
  | sourceSystemId
  | previousAttributes
  | updatedAttributes
  | currentClaim
  | previousClaim
  | parents
  | children
  | storage

namespace Field

@[reducible]
def Value : Field → Type
  | eventId => UInt64
  | kind => Option EventKind
  | eventTime | entryDate | duration | lineageStart => Int64
  | flowFile => Uuid
  | lineage => UuidSet
  | componentId | componentType | details | sourceQueue => Option String
  | transitUri | alternateUri | relationship | sourceSystemId => Option String
  | previousAttributes => Attributes
  | updatedAttributes => AttributeUpdates
  | currentClaim => ContentClaim
  | previousClaim => Option ContentClaim
  | parents | children => List Uuid
  | storage => Option StorageLocation

def default : (field : Field) → field.Value
  | eventId => 0
  | kind => none
  | eventTime | entryDate => 0
  | duration | lineageStart => -1
  | flowFile => Uuid.nil
  | lineage => ∅
  | componentId | componentType | details | sourceQueue => none
  | transitUri | alternateUri | relationship | sourceSystemId => none
  | previousAttributes => ∅
  | updatedAttributes => ∅
  | currentClaim => .sizeOnly 0
  | previousClaim => none
  | parents | children => []
  | storage => none

/-- Edits may add to what the field has, not only replace it. -/
def isExtended : Field → Bool
  | lineage | previousAttributes | updatedAttributes | parents | children => true
  | _ => false

def settle : (field : Field) → field.Value → field.Value
  | currentClaim, claim => claim.settled
  | previousClaim, claim => claim.map ContentClaim.settled
  | _, value => value

end Field

def get (draft : Draft) : (field : Field) → field.Value
  | .eventId => draft.eventId
  | .kind => draft.kind
  | .eventTime => draft.eventTime
  | .entryDate => draft.entryDate
  | .duration => draft.duration
  | .lineageStart => draft.lineageStart
  | .flowFile => draft.flowFile
  | .lineage => draft.lineage
  | .componentId => draft.componentId
  | .componentType => draft.componentType
  | .details => draft.details
  | .sourceQueue => draft.sourceQueue
  | .transitUri => draft.transitUri
  | .alternateUri => draft.alternateUri
  | .relationship => draft.relationship
  | .sourceSystemId => draft.sourceSystemId
  | .previousAttributes => draft.previousAttributes
  | .updatedAttributes => draft.updatedAttributes
  | .currentClaim => draft.currentClaim
  | .previousClaim => draft.previousClaim
  | .parents => draft.parents
  | .children => draft.children
  | .storage => draft.storage

namespace Edit

def put? : (field : Field) → Edit → Option field.Value
  | .eventId, .eventId id => some id
  | .kind, .kind value => some (some value)
  | .eventTime, .eventTime millis => some millis
  | .entryDate, .entryDate millis => some millis
  | .duration, .duration millis => some millis
  | .lineageStart, .lineageStart millis => some millis
  | .flowFile, .flowFile id => some id
  | .lineage, .lineage ids => some (UuidSet.ofList ids)
  | .componentId, .componentId value => some value
  | .componentType, .componentType value => some value
  | .details, .details value => some value
  | .sourceQueue, .sourceQueue value => some value
  | .transitUri, .transitUri value => some value
  | .alternateUri, .alternateUri value => some value
  | .relationship, .relationship value => some value
  | .sourceSystemId, .sourceSystemId value => some value
  | .previousAttributes, .attributes previous _ => some previous
  | .updatedAttributes, .attributes _ updates => some updates
  | .currentClaim, .currentClaim claim => some claim
  | .previousClaim, .previousClaim claim => some (some claim)
  | .storage, .storage filename offset => some (some ⟨filename, offset⟩)
  | _, _ => none

def givenLineage? : Edit → Option (List Uuid)
  | lineage ids => some ids
  | _ => none

def addedLineage? : Edit → Option Uuid
  | addLineage id => some id
  | _ => none

def addedParent? : Edit → Option Uuid
  | addParent id => some id
  | _ => none

def addedChild? : Edit → Option Uuid
  | addChild id => some id
  | _ => none

def previousEntry? : Edit → Option (String × String)
  | previousAttribute key value => some (key, value)
  | _ => none

def updatedEntry? : Edit → Option (String × Option String)
  | updatedAttribute key value => some (key, value)
  | _ => none

def extend? (edit : Edit) : (field : Field) → Option (field.Value → field.Value)
  | .lineage => edit.addedLineage?.map fun id ids => ids.insert id
  | .previousAttributes => edit.previousEntry?.map fun entry map => map.insert entry.1 entry.2
  | .updatedAttributes => edit.updatedEntry?.map fun entry map => map.insert entry.1 entry.2
  | .parents => edit.addedParent?.map fun id ids => ids ++ [id]
  | .children => edit.addedChild?.map fun id ids => ids ++ [id]
  | _ => none

def touches (field : Field) (edit : Edit) : Bool :=
  (edit.put? field).isSome || (edit.extend? field).isSome

end Edit

variable {edits : List Edit} {field : Field}

theorem get_apply (draft : Draft) (edit : Edit) (field : Field) :
    (draft.apply edit).get field =
      (edit.put? field).getD ((edit.extend? field).getD id (draft.get field)) := by
  cases field <;> cases edit <;> rfl

/-- The value that was put last. -/
def last (field : Field) (edits : List Edit) : field.Value :=
  (edits.filterMap (Edit.put? field)).getLast?.getD field.default

/-- The edits after the one that put the last value. -/
def since (field : Field) (edits : List Edit) : List Edit :=
  edits.rtakeWhile fun edit => (edit.put? field).isNone

theorem ofEdits_append_singleton (edits : List Edit) (edit : Edit) :
    ofEdits (edits ++ [edit]) = (ofEdits edits).apply edit := by
  rw [ofEdits, List.foldl_append]
  rfl

/-- A field has what was put there last and what has been added since. -/
theorem get_ofEdits (field : Field) (edits : List Edit) :
    (ofEdits edits).get field =
      ((since field edits).filterMap (Edit.extend? · field)).foldl
        (fun value extend => extend value) (last field edits) := by
  induction edits using List.reverseRecOn with
  | nil => cases field <;> rfl
  | append_singleton edits edit ih =>
      rw [ofEdits_append_singleton, get_apply, ih]
      cases put : edit.put? field with
      | some value =>
          have none : since field (edits ++ [edit]) = [] :=
            List.rtakeWhile_concat_neg _ _ _ (by simp [put])
          have newest : last field (edits ++ [edit]) = value := by
            simp [last, put]
          rw [none, newest]
          rfl
      | none =>
          have more : since field (edits ++ [edit]) = since field edits ++ [edit] :=
            List.rtakeWhile_concat_pos _ _ _ (by simp [put])
          have same : last field (edits ++ [edit]) = last field edits := by
            simp [last, put]
          rw [more, same, List.filterMap_append, List.foldl_append]
          cases adds : edit.extend? field with
          | none => simp [adds]
          | some extend => simp [adds]

theorem get_ofEdits_filter (field : Field) (edits : List Edit) :
    (ofEdits (edits.filter (Edit.touches field))).get field = (ofEdits edits).get field := by
  induction edits using List.reverseRecOn with
  | nil => rfl
  | append_singleton edits edit ih =>
      rw [List.filter_append, ofEdits_append_singleton, get_apply, ← ih]
      cases touched : edit.touches field with
      | true =>
          rw [List.filter_singleton, touched, cond_true, ofEdits_append_singleton, get_apply]
      | false =>
          obtain ⟨put, extend⟩ := Bool.or_eq_false_iff.mp touched
          rw [Option.isSome_eq_false_iff, Option.isNone_iff_eq_none] at put extend
          rw [List.filter_singleton, touched, cond_false, List.append_nil, put, extend]
          rfl

theorem ext_get {a b : Draft} (same : ∀ field, a.get field = b.get field) : a = b := by
  cases a
  cases b
  rw [Draft.mk.injEq]
  exact ⟨same .eventId, same .kind, same .eventTime, same .entryDate, same .duration,
    same .lineageStart, same .flowFile, same .lineage, same .componentId, same .componentType,
    same .details, same .sourceQueue, same .transitUri, same .alternateUri, same .relationship,
    same .sourceSystemId, same .previousAttributes, same .updatedAttributes, same .currentClaim,
    same .previousClaim, same .parents, same .children, same .storage⟩

theorem get_of_replaced (replaced : field.isExtended = false) (edits : List Edit) :
    (ofEdits edits).get field = last field edits := by
  have never (edit : Edit) : edit.extend? field = none := by
    cases field <;> first | rfl | cases replaced
  rw [get_ofEdits, List.filterMap_eq_nil_iff.mpr fun edit _ => never edit]
  rfl

theorem get_of_extended {α : Type} (field : Field) {added? : Edit → Option α}
    {extend : α → field.Value → field.Value}
    (adds : ∀ edit : Edit, edit.extend? field = (added? edit).map extend) (edits : List Edit) :
    (ofEdits edits).get field =
      ((since field edits).filterMap added?).foldl (fun value item => extend item value)
        (last field edits) := by
  rw [get_ofEdits]
  simp only [adds]
  rw [← List.map_filterMap, List.foldl_map]

/-- The identifiers of the last edit that gives all of them. -/
def lastLineage (edits : List Edit) : List Uuid :=
  (edits.filterMap Edit.givenLineage?).getLast?.getD []

theorem last_lineage (edits : List Edit) :
    last .lineage edits = UuidSet.ofList (lastLineage edits) := by
  have gives : Edit.put? .lineage = fun edit => (Edit.givenLineage? edit).map UuidSet.ofList := by
    funext edit
    cases edit <;> rfl
  rw [last, gives, ← List.map_filterMap, List.getLast?_map, lastLineage]
  cases (edits.filterMap Edit.givenLineage?).getLast? <;> rfl

theorem mem_lineage (edits : List Edit) (id : Uuid) :
    id ∈ (ofEdits edits).lineage.toList ↔ id ∈ lastLineage edits ∨
      id ∈ (since .lineage edits).filterMap Edit.addedLineage? := by
  have lineage : (ofEdits edits).lineage =
      ((since .lineage edits).filterMap Edit.addedLineage?).foldl UuidSet.insert
        (last .lineage edits) :=
    get_of_extended .lineage (fun _ => rfl) edits
  rw [lineage, UuidSet.mem_toList_foldl_insert, last_lineage, UuidSet.mem_toList_ofList]

theorem get?_previousAttributes (edits : List Edit) (key : String) :
    (ofEdits edits).previousAttributes.get? key =
      (((since .previousAttributes edits).filterMap Edit.previousEntry?).reverse.lookup key).or
        (SortedMap.get? (last .previousAttributes edits) key) := by
  have attributes : (ofEdits edits).previousAttributes =
      ((since .previousAttributes edits).filterMap Edit.previousEntry?).foldl
        (fun map entry => map.insert entry.1 entry.2) (last .previousAttributes edits) :=
    get_of_extended .previousAttributes (fun _ => rfl) edits
  rw [attributes]
  exact SortedMap.get?_foldl_insert _ _ key

theorem get?_updatedAttributes (edits : List Edit) (key : String) :
    (ofEdits edits).updatedAttributes.get? key =
      (((since .updatedAttributes edits).filterMap Edit.updatedEntry?).reverse.lookup key).or
        (SortedMap.get? (last .updatedAttributes edits) key) := by
  have attributes : (ofEdits edits).updatedAttributes =
      ((since .updatedAttributes edits).filterMap Edit.updatedEntry?).foldl
        (fun map entry => map.insert entry.1 entry.2) (last .updatedAttributes edits) :=
    get_of_extended .updatedAttributes (fun _ => rfl) edits
  rw [attributes]
  exact SortedMap.get?_foldl_insert _ _ key

theorem foldl_concat (ids more : List Uuid) :
    more.foldl (fun ids id => ids ++ [id]) ids = ids ++ more := by
  induction more generalizing ids with
  | nil => exact (List.append_nil ids).symm
  | cons id rest ih => rw [List.foldl_cons, ih, ← List.append_cons]

theorem since_of_neverPut (field : Field) (never : ∀ edit : Edit, edit.put? field = none)
    (edits : List Edit) : since field edits = edits ∧ last field edits = field.default := by
  refine ⟨List.rtakeWhile_eq_self_iff.mpr fun edit _ => by rw [never]; rfl, ?_⟩
  rw [last, List.filterMap_eq_nil_iff.mpr fun edit _ => never edit]
  rfl

theorem parents_ofEdits (edits : List Edit) :
    (ofEdits edits).parents = edits.filterMap Edit.addedParent? := by
  obtain ⟨all, first⟩ := since_of_neverPut .parents (by intro edit; cases edit <;> rfl) edits
  have parents := get_of_extended .parents (fun _ => rfl) edits
  rw [all, first, foldl_concat] at parents
  exact parents

theorem children_ofEdits (edits : List Edit) :
    (ofEdits edits).children = edits.filterMap Edit.addedChild? := by
  obtain ⟨all, first⟩ := since_of_neverPut .children (by intro edit; cases edit <;> rfl) edits
  have children := get_of_extended .children (fun _ => rfl) edits
  rw [all, first, foldl_concat] at children
  exact children

theorem kind_ofEdits_eq_none (edits : List Edit) :
    (ofEdits edits).kind = none ↔ ∀ kind, .kind kind ∉ edits := by
  induction edits using List.reverseRecOn with
  | nil => simp [ofEdits]
  | append_singleton edits edit ih =>
      rw [ofEdits_append_singleton]
      cases edit with
      | kind value =>
          have present : Edit.kind value ∈ edits ++ [.kind value] := by simp
          exact iff_of_false (by simp [apply]) fun absent => absent value present
      | _ => simpa [apply] using ih

end Draft

def Event.get (event : Event) : (field : Draft.Field) → field.Value
  | .eventId => event.eventId
  | .kind => some event.kind
  | .eventTime => event.eventTime
  | .entryDate => event.entryDate
  | .duration => event.duration
  | .lineageStart => event.lineageStart
  | .flowFile => event.flowFile
  | .lineage => event.lineage
  | .componentId => event.componentId
  | .componentType => event.componentType
  | .details => event.details
  | .sourceQueue => event.sourceQueue
  | .transitUri => event.transitUri
  | .alternateUri => event.alternateUri
  | .relationship => event.relationship
  | .sourceSystemId => event.sourceSystemId
  | .previousAttributes => event.previousAttributes
  | .updatedAttributes => event.updatedAttributes
  | .currentClaim => event.currentClaim
  | .previousClaim => event.previousClaim
  | .parents => event.parents
  | .children => event.children
  | .storage => event.storage

namespace Draft

variable {draft : Draft} {edits : List Edit}

/-- What the edits say of the event, field by field. In an attribute map the last entry with a key
counts. -/
structure Describes (edits : List Edit) (event : Event) : Prop where
  replaced : ∀ field : Field, field.isExtended = false →
    event.get field = field.settle (last field edits)
  lineage : ∀ id, id ∈ event.lineage.toList ↔ id ∈ lastLineage edits ∨
    id ∈ (since .lineage edits).filterMap Edit.addedLineage?
  previousAttributes : ∀ key, event.previousAttributes.get? key =
    (((since .previousAttributes edits).filterMap Edit.previousEntry?).reverse.lookup key).or
      (SortedMap.get? (last .previousAttributes edits) key)
  updatedAttributes : ∀ key, event.updatedAttributes.get? key =
    (((since .updatedAttributes edits).filterMap Edit.updatedEntry?).reverse.lookup key).or
      (SortedMap.get? (last .updatedAttributes edits) key)
  parents : event.parents = edits.filterMap Edit.addedParent?
  children : event.children = edits.filterMap Edit.addedChild?

theorem get_of_build {event : Event} (built : draft.build = .ok event) (field : Field) :
    event.get field = field.settle (draft.get field) := by
  unfold build at built
  split at built
  · cases built
  · rename_i kind kinded
    cases built
    cases field with
    | kind => exact kinded.symm
    | currentClaim => exact draft.currentClaim.withDefaultOffset_eq_settled
    | previousClaim =>
        exact congrArg (draft.previousClaim.map ·)
          (funext ContentClaim.withDefaultOffset_eq_settled)
    | _ => rfl

theorem describes_of_build {event : Event} (built : (ofEdits edits).build = .ok event) :
    Describes edits event where
  replaced field replaced := by rw [get_of_build built, get_of_replaced replaced]
  lineage id := by
    have same : event.lineage = (ofEdits edits).lineage := get_of_build built .lineage
    rw [same]
    exact mem_lineage edits id
  previousAttributes key := by
    have same : event.previousAttributes = (ofEdits edits).previousAttributes :=
      get_of_build built .previousAttributes
    rw [same]
    exact get?_previousAttributes edits key
  updatedAttributes key := by
    have same : event.updatedAttributes = (ofEdits edits).updatedAttributes :=
      get_of_build built .updatedAttributes
    rw [same]
    exact get?_updatedAttributes edits key
  parents := (get_of_build built .parents).trans (parents_ofEdits edits)
  children := (get_of_build built .children).trans (children_ofEdits edits)

/-- A draft after any edits cannot be built if none of them gives a kind. Otherwise the event is
the one that the edits describe: a field that is replaced has the last value or its default, the
lineage set has the identifiers that were put there last and those added since, an attribute map
has what was put there last and for each key the last entry since, and the parents and children
are all that were added, in order. Other edits with the same ones for each field build the same
event, whichever order they are in. -/
theorem build_ofEdits (edits : List Edit) :
    ((ofEdits edits).build = .error (.missingRequiredField "event_type") ↔
        ∀ kind, .kind kind ∉ edits) ∧
      ((∃ kind, .kind kind ∈ edits) →
        ∃ event, (ofEdits edits).build = .ok event ∧ Describes edits event) ∧
      ∀ others : List Edit,
        (∀ field, others.filter (Edit.touches field) = edits.filter (Edit.touches field)) →
          (ofEdits others).build = (ofEdits edits).build := by
  have missing : (ofEdits edits).build = .error (.missingRequiredField "event_type") ↔
      (ofEdits edits).kind = none := by
    unfold build
    cases (ofEdits edits).kind <;> simp
  refine ⟨missing.trans (kind_ofEdits_eq_none edits), ?_, ?_⟩
  · rintro ⟨kind, given⟩
    cases kinded : (ofEdits edits).kind with
    | none => exact absurd given ((kind_ofEdits_eq_none edits).mp kinded kind)
    | some _ =>
        obtain ⟨event, built⟩ : ∃ event, (ofEdits edits).build = .ok event := by
          rw [build, kinded]
          exact ⟨_, rfl⟩
        exact ⟨event, built, describes_of_build built⟩
  · intro others agree
    have same : ofEdits others = ofEdits edits := by
      refine ext_get fun field => ?_
      rw [← get_ofEdits_filter, agree, get_ofEdits_filter]
    rw [same]

/-- A removal overrides an update of the attribute, and identifiers are given in place of one that
was added before, whatever stands between these edits. -/
theorem build_ofEdits_interleaved :
    let claim : ContentClaim :=
      { container := some "c", sectionName := some "s", identifier := some "i", size := 7 }
    let edits : List Edit :=
      [.kind .send, .updatedAttribute "a" (some "1"), .updatedAttribute "a" none,
        .addLineage Uuid.nil, .lineage [⟨0, 9⟩, ⟨0, 4⟩, ⟨0, 9⟩], .addLineage ⟨0, 1⟩,
        .details (some "x"), .details none, .currentClaim claim]
    let others : List Edit :=
      [.details (some "x"), .currentClaim claim, .updatedAttribute "a" (some "1"),
        .addLineage Uuid.nil, .details none, .lineage [⟨0, 9⟩, ⟨0, 4⟩, ⟨0, 9⟩],
        .updatedAttribute "a" none, .addLineage ⟨0, 1⟩, .kind .send]
    (ofEdits others).build = (ofEdits edits).build ∧
      ∃ event, (ofEdits edits).build = .ok event ∧ event.kind = .send ∧
        event.updatedAttributes.get? "a" = some none ∧
        (∀ id, id ∈ event.lineage.toList ↔ id ∈ ([⟨0, 9⟩, ⟨0, 4⟩, ⟨0, 9⟩] : List Uuid) ∨
          id ∈ [(⟨0, 1⟩ : Uuid)]) ∧
        event.details = none ∧ event.currentClaim = { claim with offset := some 0 } := by
  intro claim edits others
  obtain ⟨_, built, agree⟩ := build_ofEdits edits
  have same : (ofEdits others).build = (ofEdits edits).build :=
    agree others fun field => by cases field <;> rfl
  obtain ⟨event, built, describes⟩ := built ⟨.send, List.mem_cons_self⟩
  have kind : some event.kind = some EventKind.send := describes.replaced .kind rfl
  exact ⟨same, event, built, Option.some.inj kind, describes.updatedAttributes "a",
    describes.lineage, describes.replaced .details rfl, describes.replaced .currentClaim rfl⟩

end Draft

end LineageJournal

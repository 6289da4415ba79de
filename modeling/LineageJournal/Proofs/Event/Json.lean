import LineageJournal.Event.Json
import LineageJournal.Proofs.SortedMap
import LineageJournal.Proofs.Uuid

/-! Events read back from their JSON form. Each writer of a part is matched by its reader, and the
members of a record are found by their names. -/

namespace LineageJournal

namespace Json

section

variable {α : Type} {write : α → Json} {read : Json → Option α}

def Restores (read : Json → Option α) (write : α → Json) : Prop :=
  ∀ value, read (write value) = some value

theorem restores_uint64 : Restores uint64? fun n => integer n.toNat := by
  intro n
  have small : (n.toNat : Int) < 0x10000000000000000 := Int.ofNat_lt.mpr n.toNat_lt
  rw [uint64?, if_pos ⟨Int.natCast_nonneg _, small⟩, Int.toNat_natCast, UInt64.ofNat_toNat]

theorem restores_int64 : Restores int64? fun n => integer n.toInt := by
  intro n
  rw [int64?, if_pos ⟨n.le_toInt, n.toInt_lt⟩, Int64.ofInt_toInt]

theorem restores_text : Restores text? text := fun _ => rfl

/-- Null stands for what is absent, as nothing else is written as null. -/
theorem Restores.option (restores : Restores read write) (notNull : ∀ value, write value ≠ null) :
    Restores (option? read) (ofOption write) := by
  intro value
  cases value with
  | none => rfl
  | some value =>
      rw [ofOption, option?]
      · rw [restores value]
        rfl
      · exact notNull value

theorem restores_ofUuid : Restores uuid? ofUuid := Uuid.ofText?_toText

theorem restores_ofText : Restores (option? text?) ofText := restores_text.option (by simp)

theorem mapM_restored {β γ : Type} (encode : γ → β) (decode : β → Option γ)
    (each : ∀ item, decode (encode item) = some item) (items : List γ) :
    (items.map encode).mapM decode = some items := by
  have all : decode ∘ encode = pure := funext each
  rw [List.mapM_map, all, List.mapM_pure, List.map_id']
  rfl

theorem Restores.list (restores : Restores read write) :
    Restores (list? read) fun items => array (items.map write) :=
  mapM_restored write read restores

theorem members?_object (members : List (String × Json)) :
    (object (members.map fun member => (some member.1, member.2))).members? = some members :=
  mapM_restored _ (fun member : Option String × Json => member.1.map fun key => (key, member.2))
    (fun _ => rfl) members

theorem Restores.map (restores : Restores read write) : Restores (map? read) (ofMap write) := by
  intro map
  let encode (entry : String × α) : String × Json := (entry.1, write entry.2)
  let decode (member : String × Json) : Option (String × α) :=
    (read member.2).map fun value => (member.1, value)
  have each (entry : String × α) : decode (encode entry) = some entry :=
    congrArg (Option.map fun value => (entry.1, value)) (restores entry.2)
  have members : (ofMap write map).members? = some (map.entries.map encode) := by
    have same := members?_object (map.entries.map encode)
    rw [List.map_map] at same
    exact same
  have entries : (map.entries.map encode).mapM decode = some map.entries :=
    mapM_restored encode decode each map.entries
  rw [map?, members, Option.bind_eq_bind, Option.bind_some, entries]
  exact congrArg some (SortedMap.ofList_entries map)

theorem lookup_member (entries : List (String × α)) (key : String) :
    (entries.map fun entry => (some entry.1, write entry.2)).lookup (some key) =
      (entries.lookup key).map write := by
  induction entries with
  | nil => rfl
  | cons entry rest ih =>
      obtain ⟨own, value⟩ := entry
      rw [List.map_cons, List.lookup_cons, List.lookup_cons, Option.some_beq_some]
      cases key == own
      · exact ih
      · rfl

variable {members : List (String × Json)} {names : List String} {name : String}

theorem fields?_record (named : members.map Prod.fst = names) (apart : names.Nodup) :
    (record members).fields? names = some members := by
  have all : members.filter (fun member => names.contains member.1) = members := by
    refine List.filter_eq_self.mpr fun member isMember => ?_
    rw [← named, List.contains_iff_mem]
    exact List.mem_map_of_mem isMember
  have listed : (record members).members? = some members := members?_object members
  show (do
    let members ← (record members).members?
    let fields := members.filter fun member => names.contains member.1
    if (fields.map Prod.fst).Nodup then some fields else none) = some members
  rw [listed, Option.bind_eq_bind, Option.bind_some, all]
  show (if (members.map Prod.fst).Nodup then some members else none) = some members
  rw [named, if_pos apart]

theorem required?_of_lookup (restores : Restores read write) {value : α}
    (found : members.lookup name = some (write value)) :
    required? members name read = some value := by
  rw [required?, found, Option.bind_some, restores value]

theorem optional?_of_lookup (restores : Restores (option? read) (ofOption write))
    {value : Option α} (found : members.lookup name = some (ofOption write value)) :
    optional? members name read = some value := by
  rw [optional?, found]
  exact restores value

end

end Json

namespace EventKind

theorem jsonName_eq_name (kind : EventKind) : kind.jsonName = kind.name := by
  cases kind <;> decide

theorem ofJson?_text_eq_some {text : String} {kind : EventKind} :
    ofJson? (.text text) = some kind ↔ text = kind.name := by
  have same : ofJsonName? text = ofName? text := by
    simp only [ofJsonName?, ofName?, jsonName_eq_name]
  show ofJsonName? text = some kind ↔ _
  rw [same]
  exact ⟨fun found => (name_of_ofName? found).symm, fun named => named ▸ ofName?_name kind⟩

theorem restores : Json.Restores ofJson? toJson := fun kind =>
  ofJson?_text_eq_some.mpr kind.jsonName_eq_name

end EventKind

namespace ContentClaim

theorem restores : Json.Restores ofJson? toJson := by
  intro claim
  have fields : claim.toJson.fields? fieldNames = some claim.members :=
    Json.fields?_record rfl (by decide)
  have container : Json.optional? claim.members "container" Json.text? = some claim.container :=
    Json.optional?_of_lookup Json.restores_ofText rfl
  have sectionName : Json.optional? claim.members "section" Json.text? = some claim.sectionName :=
    Json.optional?_of_lookup Json.restores_ofText rfl
  have identifier : Json.optional? claim.members "identifier" Json.text? = some claim.identifier :=
    Json.optional?_of_lookup Json.restores_ofText rfl
  have offset : Json.optional? claim.members "offset" Json.uint64? = some claim.offset :=
    Json.optional?_of_lookup (Json.restores_uint64.option (by simp)) rfl
  have size : Json.required? claim.members "size" Json.uint64? = some claim.size :=
    Json.required?_of_lookup Json.restores_uint64 rfl
  rw [ofJson?, fields, Option.bind_eq_bind, Option.bind_some]
  simp only [container, sectionName, identifier, offset, size]
  rfl

theorem restores_option : Json.Restores (Json.option? ofJson?) (Json.ofOption toJson) :=
  restores.option (by simp [toJson, Json.record])

end ContentClaim

namespace StorageLocation

theorem restores : Json.Restores ofJson? toJson := by
  intro location
  have fields : location.toJson.fields? fieldNames = some location.members :=
    Json.fields?_record rfl (by decide)
  have filename : Json.required? location.members "filename" Json.text? = some location.filename :=
    Json.required?_of_lookup Json.restores_text rfl
  have offset : Json.required? location.members "offset" Json.uint64? = some location.offset :=
    Json.required?_of_lookup Json.restores_uint64 rfl
  rw [ofJson?, fields, Option.bind_eq_bind, Option.bind_some]
  simp only [filename, offset]
  rfl

theorem restores_option : Json.Restores (Json.option? ofJson?) (Json.ofOption toJson) :=
  restores.option (by simp [toJson, Json.record])

end StorageLocation

namespace Event

section

open Json

theorem restores : Restores ofJson? toJson := by
  intro event
  have fields : event.toJson.fields? fieldNames = some event.members :=
    fields?_record rfl (by decide)
  have eventId : required? event.members "event_id" uint64? = some event.eventId :=
    required?_of_lookup restores_uint64 rfl
  have kind : required? event.members "event_type" EventKind.ofJson? = some event.kind :=
    required?_of_lookup EventKind.restores rfl
  have eventTime : required? event.members "event_time" int64? = some event.eventTime :=
    required?_of_lookup restores_int64 rfl
  have entryDate : required? event.members "flow_file_entry_date" int64? = some event.entryDate :=
    required?_of_lookup restores_int64 rfl
  have duration : required? event.members "event_duration" int64? = some event.duration :=
    required?_of_lookup restores_int64 rfl
  have lineageStart : required? event.members "lineage_start_date" int64? =
      some event.lineageStart :=
    required?_of_lookup restores_int64 rfl
  have flowFile : required? event.members "flow_file_uuid" uuid? = some event.flowFile :=
    required?_of_lookup restores_ofUuid rfl
  have lineage : required? event.members "lineage_identifiers" (list? uuid?) =
      some event.lineage.toList :=
    required?_of_lookup restores_ofUuid.list rfl
  have componentId : optional? event.members "component_id" text? = some event.componentId :=
    optional?_of_lookup restores_ofText rfl
  have componentType : optional? event.members "component_type" text? = some event.componentType :=
    optional?_of_lookup restores_ofText rfl
  have details : optional? event.members "details" text? = some event.details :=
    optional?_of_lookup restores_ofText rfl
  have sourceQueue : optional? event.members "source_queue_identifier" text? =
      some event.sourceQueue :=
    optional?_of_lookup restores_ofText rfl
  have transitUri : optional? event.members "transit_uri" text? = some event.transitUri :=
    optional?_of_lookup restores_ofText rfl
  have alternateUri : optional? event.members "alternate_identifier_uri" text? =
      some event.alternateUri :=
    optional?_of_lookup restores_ofText rfl
  have relationship : optional? event.members "relationship" text? = some event.relationship :=
    optional?_of_lookup restores_ofText rfl
  have sourceSystemId : optional? event.members "source_system_flow_file_identifier" text? =
      some event.sourceSystemId :=
    optional?_of_lookup restores_ofText rfl
  have previousAttributes : required? event.members "previous_attributes" (map? text?) =
      some event.previousAttributes :=
    required?_of_lookup restores_text.map rfl
  have updatedAttributes : required? event.members "updated_attributes" (map? (option? text?)) =
      some event.updatedAttributes :=
    required?_of_lookup restores_ofText.map rfl
  have currentClaim : required? event.members "current_claim" ContentClaim.ofJson? =
      some event.currentClaim :=
    required?_of_lookup ContentClaim.restores rfl
  have previousClaim : optional? event.members "previous_claim" ContentClaim.ofJson? =
      some event.previousClaim :=
    optional?_of_lookup ContentClaim.restores_option rfl
  have parents : required? event.members "parent_uuids" (list? uuid?) = some event.parents :=
    required?_of_lookup restores_ofUuid.list rfl
  have children : required? event.members "child_uuids" (list? uuid?) = some event.children :=
    required?_of_lookup restores_ofUuid.list rfl
  have storage : optional? event.members "storage_location" StorageLocation.ofJson? =
      some event.storage :=
    optional?_of_lookup StorageLocation.restores_option rfl
  rw [ofJson?, fields, Option.bind_eq_bind, Option.bind_some]
  simp only [eventId, kind, eventTime, entryDate, duration, lineageStart, flowFile, lineage,
    componentId, componentType, details, sourceQueue, transitUri, alternateUri, relationship,
    sourceSystemId, previousAttributes, updatedAttributes, currentClaim, previousClaim, parents,
    children, storage]
  show some { event with lineage := UuidSet.ofList event.lineage.toList } = some event
  rw [UuidSet.ofList_toList]

end

/-- An event is read back from its JSON form as it was. The form tells its kind by the wire name,
which is the only text that is read as this kind; and among the updates an attribute that was
removed stands as null, while one without an update does not stand there. -/
theorem ofJson?_toJson (event : Event) :
    ofJson? event.toJson = some event ∧
      (∃ members updates, event.toJson = .object members ∧
        members.lookup (some "event_type") = some (.text event.kind.name) ∧
        members.lookup (some "updated_attributes") = some (.object updates) ∧
        ∀ key : String,
          updates.lookup (some key) = (event.updatedAttributes.get? key).map Json.ofText) ∧
      ∀ (text : String) (kind : EventKind),
        EventKind.ofJson? (.text text) = some kind ↔ text = kind.name := by
  refine ⟨restores event, ⟨_, _, rfl, ?_, rfl, ?_⟩, fun _ _ => EventKind.ofJson?_text_eq_some⟩
  · rw [← event.kind.jsonName_eq_name]
    rfl
  · intro key
    rw [SortedMap.get?_eq_lookup]
    exact Json.lookup_member event.updatedAttributes.entries key

end Event

end LineageJournal

import LineageJournal.EventKind
import LineageJournal.SortedMap
import LineageJournal.Uuid

/-! Provenance events: one lineage-relevant occurrence to a flow file. Instants and
durations are milliseconds, and a duration or lineage start of -1 is unknown. -/

namespace LineageJournal

instance : KeyOrder Uuid where
  decideLt := inferInstance
  irrefl a := Nat.lt_irrefl a.toNat
  trans := Nat.lt_trans
  connected a b := by
    rcases Nat.lt_trichotomy a.toNat b.toNat with less | same | more
    · exact .inl less
    · exact .inr (.inl (Uuid.toNat_injective same))
    · exact .inr (.inr more)

abbrev Attributes := SortedMap String String

/-- Attribute changes: a new value, or `none` where the attribute was removed. -/
abbrev AttributeUpdates := SortedMap String (Option String)

abbrev UuidSet := SortedMap Uuid Unit

namespace UuidSet

def insert (ids : UuidSet) (id : Uuid) : UuidSet := SortedMap.insert ids id ()

def ofList (ids : List Uuid) : UuidSet := SortedMap.ofList (ids.map fun id => (id, ()))

def toList (ids : UuidSet) : List Uuid := SortedMap.keys ids

end UuidSet

/-- Where a flow file's content bytes lie. Claims from old journals know only the size. -/
structure ContentClaim where
  container : Option String := none
  sectionName : Option String := none
  identifier : Option String := none
  offset : Option UInt64 := none
  size : UInt64 := 0
  deriving DecidableEq, Inhabited

namespace ContentClaim

def located (container sectionName identifier : String) (offset size : UInt64) : ContentClaim :=
  { container := some container, sectionName := some sectionName,
    identifier := some identifier, offset := some offset, size }

def sizeOnly (size : UInt64) : ContentClaim := { size }

/-- Container, section and identifier are all known; only such claims are written. -/
def isResolved (claim : ContentClaim) : Bool :=
  claim.container.isSome && claim.sectionName.isSome && claim.identifier.isSome

/-- A resolved claim starts at offset 0 unless it says otherwise. -/
def withDefaultOffset (claim : ContentClaim) : ContentClaim :=
  if claim.isResolved && claim.offset.isNone then { claim with offset := some 0 } else claim

end ContentClaim

/-- Where a record began in the journal it was read from. -/
structure StorageLocation where
  filename : String
  offset : UInt64
  deriving DecidableEq, Inhabited

structure Event where
  eventId : UInt64
  kind : EventKind
  eventTime : Int64
  entryDate : Int64
  duration : Int64
  lineageStart : Int64
  flowFile : Uuid
  lineage : UuidSet
  componentId : Option String
  componentType : Option String
  details : Option String
  sourceQueue : Option String
  transitUri : Option String
  alternateUri : Option String
  relationship : Option String
  sourceSystemId : Option String
  previousAttributes : Attributes
  updatedAttributes : AttributeUpdates
  currentClaim : ContentClaim
  previousClaim : Option ContentClaim
  parents : List Uuid
  children : List Uuid
  storage : Option StorageLocation
  deriving DecidableEq

namespace Event

def applyUpdate (attributes : Attributes) (update : String × Option String) : Attributes :=
  match update.2 with
  | some value => attributes.insert update.1 value
  | none => attributes.erase update.1

/-- The attributes after the event: the previous ones with the updates applied. -/
def attributes (event : Event) : Attributes :=
  event.updatedAttributes.entries.foldl applyUpdate event.previousAttributes

def fileSize (event : Event) : UInt64 := event.currentClaim.size

def withoutStorage (event : Event) : Event := { event with storage := none }

end Event

end LineageJournal

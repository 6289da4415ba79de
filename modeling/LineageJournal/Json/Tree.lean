import LineageJournal.Uuid
import LineageJournal.SortedMap

/-! JSON documents as trees, and readers of the shapes that occur in them. A number that is
no integer and a text with an unpaired surrogate have no value that any reader takes, but
may stand where nothing reads them. -/

namespace LineageJournal

inductive Json where
  | null
  | bool (value : Bool)
  | integer (value : Int)
  | fraction
  | text (value : String)
  | brokenText
  | array (items : List Json)
  /-- Members in order, under `none` where the key has an unpaired surrogate. -/
  | object (members : List (Option String × Json))
  deriving Inhabited

namespace Json

variable {α β : Type}

def ofOption (write : α → Json) : Option α → Json
  | some value => write value
  | none => null

def ofText : Option String → Json := ofOption text

def ofUuid (id : Uuid) : Json := text id.toText

def ofMap (write : α → Json) (map : SortedMap String α) : Json :=
  object (map.entries.map fun entry => (some entry.1, write entry.2))

def record (members : List (String × Json)) : Json :=
  object (members.map fun member => (some member.1, member.2))

def uint64? : Json → Option UInt64
  | integer n => if 0 ≤ n ∧ n < 0x10000000000000000 then some (UInt64.ofNat n.toNat) else none
  | _ => none

def int64? : Json → Option Int64
  | integer n =>
    if -0x8000000000000000 ≤ n ∧ n < 0x8000000000000000 then some (Int64.ofInt n) else none
  | _ => none

def text? : Json → Option String
  | text value => some value
  | _ => none

def uuid? : Json → Option Uuid
  | text value => Uuid.ofText? value
  | _ => none

def option? (read : Json → Option α) : Json → Option (Option α)
  | null => some none
  | value => (read value).map some

def list? (read : Json → Option α) : Json → Option (List α)
  | array items => items.mapM read
  | _ => none

def members? : Json → Option (List (String × Json))
  | object members => members.mapM fun member => member.1.map fun key => (key, member.2)
  | _ => none

/-- Of equal keys the last one counts. -/
def map? (read : Json → Option α) (json : Json) : Option (SortedMap String α) := do
  let members ← json.members?
  let entries ← members.mapM fun member => (read member.2).map fun value => (member.1, value)
  return SortedMap.ofList entries

/-- The fields of a record: an object, where members of other names are passed over and none
of these names may occur twice, or an array with one item for each name. -/
def fields? (names : List String) : Json → Option (List (String × Json))
  | array items => if items.length = names.length then some (names.zip items) else none
  | json => do
    let members ← json.members?
    let fields := members.filter fun member => names.contains member.1
    if (fields.map Prod.fst).Nodup then some fields else none

def required? (fields : List (String × Json)) (name : String) (read : Json → Option α) :
    Option α :=
  (fields.lookup name).bind read

/-- A field that is missing or null is absent. -/
def optional? (fields : List (String × Json)) (name : String) (read : Json → Option α) :
    Option (Option α) :=
  match fields.lookup name with
  | some value => option? read value
  | none => some none

end Json

end LineageJournal

/-! The kinds of lineage events. Records and JSON documents carry a kind by its wire name,
and kinds are ordered as they are listed here. -/

namespace LineageJournal

inductive EventKind where
  | create
  | receive
  | send
  | drop
  | expire
  | fork
  | join
  | clone
  | contentModified
  | attributesModified
  | route
  | addInfo
  | replay
  | unknown
  deriving DecidableEq, Repr, Inhabited

namespace EventKind

def all : List EventKind :=
  [create, receive, send, drop, expire, fork, join, clone, contentModified,
    attributesModified, route, addInfo, replay, unknown]

def name : EventKind → String
  | create => "CREATE"
  | receive => "RECEIVE"
  | send => "SEND"
  | drop => "DROP"
  | expire => "EXPIRE"
  | fork => "FORK"
  | join => "JOIN"
  | clone => "CLONE"
  | contentModified => "CONTENT_MODIFIED"
  | attributesModified => "ATTRIBUTES_MODIFIED"
  | route => "ROUTE"
  | addInfo => "ADDINFO"
  | replay => "REPLAY"
  | unknown => "UNKNOWN"

def ofName? (text : String) : Option EventKind := all.find? fun kind => kind.name = text

theorem ofName?_name (kind : EventKind) : ofName? kind.name = some kind := by
  cases kind <;> decide

theorem name_of_ofName? {text : String} {kind : EventKind} (found : ofName? text = some kind) :
    kind.name = text := by
  simpa using List.find?_some found

def carriesLineageLists : EventKind → Bool
  | fork | join | clone | replay => true
  | _ => false

instance : LE EventKind := ⟨fun a b => a.ctorIdx ≤ b.ctorIdx⟩

instance : DecidableLE EventKind := fun a b => inferInstanceAs (Decidable (a.ctorIdx ≤ b.ctorIdx))

def sort (kinds : List EventKind) : List EventKind := kinds.mergeSort fun a b => decide (a ≤ b)

end EventKind

end LineageJournal

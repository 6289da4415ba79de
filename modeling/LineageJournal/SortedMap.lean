/-! Finite maps as entry lists in strictly increasing key order. The order is part of the
type, so equal maps are equal lists and a map's entries are read off in key order. -/

namespace LineageJournal

/-- A strict linear order that can be decided. -/
class KeyOrder (κ : Type) extends LT κ where
  decideLt : DecidableLT κ
  irrefl : ∀ a : κ, ¬ a < a
  trans : ∀ {a b c : κ}, a < b → b < c → a < c
  connected : ∀ a b : κ, a < b ∨ a = b ∨ b < a

instance decidableLtOfKeyOrder {κ : Type} [KeyOrder κ] : DecidableLT κ := KeyOrder.decideLt

instance : KeyOrder String where
  decideLt := inferInstance
  irrefl := String.lt_irrefl
  trans := String.lt_trans
  connected a b := by
    by_cases less : a < b
    · exact .inl less
    by_cases more : b < a
    · exact .inr (.inr more)
    exact .inr (.inl (String.le_antisymm (String.not_lt.mp more) (String.not_lt.mp less)))

variable {κ ν : Type} [KeyOrder κ]

theorem KeyOrder.eq_of_not_lt {a b : κ} (notBefore : ¬ a < b) (notAfter : ¬ b < a) : a = b :=
  ((KeyOrder.connected a b).resolve_left notBefore).resolve_right notAfter

def Ascending (entries : List (κ × ν)) : Prop := entries.Pairwise fun a b => a.1 < b.1

theorem Ascending.lt_of_lt_head {key : κ} {head : κ × ν} {rest : List (κ × ν)}
    (ascending : Ascending (head :: rest)) (before : key < head.1) :
    ∀ entry ∈ head :: rest, key < entry.1 := by
  intro entry member
  rcases List.mem_cons.mp member with rfl | later
  · exact before
  · exact KeyOrder.trans before ((List.pairwise_cons.mp ascending).1 entry later)

/-- Puts an entry at its place; an entry with an equal key gives way. -/
def insertEntry (key : κ) (value : ν) : List (κ × ν) → List (κ × ν)
  | [] => [(key, value)]
  | entry :: rest =>
    if key < entry.1 then (key, value) :: entry :: rest
    else if entry.1 < key then entry :: insertEntry key value rest
    else (key, value) :: rest

/-- Puts an entry at its place, unless there is one with an equal key. -/
def offerEntry (key : κ) (value : ν) : List (κ × ν) → List (κ × ν)
  | [] => [(key, value)]
  | entry :: rest =>
    if key < entry.1 then (key, value) :: entry :: rest
    else if entry.1 < key then entry :: offerEntry key value rest
    else entry :: rest

def eraseEntry (key : κ) : List (κ × ν) → List (κ × ν)
  | [] => []
  | entry :: rest =>
    if key < entry.1 then entry :: rest
    else if entry.1 < key then entry :: eraseEntry key rest
    else rest

def findEntry? (key : κ) : List (κ × ν) → Option ν
  | [] => none
  | entry :: rest =>
    if key < entry.1 then none
    else if entry.1 < key then findEntry? key rest
    else some entry.2

theorem mem_insertEntry {key : κ} {value : ν} {entries : List (κ × ν)} {entry : κ × ν}
    (member : entry ∈ insertEntry key value entries) :
    entry = (key, value) ∨ entry ∈ entries := by
  induction entries with
  | nil => simpa [insertEntry] using member
  | cons head rest ih =>
      simp only [insertEntry] at member
      split at member
      · simpa using member
      · split at member
        · rcases List.mem_cons.mp member with same | later
          · exact .inr (same ▸ List.mem_cons_self)
          · exact (ih later).imp_right (List.mem_cons_of_mem _)
        · rcases List.mem_cons.mp member with same | later
          · exact .inl same
          · exact .inr (List.mem_cons_of_mem _ later)

theorem ascending_insertEntry (key : κ) (value : ν) {entries : List (κ × ν)}
    (ascending : Ascending entries) : Ascending (insertEntry key value entries) := by
  induction entries with
  | nil => exact List.pairwise_singleton _ _
  | cons head rest ih =>
      obtain ⟨least, tail⟩ := List.pairwise_cons.mp ascending
      simp only [insertEntry]
      split
      · rename_i before
        exact List.pairwise_cons.mpr ⟨ascending.lt_of_lt_head before, ascending⟩
      · rename_i notBefore
        split
        · rename_i after
          refine List.pairwise_cons.mpr ⟨fun entry member => ?_, ih tail⟩
          rcases mem_insertEntry member with same | old
          · exact same ▸ after
          · exact least entry old
        · rename_i notAfter
          have same : key = head.1 := KeyOrder.eq_of_not_lt notBefore notAfter
          exact List.pairwise_cons.mpr ⟨fun entry member => same ▸ least entry member, tail⟩

theorem mem_offerEntry {key : κ} {value : ν} {entries : List (κ × ν)} {entry : κ × ν}
    (member : entry ∈ offerEntry key value entries) :
    entry = (key, value) ∨ entry ∈ entries := by
  induction entries with
  | nil => simpa [offerEntry] using member
  | cons head rest ih =>
      simp only [offerEntry] at member
      split at member
      · simpa using member
      · split at member
        · rcases List.mem_cons.mp member with same | later
          · exact .inr (same ▸ List.mem_cons_self)
          · exact (ih later).imp_right (List.mem_cons_of_mem _)
        · exact .inr member

theorem ascending_offerEntry (key : κ) (value : ν) {entries : List (κ × ν)}
    (ascending : Ascending entries) : Ascending (offerEntry key value entries) := by
  induction entries with
  | nil => exact List.pairwise_singleton _ _
  | cons head rest ih =>
      obtain ⟨least, tail⟩ := List.pairwise_cons.mp ascending
      simp only [offerEntry]
      split
      · rename_i before
        exact List.pairwise_cons.mpr ⟨ascending.lt_of_lt_head before, ascending⟩
      · split
        · rename_i after
          refine List.pairwise_cons.mpr ⟨fun entry member => ?_, ih tail⟩
          rcases mem_offerEntry member with same | old
          · exact same ▸ after
          · exact least entry old
        · exact ascending

theorem mem_of_mem_eraseEntry {key : κ} {entries : List (κ × ν)} {entry : κ × ν}
    (member : entry ∈ eraseEntry key entries) : entry ∈ entries := by
  induction entries with
  | nil => exact member
  | cons head rest ih =>
      simp only [eraseEntry] at member
      split at member
      · exact member
      · split at member
        · rcases List.mem_cons.mp member with same | later
          · exact same ▸ List.mem_cons_self
          · exact List.mem_cons_of_mem _ (ih later)
        · exact List.mem_cons_of_mem _ member

theorem ascending_eraseEntry (key : κ) {entries : List (κ × ν)}
    (ascending : Ascending entries) : Ascending (eraseEntry key entries) := by
  induction entries with
  | nil => exact ascending
  | cons head rest ih =>
      obtain ⟨least, tail⟩ := List.pairwise_cons.mp ascending
      simp only [eraseEntry]
      split
      · exact ascending
      · split
        · exact List.pairwise_cons.mpr
            ⟨fun entry member => least entry (mem_of_mem_eraseEntry member), ih tail⟩
        · exact tail

structure SortedMap (κ ν : Type) [KeyOrder κ] where
  entries : List (κ × ν)
  ascending : Ascending entries

namespace SortedMap

theorem ext_entries {a b : SortedMap κ ν} (same : a.entries = b.entries) : a = b := by
  cases a
  cases b
  cases same
  rfl

instance [DecidableEq κ] [DecidableEq ν] : DecidableEq (SortedMap κ ν) := fun a b =>
  if same : a.entries = b.entries then .isTrue (ext_entries same)
  else .isFalse fun equal => same (congrArg entries equal)

def empty : SortedMap κ ν := ⟨[], List.Pairwise.nil⟩

instance : EmptyCollection (SortedMap κ ν) := ⟨empty⟩

instance : Inhabited (SortedMap κ ν) := ⟨empty⟩

def insert (map : SortedMap κ ν) (key : κ) (value : ν) : SortedMap κ ν :=
  ⟨insertEntry key value map.entries, ascending_insertEntry key value map.ascending⟩

def erase (map : SortedMap κ ν) (key : κ) : SortedMap κ ν :=
  ⟨eraseEntry key map.entries, ascending_eraseEntry key map.ascending⟩

def get? (map : SortedMap κ ν) (key : κ) : Option ν := findEntry? key map.entries

def size (map : SortedMap κ ν) : Nat := map.entries.length

def keys (map : SortedMap κ ν) : List κ := map.entries.map Prod.fst

theorem ascending_map {μ : Type} (f : ν → μ) {entries : List (κ × ν)}
    (ascending : Ascending entries) :
    Ascending (entries.map fun entry => (entry.1, f entry.2)) :=
  List.pairwise_map.mpr ascending

def mapValues {μ : Type} (f : ν → μ) (map : SortedMap κ ν) : SortedMap κ μ :=
  ⟨map.entries.map fun entry => (entry.1, f entry.2), ascending_map f map.ascending⟩

def offer (map : SortedMap κ ν) (key : κ) (value : ν) : SortedMap κ ν :=
  ⟨offerEntry key value map.entries, ascending_offerEntry key value map.ascending⟩

/-- Of equal keys the last one stays. -/
def ofList (entries : List (κ × ν)) : SortedMap κ ν :=
  entries.foldr (fun entry map => map.offer entry.1 entry.2) empty

end SortedMap

end LineageJournal

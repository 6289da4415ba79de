import Mathlib.Data.List.Perm.Subperm
import LineageJournal.Event

/-! Sorted maps and sets made from their own entries. A map whose entries are written out in
order is the map again, since no key occurs twice; of several entries with one key the last one
is found. -/

namespace LineageJournal

variable {κ ν : Type} [KeyOrder κ]

theorem offerEntry_of_ascending {entry : κ × ν} {rest : List (κ × ν)}
    (ascending : Ascending (entry :: rest)) :
    offerEntry entry.1 entry.2 rest = entry :: rest := by
  cases rest with
  | nil => rfl
  | cons second later =>
      have before : entry.1 < second.1 :=
        (List.pairwise_cons.mp ascending).1 second List.mem_cons_self
      rw [offerEntry, if_pos before]

theorem insertEntry_of_after {key : κ} {value : ν} {entries : List (κ × ν)}
    (after : ∀ entry ∈ entries, entry.1 < key) :
    insertEntry key value entries = entries ++ [(key, value)] := by
  induction entries with
  | nil => rfl
  | cons head rest ih =>
      obtain ⟨least, others⟩ := List.forall_mem_cons.mp after
      have notBefore : ¬ key < head.1 := fun before =>
        KeyOrder.irrefl key (KeyOrder.trans before least)
      rw [insertEntry, if_neg notBefore, if_pos least, ih others, List.cons_append]

namespace SortedMap

theorem entries_ofList_of_ascending {entries : List (κ × ν)} (ascending : Ascending entries) :
    (ofList entries).entries = entries := by
  induction entries with
  | nil => rfl
  | cons entry rest ih =>
      have later := ih (List.pairwise_cons.mp ascending).2
      change offerEntry entry.1 entry.2 (ofList rest).entries = entry :: rest
      rw [later, offerEntry_of_ascending ascending]

theorem ofList_entries (map : SortedMap κ ν) : ofList map.entries = map :=
  ext_entries (entries_ofList_of_ascending map.ascending)

theorem entries_foldl_insert {map : SortedMap κ ν} {more : List (κ × ν)}
    (ascending : Ascending (map.entries ++ more)) :
    (more.foldl (fun map entry => map.insert entry.1 entry.2) map).entries =
      map.entries ++ more := by
  induction more generalizing map with
  | nil => exact (List.append_nil _).symm
  | cons entry rest ih =>
      have after : ∀ other ∈ map.entries, other.1 < entry.1 := fun other member =>
        (List.pairwise_append.mp ascending).2.2 other member entry List.mem_cons_self
      have inserted : (map.insert entry.1 entry.2).entries = map.entries ++ [entry] :=
        insertEntry_of_after after
      rw [List.append_cons, ← inserted] at ascending
      rw [List.foldl_cons, ih ascending, inserted, ← List.append_cons]

theorem foldl_insert_entries (map : SortedMap κ ν) :
    map.entries.foldl (fun map entry => map.insert entry.1 entry.2) ∅ = map :=
  ext_entries (entries_foldl_insert map.ascending)

end SortedMap

theorem offerEntry_subperm (key : κ) (value : ν) (entries : List (κ × ν)) :
    (offerEntry key value entries).Subperm ((key, value) :: entries) := by
  induction entries with
  | nil => exact .refl _
  | cons head rest ih =>
      rw [offerEntry]
      split
      · exact .refl _
      · split
        · have swapped := (List.Perm.swap (key, value) head rest).subperm
          exact ((List.subperm_cons head).mpr ih).trans swapped
        · exact (List.sublist_cons_self (key, value) (head :: rest)).subperm

theorem SortedMap.entries_ofList_subperm (entries : List (κ × ν)) :
    (ofList entries).entries.Subperm entries := by
  induction entries with
  | nil => exact .refl _
  | cons entry rest ih =>
      change (offerEntry entry.1 entry.2 (ofList rest).entries).Subperm (entry :: rest)
      exact (offerEntry_subperm entry.1 entry.2 _).trans ((List.subperm_cons entry).mpr ih)

theorem UuidSet.toList_ofList_subperm (ids : List Uuid) : (ofList ids).toList.Subperm ids := by
  obtain ⟨kept, perm, sublist⟩ := SortedMap.entries_ofList_subperm (ids.map fun id => (id, ()))
  have back : (ids.map fun id => (id, ())).map Prod.fst = ids := by
    rw [List.map_map]
    exact List.map_id _
  exact ⟨kept.map Prod.fst, perm.map Prod.fst, back ▸ sublist.map Prod.fst⟩

theorem mem_keys_offerEntry {key offered : κ} {value : ν} {entries : List (κ × ν)} :
    key ∈ (offerEntry offered value entries).map Prod.fst ↔
      key = offered ∨ key ∈ entries.map Prod.fst := by
  induction entries with
  | nil => simp [offerEntry]
  | cons head rest ih =>
      rw [offerEntry]
      split
      · rw [List.map_cons, List.mem_cons]
      · rename_i notBefore
        split
        · rw [List.map_cons, List.mem_cons, ih, List.map_cons, List.mem_cons, or_left_comm]
        · rename_i notAfter
          have same : offered = head.1 := KeyOrder.eq_of_not_lt notBefore notAfter
          rw [same, List.map_cons, List.mem_cons, or_self_left]

theorem mem_keys_insertEntry {key inserted : κ} {value : ν} {entries : List (κ × ν)} :
    key ∈ (insertEntry inserted value entries).map Prod.fst ↔
      key = inserted ∨ key ∈ entries.map Prod.fst := by
  induction entries with
  | nil => simp [insertEntry]
  | cons head rest ih =>
      rw [insertEntry]
      split
      · rw [List.map_cons, List.mem_cons]
      · rename_i notBefore
        split
        · rw [List.map_cons, List.mem_cons, ih, List.map_cons, List.mem_cons, or_left_comm]
        · rename_i notAfter
          have same : inserted = head.1 := KeyOrder.eq_of_not_lt notBefore notAfter
          rw [List.map_cons, List.mem_cons, List.map_cons, List.mem_cons, same, or_self_left]

theorem UuidSet.mem_toList_foldl_insert {ids : UuidSet} {more : List Uuid} {id : Uuid} :
    id ∈ (more.foldl insert ids).toList ↔ id ∈ ids.toList ∨ id ∈ more := by
  induction more generalizing ids with
  | nil => simp
  | cons first rest ih =>
      have inserted : id ∈ (ids.insert first).toList ↔ id = first ∨ id ∈ ids.toList :=
        mem_keys_insertEntry
      rw [List.foldl_cons, ih, inserted, List.mem_cons, or_assoc, or_left_comm]

theorem UuidSet.mem_toList_ofList {ids : List Uuid} {id : Uuid} :
    id ∈ (ofList ids).toList ↔ id ∈ ids := by
  induction ids with
  | nil => rfl
  | cons first rest ih =>
      rw [List.mem_cons, ← ih]
      exact mem_keys_offerEntry

theorem UuidSet.ofList_toList (ids : UuidSet) : ofList ids.toList = ids := by
  have same : (ids.toList.map fun id => (id, ())) = ids.entries := by
    rw [toList, SortedMap.keys, List.map_map]
    exact List.map_id _
  rw [ofList, same]
  exact SortedMap.ofList_entries ids

theorem KeyOrder.ne_of_lt {a b : κ} (less : a < b) : a ≠ b :=
  fun same => KeyOrder.irrefl b (same ▸ less)

namespace SortedMap

theorem keys_pairwise (map : SortedMap κ ν) : map.keys.Pairwise (· < ·) :=
  List.pairwise_map.mpr map.ascending

theorem keys_nodup (map : SortedMap κ ν) : map.keys.Nodup :=
  map.keys_pairwise.imp KeyOrder.ne_of_lt

theorem entries_nodup (map : SortedMap κ ν) : map.entries.Nodup :=
  map.ascending.imp fun before => ne_of_apply_ne Prod.fst (KeyOrder.ne_of_lt before)

end SortedMap

theorem findEntry?_cons (key : κ) (entry : κ × ν) (rest : List (κ × ν)) :
    findEntry? key (entry :: rest) =
      if key < entry.1 then none
      else if entry.1 < key then findEntry? key rest
      else some entry.2 := rfl

theorem findEntry?_insertEntry (key : κ) (value : ν) (entries : List (κ × ν)) :
    findEntry? key (insertEntry key value entries) = some value := by
  have found (rest : List (κ × ν)) : findEntry? key ((key, value) :: rest) = some value := by
    rw [findEntry?_cons, if_neg (KeyOrder.irrefl key), if_neg (KeyOrder.irrefl key)]
  induction entries with
  | nil => exact found []
  | cons head rest ih =>
      rw [insertEntry]
      split
      · exact found (head :: rest)
      · rename_i notBefore
        split
        · rename_i after
          rw [findEntry?_cons, if_neg notBefore, if_pos after, ih]
        · exact found rest

theorem SortedMap.get?_insert (map : SortedMap κ ν) (key : κ) (value : ν) :
    (map.insert key value).get? key = some value :=
  findEntry?_insertEntry key value map.entries

section Lookup

variable [BEq κ] [LawfulBEq κ]

theorem lookup_of_before {key : κ} {entries : List (κ × ν)}
    (before : ∀ entry ∈ entries, key < entry.1) : entries.lookup key = none := by
  rw [List.lookup_eq_none_iff]
  intro entry member
  exact bne_iff_ne.mpr (KeyOrder.ne_of_lt (before entry member))

theorem findEntry?_eq_lookup {entries : List (κ × ν)} (ascending : Ascending entries) (key : κ) :
    findEntry? key entries = entries.lookup key := by
  induction entries with
  | nil => rfl
  | cons head rest ih =>
      have tail := List.Pairwise.of_cons ascending
      rw [findEntry?_cons]
      split
      · rename_i before
        exact (lookup_of_before (ascending.lt_of_lt_head before)).symm
      · rename_i notBefore
        split
        · rename_i after
          rw [List.lookup_cons, beq_false_of_ne (KeyOrder.ne_of_lt after).symm, ih tail]
        · rename_i notAfter
          have same : key = head.1 := KeyOrder.eq_of_not_lt notBefore notAfter
          rw [List.lookup_cons, same, beq_self_eq_true]

theorem lookup_offerEntry {entries : List (κ × ν)} (ascending : Ascending entries)
    (offered : κ) (value : ν) (key : κ) :
    (offerEntry offered value entries).lookup key =
      (entries.lookup key).or ([(offered, value)].lookup key) := by
  induction entries with
  | nil => rfl
  | cons head rest ih =>
      have tail := List.Pairwise.of_cons ascending
      rw [offerEntry]
      split
      · rename_i before
        have all := ascending.lt_of_lt_head before
        by_cases same : key = offered
        · rw [same, lookup_of_before all, List.lookup_cons_self, Option.none_or,
            List.lookup_cons_self]
        · have apart : (key == offered) = false := beq_false_of_ne same
          simp only [List.lookup_cons (k := offered), apart, List.lookup_nil, Option.or_none]
      · rename_i notBefore
        split
        · rw [List.lookup_cons, List.lookup_cons, ih tail]
          cases key == head.1 <;> rfl
        · rename_i notAfter
          have same : offered = head.1 := KeyOrder.eq_of_not_lt notBefore notAfter
          rw [same, List.lookup_cons, List.lookup_cons]
          cases key == head.1
          · simp
          · rfl

theorem lookup_insertEntry {entries : List (κ × ν)} (ascending : Ascending entries)
    (inserted : κ) (value : ν) (key : κ) :
    (insertEntry inserted value entries).lookup key =
      ([(inserted, value)].lookup key).or (entries.lookup key) := by
  induction entries with
  | nil => rw [insertEntry, List.lookup_nil, Option.or_none]
  | cons head rest ih =>
      have tail := List.Pairwise.of_cons ascending
      have front (others : List (κ × ν)) : ((inserted, value) :: others).lookup key =
          ([(inserted, value)].lookup key).or (others.lookup key) := by
        simp only [List.lookup_cons]
        cases key == inserted <;> rfl
      rw [insertEntry]
      split
      · exact front (head :: rest)
      · rename_i notBefore
        split
        · rename_i after
          cases own : key == head.1 with
          | false =>
              have passed (others : List (κ × ν)) :
                  (head :: others).lookup key = others.lookup key := by
                rw [List.lookup_cons, own]
              rw [passed, passed, ih tail]
          | true =>
              have found (others : List (κ × ν)) :
                  (head :: others).lookup key = some head.2 := by
                rw [List.lookup_cons, own]
              -- The inserted entry comes after the head and has a greater key.
              have apart : (key == inserted) = false := by
                rw [eq_of_beq own]
                exact beq_false_of_ne (KeyOrder.ne_of_lt after)
              have other : [(inserted, value)].lookup key = none := by
                rw [List.lookup_cons, apart]
                rfl
              rw [found, found, other, Option.none_or]
        · rename_i notAfter
          have same : inserted = head.1 := KeyOrder.eq_of_not_lt notBefore notAfter
          rw [front, List.lookup_cons, List.lookup_cons, same]
          cases key == head.1 <;> rfl

theorem lookup_eraseEntry {entries : List (κ × ν)} (ascending : Ascending entries)
    (erased key : κ) :
    (eraseEntry erased entries).lookup key =
      if key == erased then none else entries.lookup key := by
  induction entries with
  | nil => rw [eraseEntry, List.lookup_nil, ite_self]
  | cons head rest ih =>
      obtain ⟨least, tail⟩ := List.pairwise_cons.mp ascending
      rw [eraseEntry]
      split
      · rename_i before
        have all := ascending.lt_of_lt_head before
        cases own : key == erased with
        | false => rfl
        | true => rw [eq_of_beq own, lookup_of_before all, if_pos rfl]
      · rename_i notBefore
        split
        · rename_i after
          rw [List.lookup_cons, ih tail, List.lookup_cons]
          cases own : key == head.1 with
          | false => rfl
          | true =>
              have apart : (key == erased) = false := by
                rw [eq_of_beq own]
                exact beq_false_of_ne (KeyOrder.ne_of_lt after)
              rw [apart]
              rfl
        · rename_i notAfter
          have same : erased = head.1 := KeyOrder.eq_of_not_lt notBefore notAfter
          cases own : key == erased with
          | false => rw [List.lookup_cons, ← same, own]; rfl
          | true => rw [eq_of_beq own, same, lookup_of_before least, if_pos rfl]

omit [KeyOrder κ] in
theorem lookup_eq_some_iff_mem {entries : List (κ × ν)} (unique : (entries.map Prod.fst).Nodup)
    {key : κ} {value : ν} : entries.lookup key = some value ↔ (key, value) ∈ entries := by
  rw [List.lookup_eq_some_iff]
  constructor
  · rintro ⟨earlier, later, rfl, -⟩
    exact List.mem_append_right earlier List.mem_cons_self
  · intro member
    obtain ⟨earlier, later, rfl⟩ := List.append_of_mem member
    refine ⟨earlier, later, rfl, fun entry listed => bne_iff_ne.mpr ?_⟩
    rw [List.map_append, List.nodup_append] at unique
    exact (unique.2.2 entry.1 (List.mem_map_of_mem listed) key List.mem_cons_self).symm

omit [KeyOrder κ] in
theorem lookup_of_perm {entries order : List (κ × ν)} (unique : (entries.map Prod.fst).Nodup)
    (perm : order.Perm entries) (key : κ) : order.lookup key = entries.lookup key := by
  have same : (order.map Prod.fst).Nodup := (perm.map Prod.fst).nodup_iff.mpr unique
  refine Option.ext fun value => ?_
  rw [lookup_eq_some_iff_mem same, lookup_eq_some_iff_mem unique, perm.mem_iff]

omit [KeyOrder κ] [LawfulBEq κ] in
theorem lookup_map_value {μ : Type} (f : ν → μ) (entries : List (κ × ν)) (key : κ) :
    (entries.map fun entry => (entry.1, f entry.2)).lookup key = (entries.lookup key).map f := by
  induction entries with
  | nil => rfl
  | cons entry rest ih =>
      obtain ⟨own, value⟩ := entry
      rw [List.map_cons, List.lookup_cons, List.lookup_cons]
      cases key == own
      · exact ih
      · rfl

namespace SortedMap

theorem get?_eq_lookup (map : SortedMap κ ν) (key : κ) :
    map.get? key = map.entries.lookup key :=
  findEntry?_eq_lookup map.ascending key

theorem get?_ofList (entries : List (κ × ν)) (key : κ) :
    (ofList entries).get? key = entries.reverse.lookup key := by
  induction entries with
  | nil => rfl
  | cons entry rest ih =>
      rw [get?_eq_lookup] at ih ⊢
      change (offerEntry entry.1 entry.2 (ofList rest).entries).lookup key = _
      rw [lookup_offerEntry (ofList rest).ascending, ih, List.reverse_cons, List.lookup_append]

theorem get?_insert_eq_or (map : SortedMap κ ν) (inserted : κ) (value : ν) (key : κ) :
    (map.insert inserted value).get? key =
      ([(inserted, value)].lookup key).or (map.get? key) := by
  rw [get?_eq_lookup, get?_eq_lookup]
  exact lookup_insertEntry map.ascending inserted value key

theorem get?_foldl_insert (map : SortedMap κ ν) (more : List (κ × ν)) (key : κ) :
    (more.foldl (fun map entry => map.insert entry.1 entry.2) map).get? key =
      (more.reverse.lookup key).or (map.get? key) := by
  induction more generalizing map with
  | nil => rfl
  | cons entry rest ih =>
      rw [List.foldl_cons, ih, get?_insert_eq_or, List.reverse_cons, List.lookup_append,
        Option.or_assoc]

theorem get?_mapValues {μ : Type} (f : ν → μ) (map : SortedMap κ ν) (key : κ) :
    (map.mapValues f).get? key = (map.get? key).map f := by
  rw [get?_eq_lookup, get?_eq_lookup]
  exact lookup_map_value f map.entries key

theorem get?_eq_some_iff {map : SortedMap κ ν} {key : κ} {value : ν} :
    map.get? key = some value ↔ (key, value) ∈ map.entries := by
  rw [get?_eq_lookup, lookup_eq_some_iff_mem map.keys_nodup]

theorem get?_erase (map : SortedMap κ ν) (erased key : κ) :
    (map.erase erased).get? key = if key == erased then none else map.get? key := by
  rw [get?_eq_lookup, get?_eq_lookup]
  exact lookup_eraseEntry map.ascending erased key

theorem ext_get? {a b : SortedMap κ ν} (same : ∀ key, a.get? key = b.get? key) : a = b := by
  have members (entry : κ × ν) : entry ∈ a.entries ↔ entry ∈ b.entries := by
    rw [← get?_eq_some_iff, ← get?_eq_some_iff, same]
  have perm : a.entries.Perm b.entries :=
    (List.perm_ext_iff_of_nodup a.entries_nodup b.entries_nodup).mpr members
  refine ext_entries (perm.eq_of_pairwise ?_ a.ascending b.ascending)
  intro first second _ _ before after
  exact absurd (KeyOrder.trans before after) (KeyOrder.irrefl first.1)

end SortedMap

end Lookup

end LineageJournal

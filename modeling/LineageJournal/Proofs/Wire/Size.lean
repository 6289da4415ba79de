import LineageJournal.Proofs.Text.Width
import LineageJournal.Proofs.Wire.Emission

/-! How many bytes fields take. Flags, words and identifiers have fixed sizes, a text has its
length before it, a collection the number of its entries, and a value that may be missing a flag.
So the size of a field follows from its value, and fields after one another take as many bytes as
they take one by one. -/

namespace LineageJournal.Wire

namespace Emission

/-- Nothing is said when the emission was refused. -/
def Takes (emission : Emission) (size : Nat) : Prop :=
  emission.fault = none → emission.bytes.length = size

theorem Takes.append {first second : Emission} {size more : Nat} (head : first.Takes size)
    (tail : second.Takes more) : (first ++ second).Takes (size + more) := by
  intro accepted
  obtain ⟨firstAccepted, secondAccepted⟩ := fault_append.mp accepted
  rw [bytes_append firstAccepted, List.length_append, head firstAccepted, tail secondAccepted]

theorem takes_word (width n : Nat) : (word width n).Takes width :=
  fun _ => bigEndian_length width n

theorem takes_flag (value : Bool) : (flag value).Takes 1 := fun _ => rfl

theorem takes_count (n : Nat) : (count n).Takes 4 := by
  intro accepted
  rw [count, if_pos (fault_count.mp accepted)]
  exact bigEndian_length 4 n

theorem takes_sized (width limit : Nat) (field text : String) :
    (sized width limit field text).Takes (width + text.utf8ByteSize) := by
  intro accepted
  rw [fault_sized, ite_eq_left_iff] at accepted
  have fits : (Utf8.encode text).length ≤ limit := not_not.mp fun long => nomatch accepted long
  rw [sized, if_pos fits, List.length_append, bigEndian_length, Utf8.length_encode]

theorem takes_uuid (id : Uuid) : (uuid id).Takes 16 := (takes_word 8 _).append (takes_word 8 _)

section Items

variable {α : Type} {emit : α → Emission} {size : α → Nat}

theorem takes_nullable (takes : ∀ value, (emit value).Takes (size value)) (value : Option α) :
    (nullable emit value).Takes (value.elim 1 fun written => 1 + size written) := by
  cases value with
  | none => exact takes_flag false
  | some written => exact (takes_flag true).append (takes written)

theorem takes_concat (takes : ∀ item, (emit item).Takes (size item)) (items : List α) :
    (concat (items.map emit)).Takes (items.map size).sum := by
  induction items with
  | nil => exact fun _ => rfl
  | cons item rest ih => exact (takes item).append ih

theorem takes_counted (takes : ∀ item, (emit item).Takes (size item)) (items : List α) :
    (counted emit items).Takes (4 + (items.map size).sum) :=
  (takes_count items.length).append (takes_concat takes items)

end Items

end Emission

def nullableShortSize (text : Option String) : Nat :=
  text.elim 1 fun written => 3 + written.utf8ByteSize

def attributeSize (entry : String × String) : Nat :=
  8 + entry.1.utf8ByteSize + entry.2.utf8ByteSize

def updateSize (entry : String × Option String) : Nat :=
  5 + entry.1.utf8ByteSize + entry.2.elim 0 fun value => 4 + value.utf8ByteSize

def FieldValue.size : FieldValue → Nat
  | .flag _ => 1
  | .count _ => 4
  | .word _ | .millis _ => 8
  | .short text => 2 + text.utf8ByteSize
  | .nullableShort text => nullableShortSize text
  | .long text => 4 + text.utf8ByteSize
  | .nullableLong text => text.elim 1 fun written => 5 + written.utf8ByteSize
  | .uuid _ => 16
  | .uuids ids => 4 + 16 * ids.length
  | .attributes map => 4 + (map.entries.map attributeSize).sum
  | .updates map => 4 + (map.entries.map updateSize).sum
  | .header value => value.encodedLength

namespace Emission

theorem takes_nullableSized (width limit : Nat) (field : String) (text : Option String) :
    (nullable (sized width limit field) text).Takes
      (text.elim 1 fun written => 1 + width + written.utf8ByteSize) := by
  have takes := takes_nullable (takes_sized width limit field) text
  simpa only [← Nat.add_assoc] using takes

theorem takes_nullableShort (field : String) (text : Option String) :
    (nullable (short field) text).Takes (nullableShortSize text) :=
  takes_nullableSized 2 maxShortLength field text

theorem takes_nullableLong (field : String) (text : Option String) :
    (nullable (long field) text).Takes
      (text.elim 1 fun written => 5 + written.utf8ByteSize) :=
  takes_nullableSized 4 maxLongLength field text

theorem takes_uuids (ids : List Uuid) : (counted uuid ids).Takes (4 + 16 * ids.length) := by
  have takes := takes_counted takes_uuid ids
  rwa [List.map_const', List.sum_replicate_nat, Nat.mul_comm] at takes

theorem takes_attributeEntry (entry : String × String) :
    (attributeEntry entry).Takes (attributeSize entry) := by
  have takes := (takes_sized 4 maxLongLength "attribute key" entry.1).append
    (takes_sized 4 maxLongLength "attribute value" entry.2)
  have same : 4 + entry.1.utf8ByteSize + (4 + entry.2.utf8ByteSize) = attributeSize entry := by
    rw [attributeSize]
    omega
  exact same ▸ takes

theorem takes_updateEntry (entry : String × Option String) :
    (updateEntry entry).Takes (updateSize entry) := by
  have takes := (takes_sized 4 maxLongLength "attribute key" entry.1).append
    (takes_nullableLong "attribute value" entry.2)
  have same : 4 + entry.1.utf8ByteSize +
      (entry.2.elim 1 fun written => 5 + written.utf8ByteSize) = updateSize entry := by
    obtain ⟨key, _ | value⟩ := entry <;>
      simp only [updateSize, Option.elim_none, Option.elim_some] <;> omega
  exact same ▸ takes

theorem takes_header (value : SegmentHeader) : (header value).Takes value.encodedLength := by
  have takes := (takes_sized 2 maxShortLength "format_identifier" value.identifier).append
    (takes_word 4 value.version.toNat)
  rwa [← Utf8.length_encode] at takes

end Emission

theorem Field.takes_emit (field : Field) : field.emit.Takes field.value.size := by
  obtain ⟨name, value⟩ := field
  cases value with
  | flag value => exact Emission.takes_flag value
  | count n => exact Emission.takes_count n
  | word value => exact Emission.takes_word 8 _
  | millis value => exact Emission.takes_word 8 _
  | short text => exact Emission.takes_sized 2 maxShortLength name text
  | nullableShort text => exact Emission.takes_nullableShort name text
  | long text => exact Emission.takes_sized 4 maxLongLength name text
  | nullableLong text => exact Emission.takes_nullableLong name text
  | uuid id => exact Emission.takes_uuid id
  | uuids ids => exact Emission.takes_uuids ids
  | attributes map => exact Emission.takes_counted Emission.takes_attributeEntry map.entries
  | updates map => exact Emission.takes_counted Emission.takes_updateEntry map.entries
  | header header => exact Emission.takes_header header

def totalSize (fields : List Field) : Nat := (fields.map fun field => field.value.size).sum

theorem totalSize_nil : totalSize [] = 0 := rfl

theorem totalSize_cons (field : Field) (rest : List Field) :
    totalSize (field :: rest) = field.value.size + totalSize rest :=
  List.sum_cons

theorem totalSize_append (first second : List Field) :
    totalSize (first ++ second) = totalSize first + totalSize second := by
  rw [totalSize, List.map_append, List.sum_append]
  rfl

theorem takes_emitAll (fields : List Field) : (emitAll fields).Takes (totalSize fields) :=
  Emission.takes_concat Field.takes_emit fields

end LineageJournal.Wire

/-! Byte logs: bytes in the order they came. They are held latest first, with their number
beside them, so that adding costs no more than what is added. -/

namespace LineageJournal

structure ByteLog where
  reversed : List UInt8
  size : Nat
  size_eq : size = reversed.length
  deriving DecidableEq, Repr

namespace ByteLog

def empty : ByteLog := ⟨[], 0, rfl⟩

instance : EmptyCollection ByteLog := ⟨empty⟩

instance : Inhabited ByteLog := ⟨empty⟩

def toList (log : ByteLog) : List UInt8 := log.reversed.reverse

def ofList (bytes : List UInt8) : ByteLog :=
  ⟨bytes.reverse, bytes.length, List.length_reverse.symm⟩

def append (log : ByteLog) (bytes : List UInt8) : ByteLog :=
  ⟨bytes.reverseAux log.reversed, log.size + bytes.length, by
    rw [List.reverseAux_eq, List.length_append, List.length_reverse, log.size_eq, Nat.add_comm]⟩

theorem toList_append (log : ByteLog) (bytes : List UInt8) :
    (log.append bytes).toList = log.toList ++ bytes := by
  simp only [toList, append, List.reverseAux_eq, List.reverse_append, List.reverse_reverse]

theorem toList_ofList (bytes : List UInt8) : (ofList bytes).toList = bytes :=
  List.reverse_reverse bytes

theorem length_toList (log : ByteLog) : log.toList.length = log.size := by
  rw [toList, List.length_reverse, log.size_eq]

theorem ext_toList {a b : ByteLog} (same : a.toList = b.toList) : a = b := by
  have reversed : a.reversed = b.reversed := List.reverse_inj.mp same
  obtain ⟨aReversed, aSize, aSizeEq⟩ := a
  obtain ⟨bReversed, bSize, bSizeEq⟩ := b
  subst reversed aSizeEq bSizeEq
  rfl

theorem append_nil (log : ByteLog) : log.append [] = log :=
  ext_toList (by rw [toList_append, List.append_nil])

theorem append_append (log : ByteLog) (first second : List UInt8) :
    (log.append first).append second = log.append (first ++ second) :=
  ext_toList (by rw [toList_append, toList_append, toList_append, List.append_assoc])

end ByteLog

end LineageJournal

import Mathlib.Algebra.Ring.Nat
import LineageJournal.Proofs.Text.Spelling

/-! The width of texts. A text is never longer in standard UTF-8 than in the bytes it was read
from: standard UTF-8 is the shortest form of each character, the modified form may be overlong,
and a surrogate pair takes six bytes there and four here. -/

namespace LineageJournal

namespace Utf8

def width (code : Nat) : Nat :=
  if code < 0x80 then 1 else if code < 0x800 then 2 else if code < 0x10000 then 3 else 4

theorem width_le_four (code : Nat) : width code ≤ 4 := by
  unfold width
  repeat' split
  all_goals omega

theorem three_le_width {code : Nat} (wide : 0x800 ≤ code) : 3 ≤ width code := by
  unfold width
  repeat' split
  all_goals omega

theorem length_encodeChar (c : Char) : (encodeChar c).length = width c.toNat := by
  simp only [encodeChar, width, apply_ite List.length, List.length_cons, List.length_nil]

/-- Characters are as wide as `Char.utf8Size` has them, so texts are as long as
`String.utf8ByteSize` has them. -/
theorem width_toNat (c : Char) : width c.toNat = c.utf8Size := by
  have one : c.val ≤ 0x7F ↔ c.toNat < 0x80 := Nat.lt_succ_iff.symm
  have two : c.val ≤ 0x7FF ↔ c.toNat < 0x800 := Nat.lt_succ_iff.symm
  have three : c.val ≤ 0xFFFF ↔ c.toNat < 0x10000 := Nat.lt_succ_iff.symm
  unfold width Char.utf8Size
  simp only [← one, ← two, ← three]
  rfl

theorem length_encode (text : String) : (encode text).length = text.utf8ByteSize := by
  have widths (c : Char) : (encodeChar c).length = (String.utf8EncodeChar c).length := by
    rw [length_encodeChar, width_toNat, String.length_utf8EncodeChar]
  calc
    (encode text).length = (text.toList.flatMap String.utf8EncodeChar).length := by
      simp only [encode, encodeChars, List.length_flatMap, widths]
    _ = text.toList.utf8Encode.size := List.size_toByteArray.symm
    _ = text.utf8ByteSize := by
      rw [← String.toByteArray_ofList, String.ofList_toList, String.size_toByteArray]

theorem length_le_of_decode {bytes : List UInt8} {text : String}
    (decoded : decode bytes = .ok text) : (encode text).length ≤ bytes.length := by
  rw [decode_eq_ok_iff.mp decoded]

end Utf8

namespace Utf16

open Utf8

def widths (codes : List Nat) : Nat := (codes.map width).sum

/-- The two surrogates count as six bytes, and their character takes four at most. -/
theorem width_le_widths_unitsOfChar (c : Char) : width c.toNat ≤ widths (unitsOfChar c) := by
  simp only [unitsOfChar]
  generalize c.toNat = n
  split
  · rw [widths, List.map_singleton, List.sum_singleton]
  · have most := width_le_four n
    have high : 3 ≤ width (0xD800 + (n - 0x10000) / 1024) := three_le_width (by omega)
    have low : 3 ≤ width (0xDC00 + (n - 0x10000) % 1024) := three_le_width (by omega)
    rw [widths, List.map_cons, List.map_singleton, List.sum_cons, List.sum_singleton]
    omega

theorem length_le_widths (chars : List Char) :
    (encodeChars chars).length ≤ widths (chars.flatMap unitsOfChar) := by
  induction chars with
  | nil => exact Nat.le_refl 0
  | cons c rest ih =>
      have first := width_le_widths_unitsOfChar c
      unfold widths at first ih ⊢
      rw [encodeChars_cons, List.length_append, length_encodeChar, List.flatMap_cons,
        List.map_append, List.sum_append]
      omega

end Utf16

namespace ModifiedUtf8

open Utf8 Utf16

theorem Form.width_le {unit : Nat} {form : List UInt8} (isForm : Form unit form) :
    width unit ≤ form.length := by
  unfold width
  cases isForm with
  | one room => rw [if_pos room, List.length_singleton]
  | two room =>
      rw [if_pos room]
      split <;> simp
  | three room =>
      rw [if_pos room]
      repeat' split
      all_goals simp

theorem Spells.widths_le {units : List Nat} {bytes : List UInt8} (spells : Spells units bytes) :
    widths units ≤ bytes.length := by
  induction spells with
  | nil => exact Nat.le_refl 0
  | cons first rest ih =>
      rw [List.length_append]
      exact Nat.add_le_add first.width_le ih

theorem length_le_of_decode? {bytes : List UInt8} {text : String}
    (decoded : decode? bytes = some text) : (Utf8.encode text).length ≤ bytes.length :=
  calc
    (Utf8.encode text).length ≤ widths (text.toList.flatMap unitsOfChar) :=
      length_le_widths text.toList
    _ ≤ bytes.length := (decode?_eq_some_iff.mp decoded).widths_le

end ModifiedUtf8

end LineageJournal

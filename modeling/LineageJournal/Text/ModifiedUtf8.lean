import LineageJournal.Text.Utf16
import LineageJournal.Text.Utf8

/-! Modified UTF-8, the text form of archived segments: every UTF-16 unit of the text is
written on its own in one to three bytes, and the zero unit as `C0 80`, so the encoded text
holds no zero byte and characters above U+FFFF appear as two three-byte surrogates. -/

namespace LineageJournal.ModifiedUtf8
open Utf8 (isContinuation payload)

def encodeUnit (unit : Nat) : List UInt8 :=
  if unit = 0 then [0xC0, 0x80]
  else if unit < 0x80 then [unit.toUInt8]
  else if unit < 0x800 then [(0xC0 + unit / 64).toUInt8, (0x80 + unit % 64).toUInt8]
  else
    [(0xE0 + unit / 4096).toUInt8, (0x80 + unit / 64 % 64).toUInt8,
      (0x80 + unit % 64).toUInt8]

def encodeChars (chars : List Char) : List UInt8 :=
  (chars.flatMap Utf16.unitsOfChar).flatMap encodeUnit

def encode (text : String) : List UInt8 := encodeChars text.toList

/-- Reads the units in order, with those already read in reverse. Longer forms of a unit
than the one it is written in are read as well. -/
def unitsFrom? (done : List Nat) : List UInt8 → Option (List Nat)
  | [] => some done.reverse
  | lead :: tail =>
    if lead < 0x80 then unitsFrom? (lead.toNat :: done) tail
    else if 0xC0 ≤ lead && lead < 0xE0 then
      match tail with
      | second :: tail =>
        if isContinuation second then
          unitsFrom? ((lead.toNat % 32 * 64 + payload second) :: done) tail
        else none
      | [] => none
    else if 0xE0 ≤ lead && lead < 0xF0 then
      match tail with
      | second :: third :: tail =>
        if isContinuation second && isContinuation third then
          unitsFrom?
            ((lead.toNat % 16 * 4096 + payload second * 64 + payload third) :: done) tail
        else none
      | _ => none
    else none

def decode? (bytes : List UInt8) : Option String := (unitsFrom? [] bytes).bind Utf16.text?

end LineageJournal.ModifiedUtf8

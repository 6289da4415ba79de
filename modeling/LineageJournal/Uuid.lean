/-! 128-bit identifiers: their order, their canonical text and the text forms that are read.
The order is that of the 128-bit number, hence also of the sixteen bytes. -/

namespace LineageJournal

structure Uuid where
  high : UInt64
  low : UInt64
  deriving DecidableEq, Repr, Inhabited

namespace Uuid

def nil : Uuid := ⟨0, 0⟩

def toNat (id : Uuid) : Nat := id.high.toNat * 0x10000000000000000 + id.low.toNat

theorem toNat_injective {a b : Uuid} (same : a.toNat = b.toNat) : a = b := by
  obtain ⟨aHigh, aLow⟩ := a
  obtain ⟨bHigh, bLow⟩ := b
  simp only [toNat] at same
  have ha := aLow.toNat_lt
  have hb := bLow.toNat_lt
  have high : aHigh.toNat = bHigh.toNat := by omega
  have low : aLow.toNat = bLow.toNat := by omega
  rw [UInt64.toNat_inj.mp high, UInt64.toNat_inj.mp low]

instance : LT Uuid := ⟨fun a b => a.toNat < b.toNat⟩

instance : DecidableLT Uuid := fun a b => inferInstanceAs (Decidable (a.toNat < b.toNat))

def hexDigit (n : Nat) : Char :=
  if n < 10 then Char.ofNat (0x30 + n) else Char.ofNat (0x57 + n)

def hexDigits : Nat → Nat → List Char
  | 0, _ => []
  | width + 1, n => hexDigits width (n / 16) ++ [hexDigit (n % 16)]

def toChars (id : Uuid) : List Char :=
  let high := hexDigits 16 id.high.toNat
  let low := hexDigits 16 id.low.toNat
  high.take 8 ++ '-' :: (high.drop 8).take 4 ++ '-' :: high.drop 12 ++
    '-' :: low.take 4 ++ '-' :: low.drop 4

/-- Lower case, in hyphenated groups of 8, 4, 4, 4 and 12 digits. -/
def toText (id : Uuid) : String := String.ofList id.toChars

def hexValue? (c : Char) : Option Nat :=
  let n := c.toNat
  if 0x30 ≤ n ∧ n ≤ 0x39 then some (n - 0x30)
  else if 0x61 ≤ n ∧ n ≤ 0x66 then some (n - 0x57)
  else if 0x41 ≤ n ∧ n ≤ 0x46 then some (n - 0x37)
  else none

def hexNumberFrom? (value : Nat) : List Char → Option Nat
  | [] => some value
  | c :: rest => (hexValue? c).bind fun digit => hexNumberFrom? (value * 16 + digit) rest

def ofDigits? (digits : List Char) : Option Uuid :=
  if digits.length = 32 then do
    let high ← hexNumberFrom? 0 (digits.take 16)
    let low ← hexNumberFrom? 0 (digits.drop 16)
    return ⟨UInt64.ofNat high, UInt64.ofNat low⟩
  else none

def joinGroups? : List Nat → List Char → Option (List Char)
  | [], text => if text.isEmpty then some [] else none
  | [size], text => if text.length = size then some text else none
  | size :: sizes, text =>
    match text.drop size with
    | '-' :: rest => (joinGroups? sizes rest).map (text.take size ++ ·)
    | _ => none

def ofHyphenated? (text : List Char) : Option Uuid :=
  (joinGroups? [8, 4, 4, 4, 12] text).bind ofDigits?

def urnScheme : List Char := "urn:uuid:".toList

/-- Reads 32 digits, the hyphenated form, the hyphenated form in braces, or the hyphenated
form after the urn scheme in any letter case. -/
def ofChars? (text : List Char) : Option Uuid :=
  if text.length = 32 then ofDigits? text
  else if text.length = 36 then ofHyphenated? text
  else if text.length = 38 then
    match text with
    | '\x7b' :: rest => if rest.getLast? = some '\x7d' then ofHyphenated? rest.dropLast else none
    | _ => none
  else if (text.take 9).map Char.toLower = urnScheme then ofHyphenated? (text.drop 9)
  else none

def ofText? (text : String) : Option Uuid := ofChars? text.toList

end Uuid

end LineageJournal

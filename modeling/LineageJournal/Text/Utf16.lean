/-! Surrogate pairs: characters above U+FFFF as two UTF-16 units. Lists of code values may
hold such characters whole or as pairs, and have a text when no surrogate is unpaired. -/

namespace LineageJournal.Utf16

def unitsOfChar (c : Char) : List Nat :=
  let n := c.toNat
  if n < 0x10000 then [n]
  else [0xD800 + (n - 0x10000) / 1024, 0xDC00 + (n - 0x10000) % 1024]

def isHighSurrogate (code : Nat) : Bool := 0xD800 ≤ code && code < 0xDC00

def isLowSurrogate (code : Nat) : Bool := 0xDC00 ≤ code && code < 0xE000

def charOfPair (high low : Nat) : Char :=
  Char.ofNat (0x10000 + (high - 0xD800) * 1024 + (low - 0xDC00))

/-- Joins each surrogate pair to one character, with the characters so far in reverse. -/
def charsFrom? (done : List Char) : List Nat → Option (List Char)
  | [] => some done.reverse
  | code :: tail =>
    if isHighSurrogate code then
      match tail with
      | low :: tail =>
        if isLowSurrogate low then charsFrom? (charOfPair code low :: done) tail else none
      | [] => none
    else if isLowSurrogate code then none
    else charsFrom? (Char.ofNat code :: done) tail

def text? (codes : List Nat) : Option String := (charsFrom? [] codes).map String.ofList

end LineageJournal.Utf16

/-! Standard UTF-8 over byte lists. `encode` gives the bytes of a text; `decode` reads them
back and, when the bytes are not UTF-8, says where the first bad sequence starts and how
many bytes of it could not belong to any character. -/

namespace LineageJournal.Utf8

def isContinuation (byte : UInt8) : Bool := 0x80 ≤ byte && byte < 0xC0

def payload (byte : UInt8) : Nat := byte.toNat % 64

def encodeChar (c : Char) : List UInt8 :=
  let n := c.toNat
  if n < 0x80 then [n.toUInt8]
  else if n < 0x800 then [(0xC0 + n / 64).toUInt8, (0x80 + n % 64).toUInt8]
  else if n < 0x10000 then
    [(0xE0 + n / 4096).toUInt8, (0x80 + n / 64 % 64).toUInt8, (0x80 + n % 64).toUInt8]
  else
    [(0xF0 + n / 262144).toUInt8, (0x80 + n / 4096 % 64).toUInt8,
      (0x80 + n / 64 % 64).toUInt8, (0x80 + n % 64).toUInt8]

def encodeChars (chars : List Char) : List UInt8 := chars.flatMap encodeChar

def encode (text : String) : List UInt8 := encodeChars text.toList

inductive Fault where
  /-- `length` bytes from `index` on begin no character. -/
  | invalid (index length : Nat)
  /-- The bytes end inside the sequence that starts at `index`. -/
  | incomplete (index : Nat)
  deriving DecidableEq, Repr

def Fault.message : Fault → String
  | .invalid index length => s!"invalid utf-8 sequence of {length} bytes from index {index}"
  | .incomplete index => s!"incomplete utf-8 byte sequence from index {index}"

/-- The second byte of a three-byte sequence excludes overlong forms and surrogates. -/
def secondOfThree (lead second : UInt8) : Bool :=
  if lead = 0xE0 then 0xA0 ≤ second && second < 0xC0
  else if lead = 0xED then 0x80 ≤ second && second < 0xA0
  else isContinuation second

/-- The second byte of a four-byte sequence excludes overlong forms and values past U+10FFFF. -/
def secondOfFour (lead second : UInt8) : Bool :=
  if lead = 0xF0 then 0x90 ≤ second && second < 0xC0
  else if lead = 0xF4 then 0x80 ≤ second && second < 0x90
  else isContinuation second

def charOfOne (lead : UInt8) : Char := Char.ofNat lead.toNat

def charOfTwo (lead second : UInt8) : Char :=
  Char.ofNat (lead.toNat % 32 * 64 + payload second)

def charOfThree (lead second third : UInt8) : Char :=
  Char.ofNat (lead.toNat % 16 * 4096 + payload second * 64 + payload third)

def charOfFour (lead second third fourth : UInt8) : Char :=
  Char.ofNat (lead.toNat % 8 * 262144 + payload second * 4096 + payload third * 64 +
    payload fourth)

/-- Reads on from byte `index`, with the characters already read in reverse. -/
def decodeFrom (index : Nat) (done : List Char) : List UInt8 → Except Fault (List Char)
  | [] => .ok done.reverse
  | lead :: tail =>
    if lead < 0x80 then decodeFrom (index + 1) (charOfOne lead :: done) tail
    else if 0xC2 ≤ lead && lead < 0xE0 then
      match tail with
      | [] => .error (.incomplete index)
      | second :: tail =>
        if isContinuation second then
          decodeFrom (index + 2) (charOfTwo lead second :: done) tail
        else .error (.invalid index 1)
    else if 0xE0 ≤ lead && lead < 0xF0 then
      match tail with
      | [] => .error (.incomplete index)
      | second :: tail =>
        if secondOfThree lead second then
          match tail with
          | [] => .error (.incomplete index)
          | third :: tail =>
            if isContinuation third then
              decodeFrom (index + 3) (charOfThree lead second third :: done) tail
            else .error (.invalid index 2)
        else .error (.invalid index 1)
    else if 0xF0 ≤ lead && lead < 0xF5 then
      match tail with
      | [] => .error (.incomplete index)
      | second :: tail =>
        if secondOfFour lead second then
          match tail with
          | [] => .error (.incomplete index)
          | third :: tail =>
            if isContinuation third then
              match tail with
              | [] => .error (.incomplete index)
              | fourth :: tail =>
                if isContinuation fourth then
                  decodeFrom (index + 4) (charOfFour lead second third fourth :: done) tail
                else .error (.invalid index 3)
            else .error (.invalid index 2)
        else .error (.invalid index 1)
    else .error (.invalid index 1)

def decode (bytes : List UInt8) : Except Fault String :=
  (decodeFrom 0 [] bytes).map String.ofList

end LineageJournal.Utf8

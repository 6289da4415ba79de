import LineageJournal.Json.Tree
import LineageJournal.Text.Utf16

/-! The tokens of JSON text: marks, and atoms that are values by themselves. -/

namespace LineageJournal.Json

inductive Token where
  | openObject
  | closeObject
  | openArray
  | closeArray
  | colon
  | comma
  | atom (value : Json)

def isBlank (c : Char) : Bool := c = ' ' || c = '\n' || c = '\t' || c = '\r'

def escape? : Char → Option Nat
  | '"' => some 0x22
  | '\\' => some 0x5C
  | '/' => some 0x2F
  | 'b' => some 0x08
  | 'f' => some 0x0C
  | 'n' => some 0x0A
  | 'r' => some 0x0D
  | 't' => some 0x09
  | _ => none

/-- The codes of a text up to its closing quote, with earlier ones in reverse, and what
follows the quote. -/
def codesFrom? (earlier : List Nat) : List Char → Option (List Nat × List Char)
  | '"' :: rest => some (earlier.reverse, rest)
  | '\\' :: 'u' :: a :: b :: c :: d :: rest => do
    let code ← Uuid.hexNumberFrom? 0 [a, b, c, d]
    codesFrom? (code :: earlier) rest
  | '\\' :: letter :: rest => do
    let code ← escape? letter
    codesFrom? (code :: earlier) rest
  | c :: rest => if c.toNat < 0x20 then none else codesFrom? (c.toNat :: earlier) rest
  | [] => none

def atomOfCodes (codes : List Nat) : Json :=
  match Utf16.text? codes with
  | some value => text value
  | none => brokenText

def isDigit (c : Char) : Bool := '0' ≤ c && c ≤ '9'

def natural (digits : List Char) : Nat :=
  digits.foldl (fun value digit => value * 10 + (digit.toNat - 0x30)) 0

def skipDigits? : List Char → Option (List Char)
  | c :: rest => if isDigit c then some (rest.dropWhile isDigit) else none
  | [] => none

def skipFraction? : List Char → Option (Bool × List Char)
  | '.' :: rest => (skipDigits? rest).map (true, ·)
  | rest => some (false, rest)

def skipSign : List Char → List Char
  | '+' :: rest => rest
  | '-' :: rest => rest
  | rest => rest

def skipExponent? : List Char → Option (Bool × List Char)
  | 'e' :: rest => (skipDigits? (skipSign rest)).map (true, ·)
  | 'E' :: rest => (skipDigits? (skipSign rest)).map (true, ·)
  | rest => some (false, rest)

/-- A whole part has no leading zero. -/
def wholePart? : List Char → Option (Nat × List Char)
  | '0' :: rest => some (0, rest)
  | chars =>
    let digits := chars.takeWhile isDigit
    if digits.isEmpty then none else some (natural digits, chars.dropWhile isDigit)

/-- Negative zero counts as no integer. -/
def number? (negative : Bool) (chars : List Char) : Option (Json × List Char) := do
  let (whole, rest) ← wholePart? chars
  let (hasFraction, rest) ← skipFraction? rest
  let (hasExponent, rest) ← skipExponent? rest
  let value :=
    if hasFraction || hasExponent || (negative && whole == 0) then fraction
    else integer (if negative then -whole else whole)
  return (value, rest)

def token? : List Char → Option (Token × List Char)
  | '\x7b' :: rest => some (.openObject, rest)
  | '\x7d' :: rest => some (.closeObject, rest)
  | '[' :: rest => some (.openArray, rest)
  | ']' :: rest => some (.closeArray, rest)
  | ':' :: rest => some (.colon, rest)
  | ',' :: rest => some (.comma, rest)
  | '"' :: rest => (codesFrom? [] rest).map fun (codes, rest) => (.atom (atomOfCodes codes), rest)
  | '-' :: rest => (number? true rest).map fun (value, rest) => (.atom value, rest)
  | 'n' :: 'u' :: 'l' :: 'l' :: rest => some (.atom null, rest)
  | 't' :: 'r' :: 'u' :: 'e' :: rest => some (.atom (bool true), rest)
  | 'f' :: 'a' :: 'l' :: 's' :: 'e' :: rest => some (.atom (bool false), rest)
  | chars => (number? false chars).map fun (value, rest) => (.atom value, rest)

def tokensFrom? (limit : Nat) (earlier : List Token) (chars : List Char) :
    Option (List Token) :=
  let start := chars.dropWhile isBlank
  if start.isEmpty then some earlier.reverse
  else
    match limit with
    | 0 => none
    | limit + 1 => do
      let (token, rest) ← token? start
      tokensFrom? limit (token :: earlier) rest

/-- Every token takes up at least one character, so their number is bounded. -/
def tokens? (document : String) : Option (List Token) :=
  let chars := document.toList
  tokensFrom? chars.length [] chars

end LineageJournal.Json

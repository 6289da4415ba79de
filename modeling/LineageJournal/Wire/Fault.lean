import LineageJournal.Failure
import LineageJournal.Text.Utf8

/-! Why bytes are no field, and why a field has no bytes. Both are causes; their kinds and
texts are given here once. -/

namespace LineageJournal.Wire

inductive DecodeFault where
  /-- The bytes end inside a field of fixed size or a short string. -/
  | truncated
  /-- The bytes end inside a long string of `length` bytes, after `got` of them. -/
  | stringTruncated (length got : Nat)
  | negativeCount (count : Int)
  | negativeLength (length : Int)
  /-- A short string that neither text encoding admits. -/
  | notText
  /-- A long string that is not UTF-8. -/
  | notUtf8 (fault : Utf8.Fault)
  | unknownKind (name : String)
  | badUuid (text : String)
  deriving DecidableEq, Repr

namespace DecodeFault

def kind : DecodeFault → FailureKind
  | truncated | stringTruncated _ _ => .unexpectedEof
  | _ => .invalidData

def message : DecodeFault → String
  | truncated => "failed to fill whole buffer"
  | stringTruncated length got => s!"string of {length} bytes ended after {got}"
  | negativeCount count => s!"negative count {count}"
  | negativeLength length => s!"negative string length {length}"
  | notText => "invalid UTF-8 in string"
  | notUtf8 fault => "invalid UTF-8 in string: " ++ fault.message
  | unknownKind name => s!"unknown event type '{name}'"
  | badUuid text => s!"invalid UUID '{text}': not an identifier"

def failure (fault : DecodeFault) : Failure := ⟨fault.kind, fault.message⟩

end DecodeFault

inductive EncodeFault where
  | stringTooLong (field : String) (length limit : Nat)
  | tooManyEntries (count : Nat)
  deriving DecidableEq, Repr

end LineageJournal.Wire

/-! Big-endian words: a number in a fixed count of bytes, most significant byte first. -/

namespace LineageJournal.Wire

def bigEndian : Nat → Nat → List UInt8
  | 0, _ => []
  | width + 1, n => bigEndian width (n / 256) ++ [n.toUInt8]

def ofBigEndian (bytes : List UInt8) : Nat :=
  bytes.foldl (fun value byte => value * 256 + byte.toNat) 0

theorem bigEndian_length (width n : Nat) : (bigEndian width n).length = width := by
  induction width generalizing n with
  | zero => rfl
  | succ width ih => simp [bigEndian, ih]

def signed32 (n : Nat) : Int := if n < 0x80000000 then n else (n : Int) - 0x100000000

end LineageJournal.Wire

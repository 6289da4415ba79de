import Mathlib.Algebra.Ring.Nat
import Mathlib.Data.List.Induction
import LineageJournal.Wire.Word

/-! Big-endian words read back: the value of the bytes of a number is the number, less what
does not fit the width. Counts and lengths are written in four bytes and read as signed
numbers, which changes nothing below 2^31. -/

namespace LineageJournal.Wire

theorem ofBigEndian_append_singleton (bytes : List UInt8) (byte : UInt8) :
    ofBigEndian (bytes ++ [byte]) = ofBigEndian bytes * 256 + byte.toNat := by
  rw [ofBigEndian, List.foldl_append]
  rfl

theorem ofBigEndian_bigEndian (width n : Nat) :
    ofBigEndian (bigEndian width n) = n % 256 ^ width := by
  induction width generalizing n with
  | zero => simp [bigEndian, ofBigEndian, Nat.mod_one]
  | succ width ih =>
      have last : n.toUInt8.toNat = n % 256 := by
        simp only [Nat.toUInt8_eq, UInt8.toNat_ofNat', Nat.reducePow]
      rw [bigEndian, ofBigEndian_append_singleton, ih, last, Nat.pow_succ', Nat.mod_mul,
        Nat.mul_comm, Nat.add_comm]

theorem ofBigEndian_bigEndian_of_lt {width n : Nat} (small : n < 256 ^ width) :
    ofBigEndian (bigEndian width n) = n := by
  rw [ofBigEndian_bigEndian, Nat.mod_eq_of_lt small]

theorem ofBigEndian_lt (bytes : List UInt8) : ofBigEndian bytes < 256 ^ bytes.length := by
  induction bytes using List.reverseRecOn with
  | nil => exact Nat.one_pos
  | append_singleton bytes byte ih =>
      have small := byte.toNat_lt
      rw [ofBigEndian_append_singleton, List.length_append, List.length_singleton, Nat.pow_succ]
      omega

theorem toNat_signed32_lt {n : Nat} (small : n < 256 ^ 4) (positive : ¬ signed32 n < 0) :
    (signed32 n).toNat < 0x80000000 := by
  unfold signed32 at positive ⊢
  split
  · rename_i below
    simpa using below
  · rename_i above
    rw [if_neg above] at positive
    omega

theorem signed32_of_lt {n : Nat} (small : n < 0x80000000) : signed32 n = n := by
  rw [signed32, if_pos small]

end LineageJournal.Wire

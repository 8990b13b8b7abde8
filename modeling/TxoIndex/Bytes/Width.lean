import Mathlib.Algebra.Ring.Nat
import TxoIndex.Bytes

/-!
# Widths of numbers

A number is read back from its bytes if they are wide enough for it, and what is cut off otherwise
are its highest digits in base two hundred and fifty-six.
-/

namespace TxoIndex.Bytes

theorem littleEndianValue_lt (bs : Bytes) : littleEndianValue bs < 256 ^ bs.length := by
  induction bs with
  | nil => simp [littleEndianValue]
  | cons b rest ih =>
    have hb := b.toNat_lt
    simp only [littleEndianValue, List.length_cons, Nat.pow_succ]
    omega

/-- A number that fits its width is read back from its bytes. -/
theorem littleEndianValue_littleEndian (width n : Nat) :
    littleEndianValue (littleEndian width n) = n % 256 ^ width := by
  induction width generalizing n with
  | zero => simp [littleEndian, littleEndianValue, Nat.mod_one]
  | succ width ih =>
    have h : n % (256 * 256 ^ width) = n % 256 + 256 * (n / 256 % 256 ^ width) :=
      Nat.mod_mul
    rw [littleEndian, littleEndianValue, ih, Nat.pow_succ, Nat.mul_comm (256 ^ width), h]
    simp

end TxoIndex.Bytes

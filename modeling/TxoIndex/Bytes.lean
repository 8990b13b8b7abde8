/-!
# Byte strings

A byte string is a list of bytes, so that every parser and printer of the library is a function on
lists and is reasoned about by induction. Fixed-width numbers are little-endian throughout the block
format, and big-endian inside the hash functions. Every byte string spells one number, from which it
is spelled back.
-/

namespace TxoIndex

/-- A byte string. Its order is the lexicographic one, a proper initial part coming first. -/
abbrev Bytes := List UInt8

namespace Bytes

/-! ## Fixed-width numbers -/

/-- The lowest `width` bytes of a number, the least significant one first. -/
def littleEndian : (width : Nat) → Nat → Bytes
  | 0, _ => []
  | width + 1, n => UInt8.ofNat n :: littleEndian width (n / 256)

def littleEndianValue : Bytes → Nat
  | [] => 0
  | b :: rest => b.toNat + 256 * littleEndianValue rest

def bigEndian (width n : Nat) : Bytes :=
  (littleEndian width n).reverse

@[simp]
theorem length_littleEndian (width n : Nat) : (littleEndian width n).length = width := by
  induction width generalizing n with
  | zero => rfl
  | succ width ih => simp [littleEndian, ih]

@[simp]
theorem length_bigEndian (width n : Nat) : (bigEndian width n).length = width := by
  simp [bigEndian]

/-- Every byte string spells exactly one number of its width. -/
theorem littleEndian_littleEndianValue (bs : Bytes) :
    littleEndian bs.length (littleEndianValue bs) = bs := by
  induction bs with
  | nil => rfl
  | cons b rest ih =>
    have hb := b.toNat_lt
    have hdiv : (b.toNat + 256 * littleEndianValue rest) / 256 = littleEndianValue rest := by omega
    have hmod : UInt8.ofNat (b.toNat + 256 * littleEndianValue rest) = b := by
      apply UInt8.toNat_inj.1
      rw [UInt8.toNat_ofNat']
      omega
    simp only [littleEndianValue, List.length_cons, littleEndian, hdiv, hmod, ih]

/-! ## Cutting -/

/-- The bytes from a position on, as many as told as far as there are any. -/
def slice (bs : Bytes) (start count : Nat) : Bytes := (bs.drop start).take count

/-- The number that a few bytes from a position on spell. -/
def numberAt (bs : Bytes) (start width : Nat) : Nat := littleEndianValue (bs.slice start width)

/-- The first `n` bytes and the rest, if there are that many. -/
def split? (n : Nat) (bs : Bytes) : Option (Bytes × Bytes) :=
  let front := bs.take n
  if front.length = n then some (front, bs.drop n) else none

theorem split?_eq_some_iff {n : Nat} {bs front rest : Bytes} :
    split? n bs = some (front, rest) ↔ front.length = n ∧ bs = front ++ rest := by
  constructor
  · intro h
    simp only [split?] at h
    split at h
    · next hlen =>
      obtain ⟨rfl, rfl⟩ := Prod.mk.inj (Option.some.inj h)
      exact ⟨hlen, (List.take_append_drop n bs).symm⟩
    · exact absurd h (by simp)
  · rintro ⟨rfl, rfl⟩
    simp [split?]

theorem split?_eq_none_iff {n : Nat} {bs : Bytes} : split? n bs = none ↔ bs.length < n := by
  simp only [split?, List.length_take]
  split <;> simp <;> omega

end Bytes

end TxoIndex

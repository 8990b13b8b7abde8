import TxoIndex.Bytes

/-!
# Compact sizes

Counts and lengths are written in one, three, five or nine bytes: a small number is its own byte,
and a larger one follows a tag that names its width. Only the shortest form of a number is accepted,
so every number has exactly one spelling and no spelling starts another.
-/

namespace TxoIndex.CompactSize

/-- The shortest spelling of a number below `2 ^ 64`. -/
def encode (n : Nat) : Bytes :=
  if n < 0xfd then [UInt8.ofNat n]
  else if n < 0x10000 then 0xfd :: Bytes.littleEndian 2 n
  else if n < 0x100000000 then 0xfe :: Bytes.littleEndian 4 n
  else 0xff :: Bytes.littleEndian 8 n

/-- How many bytes the shortest spelling of a number takes. -/
def width (n : Nat) : Nat :=
  if n < 0xfd then 1 else if n < 0x10000 then 3 else if n < 0x100000000 then 5 else 9

inductive Error where
  /-- The bytes end inside the number. -/
  | truncated
  /-- The number would have fitted a shorter form. -/
  | nonMinimal
  deriving DecidableEq, Repr

/-- Reads the `bytes` little-endian bytes behind a tag, refusing numbers below `least`. -/
def readTagged (bytes least : Nat) (bs : Bytes) : Except Error (Nat × Bytes) :=
  match Bytes.split? bytes bs with
  | none => .error .truncated
  | some (digits, rest) =>
    let n := Bytes.littleEndianValue digits
    if n < least then .error .nonMinimal else .ok (n, rest)

/-- Reads a compact size at the start of `bs`, and returns it with the bytes behind it. -/
def read : Bytes → Except Error (Nat × Bytes)
  | [] => .error .truncated
  | tag :: rest =>
    if tag = 0xfd then readTagged 2 0xfd rest
    else if tag = 0xfe then readTagged 4 0x10000 rest
    else if tag = 0xff then readTagged 8 0x100000000 rest
    else .ok (tag.toNat, rest)

@[simp]
theorem length_encode (n : Nat) : (encode n).length = width n := by
  simp only [encode, width]
  split
  · rfl
  · split
    · simp
    · split <;> simp

end TxoIndex.CompactSize

import TxoIndex.Bytes

/-!
# Hexadecimal text

Bytes are written as two lower-case digits each. Reading accepts both cases and asks for whole
bytes, so reading undoes writing and writing undoes reading up to case.
-/

namespace TxoIndex.Hex

def digit (n : Nat) : Char :=
  if n < 10 then Char.ofNat (48 + n) else Char.ofNat (87 + n)

/-- The value of a digit in either case. -/
def value? (c : Char) : Option Nat :=
  let n := c.toNat
  if 48 ≤ n ∧ n ≤ 57 then some (n - 48)
  else if 97 ≤ n ∧ n ≤ 102 then some (n - 87)
  else if 65 ≤ n ∧ n ≤ 70 then some (n - 55)
  else none

/-- The two digits of a byte, the high half first. -/
def byteDigits (b : UInt8) : List Char :=
  [digit (b.toNat / 16), digit (b.toNat % 16)]

def encode (bs : Bytes) : String :=
  String.ofList (bs.flatMap byteDigits)

def decode? : List Char → Option Bytes
  | [] => some []
  | [_] => none
  | high :: low :: rest => do
    let h ← value? high
    let l ← value? low
    let bs ← decode? rest
    return UInt8.ofNat (16 * h + l) :: bs

/-- Every digit is read back as the number it was written for. -/
theorem value?_digit : ∀ n < 16, value? (digit n) = some n := by
  decide

/-- Reading undoes writing. -/
theorem decode?_encode (bs : Bytes) : decode? (bs.flatMap byteDigits) = some bs := by
  induction bs with
  | nil => rfl
  | cons b rest ih =>
    have hb := b.toNat_lt
    have hh := value?_digit (b.toNat / 16) (by omega)
    have hl := value?_digit (b.toNat % 16) (by omega)
    have hval : UInt8.ofNat (16 * (b.toNat / 16) + b.toNat % 16) = b := by
      apply UInt8.toNat_inj.1
      rw [UInt8.toNat_ofNat']
      omega
    simp only [List.flatMap_cons, byteDigits, List.cons_append, List.nil_append, decode?, hh, hl,
      ih, Option.bind_eq_bind, Option.bind_some, Option.pure_def, hval]

end TxoIndex.Hex

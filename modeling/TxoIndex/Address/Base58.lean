import TxoIndex.Hash

/-!
# Base 58

A byte string is written as a number in base fifty-eight, with a leading one for each zero byte at
its front. With four bytes of its double hash behind it, a mistyped character is noticed.
-/

namespace TxoIndex.Base58

/-- The digits in ascending order; letters and digits that look alike are left out. -/
def digits : List Char := "123456789ABCDEFGHJKLMNPQRSTUVWXYZabcdefghijkmnopqrstuvwxyz".toList

def value? (cs : List Char) : Option Nat :=
  cs.foldlM (fun n c ↦ (digits.idxOf? c).map (58 * n + ·)) 0

/-- The bytes of a number without leading zeros, the most significant one first; `done` holds the
bytes behind them. -/
def numberBytes (n : Nat) (done : Bytes) : Bytes :=
  if _h : n = 0 then done else numberBytes (n / 256) (UInt8.ofNat n :: done)
termination_by n
decreasing_by omega

def decode? (cs : List Char) : Option Bytes := do
  let n ← value? cs
  return (cs.takeWhile (· = '1')).map (fun _ ↦ 0) ++ numberBytes n []

/-- The four bytes that stand behind a byte string. -/
def checksum (bs : Bytes) : Bytes := (Hash.double bs).bytes.take 4

def decodeChecked? (cs : List Char) : Option Bytes := do
  let bs ← decode? cs
  let front := bs.take (bs.length - 4)
  if 4 ≤ bs.length ∧ bs.drop (bs.length - 4) = checksum front then some front else none

end TxoIndex.Base58

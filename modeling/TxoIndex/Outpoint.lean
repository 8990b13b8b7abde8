import TxoIndex.Decimal.Digits
import TxoIndex.Wire.Decoder

/-!
# Outpoints

An outpoint names one output, or one input, of a transaction. Its thirty-six bytes are the key of
the outpoint table and the front of every stored record, so the byte order of records of different
outpoints is the order of these keys.
-/

namespace TxoIndex

/-- The index of an output or input within a transaction. -/
@[ext]
structure Outpoint where
  txid : Txid
  vout : UInt32
  deriving DecidableEq, Inhabited

namespace Outpoint

/-- The outpoint that stands for "nothing": a coinbase input spends it, and an unspent record
carries it in place of a spender. -/
def null : Outpoint := ⟨Hash.zero, 0xffffffff⟩

/-- The bytes of the transaction name and the little-endian index. -/
def key (o : Outpoint) : Bytes :=
  o.txid.bytes ++ word32Bytes o.vout

@[simp]
theorem length_key (o : Outpoint) : o.key.length = 36 := by
  simp [key, word32Bytes, o.txid.length_bytes]

def decoder : Decoder Outpoint := do
  let txid ← Decoder.hash
  let vout ← Decoder.word32
  return ⟨txid, vout⟩

/-- Outpoints are ordered by transaction name and then by index, as a number. -/
instance : Ord Outpoint :=
  ⟨fun x y ↦ (compare x.txid y.txid).then (compare x.vout y.vout)⟩

def display (o : Outpoint) : String :=
  s!"{o.txid.display}:{o.vout.toNat}"

def parse? (text : String) : Option Outpoint := do
  let [txid, vout] := text.splitOn ":" | none
  let txid ← (Hash.parse txid).toOption
  let vout ← Decimal.natural? vout.toList
  if vout < UInt32.size then some ⟨txid, UInt32.ofNat vout⟩ else none

end Outpoint

end TxoIndex

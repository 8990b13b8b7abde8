import TxoIndex.Outpoint

/-!
# Transaction outputs

The index keeps one record for each transaction output: where it was created, how high, its value,
and the input that spends it once that is known. A record takes eighty-four bytes. An unknown height
and a missing spender are written as values that the fields cannot otherwise have in a real chain,
so every record decodes, and decoding undoes encoding for every output without those two values.
-/

namespace TxoIndex

structure Txo where
  outpoint : Outpoint
  /-- The height of the block that created it, if that block is connected to the genesis block. -/
  height : Option UInt32
  value : UInt64
  spentBy : Option Outpoint
  deriving DecidableEq, Inhabited

namespace Txo

def unknownHeight : UInt32 := 0xffffffff

def size : Nat := 84

def isSpent (t : Txo) : Bool := t.spentBy.isSome

/-- The record of an output. Its first thirty-six bytes are the key of the outpoint. -/
def encode (t : Txo) : Bytes :=
  t.outpoint.key ++ word32Bytes (t.height.getD unknownHeight) ++ word64Bytes t.value ++
    (t.spentBy.getD Outpoint.null).key

@[simp]
theorem length_encode (t : Txo) : t.encode.length = size := by
  simp [encode, word32Bytes, word64Bytes, size]

def decoder : Decoder Txo := do
  let outpoint ← Outpoint.decoder
  let height ← Decoder.word32
  let value ← Decoder.word64
  let spentBy ← Outpoint.decoder
  return {
    outpoint
    height := if height = unknownHeight then none else some height
    value
    spentBy := if spentBy = Outpoint.null then none else some spentBy }

def decode (bs : Bytes) : Except CodecError Txo :=
  Decoder.exactly decoder bs

/-! ## Order -/

/-- An absent value comes before every present one. -/
def compareOption {α : Type} [Ord α] : Option α → Option α → Ordering
  | none, none => .eq
  | none, some _ => .lt
  | some _, none => .gt
  | some x, some y => compare x y

/-- Outputs are ordered by outpoint, height, value and spender. -/
instance : Ord Txo :=
  ⟨fun x y ↦
    (compare x.outpoint y.outpoint).then <| (compareOption x.height y.height).then <|
      (compare x.value y.value).then <| compareOption x.spentBy y.spentBy⟩

def sort (ts : List Txo) : List Txo :=
  ts.mergeSort fun x y ↦ (compare x y).isLE

end Txo

end TxoIndex

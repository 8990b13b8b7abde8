import TxoIndex.Block.Basic

/-!
# Walking over blocks

A walk passes over the bytes of a block without building its transactions. It finds the outputs and,
by cutting the parts that count out of the raw bytes, the name of each transaction. It follows the
same grammar as decoding, in the same order, but puts no limit on witnesses, and it reports what it
meets in words of its own.
-/

namespace TxoIndex

/-- Where a walk stands: the bytes ahead, and how many have been passed. -/
structure Cursor where
  ahead : Bytes
  passed : Nat

namespace Cursor

def start (bs : Bytes) : Cursor := ⟨bs, 0⟩

/-- The bytes between two positions of one walk. -/
def upTo (start stop : Cursor) : Bytes :=
  start.ahead.take (stop.passed - start.passed)

end Cursor

abbrev Walk (α : Type) := StateT Cursor (Except WalkError) α

namespace Walk

def take (n : Nat) : Walk Bytes := fun c ↦
  match Bytes.split? n c.ahead with
  | none => .error .moreBytesNeeded
  | some (front, rest) => .ok (front, ⟨rest, c.passed + n⟩)

def compactSize : Walk Nat := fun c ↦
  match CompactSize.read c.ahead with
  | .error .truncated => .error .moreBytesNeeded
  | .error .nonMinimal => .error .nonMinimal
  | .ok (n, rest) => .ok (n, ⟨rest, c.passed + CompactSize.width n⟩)

def sized : Walk Bytes := do
  take (← compactSize)

structure Output where
  value : UInt64
  script : Bytes
  deriving DecidableEq

structure Transaction where
  txid : Txid
  inputs : Nat
  outputs : List Output

def input : Walk Unit := do
  let _ ← take 36
  let _ ← sized
  let _ ← take 4

def output : Walk Output := do
  let value ← take 8
  let script ← sized
  return ⟨UInt64.ofNat (Bytes.littleEndianValue value), script⟩

/-- Passes over a list of inputs and returns their number. -/
def inputs : Walk Nat := do
  let count ← compactSize
  let _ ← repeatStep input count []
  return count

def outputs : Walk (List Output) := do
  let count ← compactSize
  repeatStep output count []

/-- Passes over the witness of one input, and tells whether it is empty. -/
def witness : Walk Bool := do
  let count ← compactSize
  let _ ← repeatStep sized count []
  return count == 0

/-- A transaction. Its name is the double hash of the raw bytes, without the marker, the flag and
the witnesses where there are any. -/
def transaction : Walk Transaction := do
  let version ← take 4
  let body ← get
  let count ← inputs
  if count = 0 then
    let flag ← take 1
    if flag ≠ [1] then throw (.unknownSegwitFlag (flag.headD 0))
    let body ← get
    let count ← inputs
    let outs ← outputs
    let body := body.upTo (← get)
    let empties ← repeatStep witness count []
    if count ≠ 0 ∧ empties.all id then throw .segwitFlagWithoutWitnesses
    let lockTime ← take 4
    return ⟨Hash.double (version ++ body ++ lockTime), count, outs⟩
  else
    let outs ← outputs
    let body := body.upTo (← get)
    let lockTime ← take 4
    return ⟨Hash.double (version ++ body ++ lockTime), count, outs⟩

def block : Walk (List Transaction) := do
  let _ ← take Header.size
  let count ← compactSize
  repeatStep transaction count []

/-- Walks over a whole block, refusing trailing bytes. -/
def ofBlockBytes (bs : Bytes) : Except CodecError (List Transaction) :=
  match block (.start bs) with
  | .error e => .error (.parse e)
  | .ok (txs, c) => if c.ahead.isEmpty then .ok txs else .error (.leftover c.ahead.length)

end Walk

end TxoIndex

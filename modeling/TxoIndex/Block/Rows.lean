import TxoIndex.Block.Decode
import TxoIndex.Block.Walk
import TxoIndex.Txo

/-!
# Rows of a block

Indexing turns a block into rows. The outputs pass walks over the block and gets one funding row for
each output; the spends pass decodes the block and gets one spending row for each input that spends
something. Both report the same header, name and number of transactions.
-/

namespace TxoIndex

/-- An output to be added under its script hash. -/
structure FundingRow where
  scriptHash : ScriptHash
  txo : Txo
  deriving DecidableEq

/-- An input that marks `prevout` as spent by `spender`. -/
structure SpendingRow where
  prevout : Outpoint
  spender : Outpoint
  deriving DecidableEq

/-- The rows that one pass writes for a block. -/
structure Batch where
  hash : BlockHash
  header : Header
  transactions : Nat
  funding : List FundingRow
  spending : List SpendingRow

namespace Batch

def fundingRows (height : Option UInt32) (tx : Walk.Transaction) : List FundingRow :=
  tx.outputs.zipIdx.map fun (out, vout) ↦
    { scriptHash := Hash.single out.script
      txo := ⟨⟨tx.txid, UInt32.ofNat vout⟩, height, out.value, none⟩ }

/-- Every output of a block, found by walking over its bytes. -/
def outputs (block : Bytes) (height : Option UInt32) : Except CodecError Batch := do
  let header ← Header.ofBlockBytes block
  let txs ← Walk.ofBlockBytes block
  return {
    hash := header.hash
    header
    transactions := txs.length
    funding := txs.flatMap (fundingRows height)
    spending := [] }

/-- The rows of the inputs of one transaction, coinbase inputs left out. -/
def spendingRows (tx : Tx) : List SpendingRow :=
  let txid := tx.txid
  tx.inputs.zipIdx.filterMap fun (i, vin) ↦
    if i.prevout = Outpoint.null then none
    else some ⟨i.prevout, ⟨txid, UInt32.ofNat vin⟩⟩

/-- Every input of a block that spends something, found by decoding it. -/
def spends (block : Bytes) : Except CodecError Batch := do
  let block ← Block.decode block
  return {
    hash := block.header.hash
    header := block.header
    transactions := block.txs.length
    funding := []
    spending := block.txs.flatMap spendingRows }

end Batch

end TxoIndex

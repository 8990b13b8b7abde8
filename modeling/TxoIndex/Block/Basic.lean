import TxoIndex.Outpoint

/-!
# Blocks

A block is a header and a list of transactions. The bytes of a transaction come in two forms: the
plain one, and the witness one, in which a marker that no plain transaction can have (no inputs)
announces the witnesses behind the outputs. The encoder uses the witness form exactly when some
input has a witness or there are no inputs, so each transaction has one encoding.

A transaction is named by its plain form, so witnesses do not influence its name.
-/

namespace TxoIndex

/-- The eighty bytes that a block is named by. -/
structure Header where
  version : UInt32
  prev : BlockHash
  merkleRoot : Hash
  time : UInt32
  bits : UInt32
  nonce : UInt32
  deriving DecidableEq, Inhabited

structure TxIn where
  prevout : Outpoint
  script : Bytes
  sequence : UInt32
  witness : List Bytes
  deriving DecidableEq, Inhabited

structure TxOut where
  value : UInt64
  script : Bytes
  deriving DecidableEq, Inhabited

structure Tx where
  version : UInt32
  inputs : List TxIn
  outputs : List TxOut
  lockTime : UInt32
  deriving DecidableEq, Inhabited

structure Block where
  header : Header
  txs : List Tx
  deriving DecidableEq, Inhabited

/-! ## Encoding -/

namespace Header

def size : Nat := 80

def encode (h : Header) : Bytes :=
  word32Bytes h.version ++ h.prev.bytes ++ h.merkleRoot.bytes ++ word32Bytes h.time ++
    word32Bytes h.bits ++ word32Bytes h.nonce

@[simp]
theorem length_encode (h : Header) : h.encode.length = size := by
  simp [encode, word32Bytes, h.prev.length_bytes, h.merkleRoot.length_bytes, size]

def hash (h : Header) : BlockHash := Hash.double h.encode

end Header

namespace TxIn

/-- An input without its witness, which the witness form puts elsewhere. -/
def encode (i : TxIn) : Bytes :=
  i.prevout.key ++ sizedBytes i.script ++ word32Bytes i.sequence

def encodeWitness (i : TxIn) : Bytes := countedBytes sizedBytes i.witness

end TxIn

def TxOut.encode (o : TxOut) : Bytes := word64Bytes o.value ++ sizedBytes o.script

namespace Tx

def encodeBody (tx : Tx) : Bytes :=
  countedBytes TxIn.encode tx.inputs ++ countedBytes TxOut.encode tx.outputs

def encodePlain (tx : Tx) : Bytes :=
  word32Bytes tx.version ++ tx.encodeBody ++ word32Bytes tx.lockTime

def hasWitnessForm (tx : Tx) : Bool :=
  tx.inputs.isEmpty || tx.inputs.any fun i ↦ !i.witness.isEmpty

def encode (tx : Tx) : Bytes :=
  if tx.hasWitnessForm then
    word32Bytes tx.version ++ [0, 1] ++ tx.encodeBody ++ tx.inputs.flatMap TxIn.encodeWitness ++
      word32Bytes tx.lockTime
  else tx.encodePlain

def txid (tx : Tx) : Txid := Hash.double tx.encodePlain

end Tx

def Block.encode (b : Block) : Bytes :=
  b.header.encode ++ countedBytes Tx.encode b.txs

end TxoIndex

import TxoIndex.Block.Basic

/-!
# Decoding blocks

Decoding reads a block from left to right and owns everything that it reads. It undoes the encoder
and refuses every other spelling: counts in longer forms, witness flags other than one, and witness
transactions of which no input has a witness. Witnesses alone have a limit on their size.
-/

namespace TxoIndex

namespace Header

def decoder : Decoder Header := do
  let version ← Decoder.word32
  let prev ← Decoder.hash
  let merkleRoot ← Decoder.hash
  let time ← Decoder.word32
  let bits ← Decoder.word32
  let nonce ← Decoder.word32
  return ⟨version, prev, merkleRoot, time, bits, nonce⟩

/-- The header at the front of a block's bytes. Bytes behind it are not looked at. -/
def ofBlockBytes (bs : Bytes) : Except CodecError Header :=
  Decoder.exactly decoder (bs.take size)

end Header

/-! ## Witnesses -/

namespace Witness

/-- The elements of a witness. The room that is taken so far counts four bytes for each element of
the witness, and each element read with the prefix that tells its length. -/
def elements (total : Nat) : (count room : Nat) → (done : List Bytes) → Decoder (List Bytes)
  | 0, _, done => fun bs ↦ .ok (done.reverse, bs)
  | count + 1, room, done => fun bs ↦
    match Decoder.compactSize bs with
    | .error e => .error e
    | .ok (length, bs) =>
      let required := room + length + CompactSize.width length
      if UInt64.size ≤ required then .error (.oversized (UInt64.size - 1))
      else if maxVectorSize + 4 * total < required then .error (.oversized required)
      else
        match Decoder.fixed length bs with
        | .error e => .error e
        | .ok (element, bs) => elements total count required (element :: done) bs

def decoder : Decoder (List Bytes) := do
  let count ← Decoder.compactSize
  if maxVectorSize < count then throw (.oversized count)
  elements count count (4 * count) []

end Witness

/-! ## Transactions -/

/-- An input, its witness still empty. -/
def TxIn.decoder : Decoder TxIn := do
  let prevout ← Outpoint.decoder
  let script ← Decoder.sized
  let sequence ← Decoder.word32
  return ⟨prevout, script, sequence, []⟩

def TxOut.decoder : Decoder TxOut := do
  let value ← Decoder.word64
  let script ← Decoder.sized
  return ⟨value, script⟩

namespace Tx

/-- The rest of a witness transaction, behind its marker and flag. -/
def witnessFormDecoder (version : UInt32) : Decoder Tx := do
  let inputs ← Decoder.counted TxIn.decoder
  let outputs ← Decoder.counted TxOut.decoder
  let witnesses ← Decoder.times inputs.length Witness.decoder
  let inputs := List.zipWith (fun (i : TxIn) w ↦ { i with witness := w }) inputs witnesses
  if !inputs.isEmpty && inputs.all (fun i ↦ i.witness.isEmpty) then throw .noWitnesses
  let lockTime ← Decoder.word32
  return ⟨version, inputs, outputs, lockTime⟩

def plainFormDecoder (version : UInt32) (inputs : List TxIn) : Decoder Tx := do
  let outputs ← Decoder.counted TxOut.decoder
  let lockTime ← Decoder.word32
  return ⟨version, inputs, outputs, lockTime⟩

def decoder : Decoder Tx := do
  let version ← Decoder.word32
  let inputs ← Decoder.counted TxIn.decoder
  if inputs.isEmpty then
    let flag ← Decoder.byte
    if flag ≠ 1 then throw (.unsupportedSegwit flag)
    witnessFormDecoder version
  else
    plainFormDecoder version inputs

end Tx

namespace Block

def decoder : Decoder Block := do
  let header ← Header.decoder
  let txs ← Decoder.counted Tx.decoder
  return ⟨header, txs⟩

def decode (bs : Bytes) : Except CodecError Block :=
  Decoder.exactly decoder bs

end Block

end TxoIndex

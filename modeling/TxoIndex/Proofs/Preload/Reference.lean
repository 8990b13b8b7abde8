import TxoIndex.Proofs.Block.Agreement
import TxoIndex.Proofs.BlockFile.Records
import TxoIndex.Proofs.Preload.Passes

/-!
# What block files say

The blocks that are records of the files and well-formed create outputs and spend them. Here this is
said without tables and passes, as the first place where an outpoint is created and the first input
that spends it. The rows that the two passes write are those of the same blocks, and no index of an
output or input is so large that an outpoint could stand for none.
-/

namespace TxoIndex

/-! ## Indices -/

theorem Tx.length_encodeBody_le (tx : Tx) : tx.encodeBody.length ≤ tx.encode.length := by
  unfold Tx.encode
  split
  · simp only [List.length_append]
    omega
  · simp only [Tx.encodePlain, List.length_append]
    omega

theorem Tx.length_inputs_le (tx : Tx) : tx.inputs.length ≤ tx.encode.length := by
  have hpos (i : TxIn) : 0 < i.encode.length := by
    simp only [TxIn.encode, List.length_append, Outpoint.length_key]
    omega
  have hinputs := length_le_length_flatMap_of_pos hpos tx.inputs
  have hbody := tx.length_encodeBody_le
  simp only [Tx.encodeBody, countedBytes, List.length_append] at hbody
  omega

theorem Tx.length_outputs_le (tx : Tx) : tx.outputs.length ≤ tx.encode.length := by
  have hpos (o : TxOut) : 0 < o.encode.length := by
    have hscript := length_sizedBytes_pos o.script
    simp only [TxOut.encode, List.length_append]
    omega
  have houtputs := length_le_length_flatMap_of_pos hpos tx.outputs
  have hbody := tx.length_encodeBody_le
  simp only [Tx.encodeBody, countedBytes, List.length_append] at hbody
  omega

/-- An index within a record is not the one that stands for no outpoint. -/
theorem Outpoint.mk_ne_null {txid : Txid} {n : Nat} (hn : n < BlockFile.maxRecordSize) :
    (⟨txid, UInt32.ofNat n⟩ : Outpoint) ≠ Outpoint.null := by
  intro h
  have hvout : (UInt32.ofNat n).toNat = (0xffffffff : UInt32).toNat :=
    congrArg (fun o : Outpoint ↦ o.vout.toNat) h
  rw [UInt32.toNat_ofNat_of_lt' (Nat.lt_trans hn (by decide))] at hvout
  rw [hvout] at hn
  exact absurd hn (by decide)

/-! ## Outputs and inputs of a block -/

structure CreatedOutput where
  outpoint : Outpoint
  output : TxOut
  block : BlockHash

namespace Block

def created (b : Block) : List CreatedOutput :=
  b.txs.flatMap fun tx ↦ tx.outputs.zipIdx.map fun (output, vout) ↦
    ⟨⟨tx.txid, UInt32.ofNat vout⟩, output, b.header.hash⟩

def inputs (b : Block) : List SpendingRow :=
  b.txs.flatMap fun tx ↦ tx.inputs.zipIdx.map fun (i, vin) ↦
    ⟨i.prevout, ⟨tx.txid, UInt32.ofNat vin⟩⟩

theorem outpoint_ne_null {b : Block} (hlimit : b.encode.length ≤ BlockFile.maxRecordSize)
    {c : CreatedOutput} (hc : c ∈ b.created) : c.outpoint ≠ Outpoint.null := by
  obtain ⟨tx, htx, hc⟩ := List.mem_flatMap.1 hc
  obtain ⟨⟨output, vout⟩, hvout, rfl⟩ := List.mem_map.1 hc
  apply Outpoint.mk_ne_null
  have hlt := List.snd_lt_of_mem_zipIdx hvout
  have hlength := tx.length_outputs_le
  have hblock := Block.length_tx_le htx
  simp only at hlt ⊢
  omega

theorem spender_ne_null {b : Block} (hlimit : b.encode.length ≤ BlockFile.maxRecordSize)
    {row : SpendingRow} (hrow : row ∈ b.inputs) : row.spender ≠ Outpoint.null := by
  obtain ⟨tx, htx, hrow⟩ := List.mem_flatMap.1 hrow
  obtain ⟨⟨i, vin⟩, hvin, rfl⟩ := List.mem_map.1 hrow
  apply Outpoint.mk_ne_null
  have hlt := List.snd_lt_of_mem_zipIdx hvin
  have hlength := tx.length_inputs_le
  have hblock := Block.length_tx_le htx
  simp only at hlt ⊢
  omega

/-- The spends pass leaves out the inputs that spend nothing. -/
theorem spendingRows_eq_filter (b : Block) :
    b.spendingRows = b.inputs.filter fun row ↦ row.prevout ≠ Outpoint.null := by
  rw [spendingRows, inputs, List.filter_flatMap]
  apply congrArg (List.flatMap · b.txs)
  funext tx
  rw [Batch.spendingRows, List.filter_map, ← List.filterMap_eq_map, List.filterMap_filter]
  apply congrArg (List.filterMap · tx.inputs.zipIdx)
  funext (i, vin)
  by_cases hnull : i.prevout = Outpoint.null
  · simp [hnull]
  · simp [hnull]

end Block

/-! ## The blocks of a preload -/

namespace Preload

/-- The well-formed blocks in the files, in order. -/
def accepted (preload : Preload) : List Block := successes Block.decode preload.blocks

/-- The height of a block, as it is stored. -/
def storedHeight? (preload : Preload) (block : BlockHash) : Option UInt32 :=
  (preload.chain.height? block).map UInt32.ofNat

/-- The row that the outputs pass writes for an output. -/
def rowOf (preload : Preload) (c : CreatedOutput) : FundingRow :=
  ⟨Hash.single c.output.script,
    ⟨c.outpoint, preload.storedHeight? c.block, c.output.value, none⟩⟩

theorem fundingRows_eq_map (preload : Preload) (b : Block) :
    b.fundingRows (preload.storedHeight? b.header.hash) = b.created.map preload.rowOf := by
  simp only [Block.fundingRows, Block.created, List.map_flatMap, List.map_map]
  rfl

theorem length_le_of_mem_blocks (preload : Preload) {block : Bytes} (h : block ∈ preload.blocks) :
    block.length ≤ BlockFile.maxRecordSize := by
  obtain ⟨file, -, hblock⟩ := List.mem_flatMap.1 h
  exact BlockFile.length_le_of_mem_blocks hblock

theorem outputRows_eq_ok_iff (chain : Chain) {block : Bytes}
    (hlimit : block.length ≤ BlockFile.maxRecordSize) {batch : Batch} :
    outputRows chain block = .ok batch ↔
      ∃ b, Block.decode block = .ok b ∧
        batch = b.fundingBatch ((chain.height? b.header.hash).map UInt32.ofNat) := by
  cases hheader : Header.ofBlockBytes block with
  | error e =>
    rw [outputRows, hheader]
    constructor
    · intro h
      cases h
    · rintro ⟨b, hdecode, -⟩
      obtain ⟨-, rfl⟩ := Block.decode_eq_ok_iff.1 hdecode
      rw [Header.ofBlockBytes_encode] at hheader
      cases hheader
  | ok header =>
    have hsame {b : Block} (hdecode : Block.decode block = .ok b) : b.header = header := by
      obtain ⟨-, rfl⟩ := Block.decode_eq_ok_iff.1 hdecode
      rw [Header.ofBlockBytes_encode] at hheader
      exact Except.ok.inj hheader
    rw [outputRows, hheader]
    change Batch.outputs block _ = _ ↔ _
    rw [Batch.outputs_eq_ok_iff_of_length_le hlimit]
    apply exists_congr
    intro b
    apply and_congr_right
    intro hdecode
    rw [hsame hdecode]

/-- The outputs pass writes the rows of the well-formed blocks. -/
theorem outputBatches_eq_map (preload : Preload) : preload.outputBatches preload.blocks =
    preload.accepted.map fun b ↦ b.fundingBatch (preload.storedHeight? b.header.hash) :=
  successes_eq_map fun _ hblock _ ↦
    outputRows_eq_ok_iff preload.chain (preload.length_le_of_mem_blocks hblock)

/-- The spends pass writes the rows of the same blocks. -/
theorem spendBatches_eq_map (preload : Preload) :
    spendBatches preload.blocks = preload.accepted.map Block.spendingBatch :=
  successes_eq_map fun _ _ _ ↦ Batch.spends_eq_ok_iff

theorem length_encode_le_of_mem_accepted {preload : Preload} {b : Block}
    (h : b ∈ preload.accepted) : b.encode.length ≤ BlockFile.maxRecordSize := by
  obtain ⟨block, hblock, hdecode⟩ := mem_successes.1 h
  rw [← (Block.decode_eq_ok_iff.1 hdecode).2]
  exact preload.length_le_of_mem_blocks hblock

/-- The blocks that are decoded are those in which the outputs are found. -/
theorem map_encode_accepted (preload : Preload) :
    preload.accepted.map Block.encode =
      preload.blocks.filter fun block ↦ (Batch.outputs block none).isOk := by
  rw [accepted, successes, List.map_filterMap, ← List.filterMap_eq_filter]
  apply List.filterMap_congr
  intro block hblock
  have hagree (batch : Batch) : Batch.outputs block none = .ok batch ↔
      ∃ b, Block.decode block = .ok b ∧ batch = b.fundingBatch none :=
    Batch.outputs_eq_ok_iff_of_length_le (preload.length_le_of_mem_blocks hblock)
  cases hdecode : Block.decode block with
  | ok b =>
    obtain ⟨-, rfl⟩ := Block.decode_eq_ok_iff.1 hdecode
    have hok := (hagree _).2 ⟨b, hdecode, rfl⟩
    rw [Option.guard, hok]
    rfl
  | error e =>
    cases houtputs : Batch.outputs block none with
    | error e' =>
      rw [Option.guard, houtputs]
      rfl
    | ok batch =>
      obtain ⟨b, hb, -⟩ := (hagree batch).1 houtputs
      rw [hdecode] at hb
      cases hb

/-! ## First outputs and inputs -/

/-- The first place where an outpoint is created. -/
def creation? (preload : Preload) (o : Outpoint) : Option CreatedOutput :=
  (preload.accepted.flatMap Block.created).find? fun c ↦ c.outpoint = o

def spender? (preload : Preload) (o : Outpoint) : Option Outpoint :=
  ((preload.accepted.flatMap Block.inputs).find? fun row ↦ row.prevout = o).map SpendingRow.spender

/-- The last header of a name. -/
def lastHeader? (preload : Preload) (hash : BlockHash) : Option Header :=
  (preload.accepted.reverse.find? fun b ↦ b.header.hash = hash).map Block.header

theorem outpoint_of_creation? {preload : Preload} {o : Outpoint} {c : CreatedOutput}
    (h : preload.creation? o = some c) : c.outpoint = o := by
  have ho := List.find?_some h
  exact of_decide_eq_true ho

theorem ne_null_of_creation? {preload : Preload} {o : Outpoint} {c : CreatedOutput}
    (h : preload.creation? o = some c) : o ≠ Outpoint.null := by
  obtain ⟨b, hb, hc⟩ := List.mem_flatMap.1 (List.mem_of_find?_eq_some h)
  rw [← outpoint_of_creation? h]
  exact Block.outpoint_ne_null (length_encode_le_of_mem_accepted hb) hc

theorem ne_null_of_spender? {preload : Preload} {o spender : Outpoint}
    (h : preload.spender? o = some spender) : spender ≠ Outpoint.null := by
  obtain ⟨row, hrow, rfl⟩ := Option.map_eq_some_iff.1 h
  obtain ⟨b, hb, hrow⟩ := List.mem_flatMap.1 (List.mem_of_find?_eq_some hrow)
  exact Block.spender_ne_null (length_encode_le_of_mem_accepted hb) hrow

end Preload

/-! ## Examples -/

/-- A block that spends the first output of the block of each form. -/
def Block.ofSpend : Block where
  header := ⟨1, Block.ofEachForm.header.hash, Hash.zero, 5, 6, 7⟩
  txs := Block.ofEachForm.txs.take 1 |>.map fun tx ↦
    ⟨1, [⟨⟨tx.txid, 0⟩, [], 7, []⟩], [⟨50, [0x51]⟩], 0⟩

/-- A block with a transaction that spends nothing. -/
def Block.lower : Block where
  header := ⟨1, Hash.zero, Hash.zero, 2, 3, 4⟩
  txs := [⟨1, [⟨Outpoint.null, [], 7, []⟩], [⟨60, [0x52]⟩], 0⟩]

/-- A block on top of it, which spends its output. -/
def Block.upper : Block where
  header := ⟨1, Block.lower.header.hash, Hash.zero, 5, 6, 7⟩
  txs := Block.lower.txs.map fun tx ↦ ⟨1, [⟨⟨tx.txid, 0⟩, [], 7, []⟩], [⟨50, [0x51]⟩], 0⟩

/-- An unreadable file, and one in which the spending block comes first. -/
def Preload.ofTwoBlocks : Preload where
  files :=
    let magic := [0xf9, 0xbe, 0xb4, 0xd9]
    [none, some (BlockFile.frame magic Block.ofSpend.encode ++
      BlockFile.frame magic Block.ofEachForm.encode)]
  magic := [0xf9, 0xbe, 0xb4, 0xd9]
  workers := 1

/-- A preload that has not started, of an empty store. -/
def Progress.fresh : Progress :=
  ⟨⟨Tables.empty, 0, 0, .fresh 0, default⟩, .zero, 0⟩

end TxoIndex

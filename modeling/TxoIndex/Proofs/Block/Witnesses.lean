import TxoIndex.Proofs.Block.Agreement

/-!
# Witnesses and rows

Two blocks that differ in their witnesses only have different bytes, of different lengths and, where
one of them has no witness at all in some transaction, even of different forms. Their rows are the
same. A transaction is named by its form without witnesses, which the walk cuts out of the raw bytes
and the decoder spells anew, and no row holds anything else of a witness. So both passes give for a
block what they give for the block without its witnesses.
-/

namespace TxoIndex

/-! ## Blocks without witnesses -/

/-- A transaction without the witnesses of its inputs. -/
def Tx.bare (tx : Tx) : Tx := { tx with inputs := tx.inputs.map TxIn.bare }

def Block.bare (b : Block) : Block := { b with txs := b.txs.map Tx.bare }

namespace Tx

@[simp]
theorem encodePlain_bare (tx : Tx) : tx.bare.encodePlain = tx.encodePlain := by
  simp only [encodePlain, encodeBody, bare, countedBytes_map, TxIn.encode_bare]

/-- The name of a transaction knows nothing of its witnesses. -/
@[simp]
theorem txid_bare (tx : Tx) : tx.bare.txid = tx.txid := by
  rw [txid, encodePlain_bare, ← txid]

@[simp]
theorem fundingRows_bare (height : Option UInt32) (tx : Tx) :
    tx.bare.fundingRows height = tx.fundingRows height := by
  unfold fundingRows
  rw [txid_bare]
  rfl

theorem within_bare {witness : List Bytes → Prop} (hempty : witness []) {tx : Tx}
    (h : tx.Within witness) : tx.bare.Within witness where
  inputs_lt := by
    rw [bare, List.length_map]
    exact h.inputs_lt
  outputs_lt := h.outputs_lt
  inputScript_lt := List.forall_mem_map.2 h.inputScript_lt
  outputScript_lt := h.outputScript_lt
  witnesses := List.forall_mem_map.2 fun _ _ ↦ hempty

end Tx

@[simp]
theorem Batch.spendingRows_bare (tx : Tx) : spendingRows tx.bare = spendingRows tx := by
  unfold spendingRows
  rw [Tx.txid_bare, Tx.bare, List.zipIdx_map, List.filterMap_map]
  rfl

namespace Block

theorem within_bare {witness : List Bytes → Prop} (hempty : witness []) {b : Block}
    (h : b.Within witness) : b.bare.Within witness := by
  constructor
  · rw [bare, List.length_map]
    exact h.1
  · exact List.forall_mem_map.2 fun tx htx ↦ Tx.within_bare hempty (h.2 tx htx)

theorem fundingBatch_bare (height : Option UInt32) (b : Block) :
    b.bare.fundingBatch height = b.fundingBatch height := by
  simp only [fundingBatch, fundingRows, bare, List.length_map, List.flatMap_map,
    Tx.fundingRows_bare]

theorem spendingBatch_bare (b : Block) : b.bare.spendingBatch = b.spendingBatch := by
  simp only [spendingBatch, spendingRows, bare, List.length_map, List.flatMap_map,
    Batch.spendingRows_bare]

/-- A block that is decoded is also decoded without its witnesses. -/
theorem decode_encode_bare {bs : Bytes} {b : Block} (h : decode bs = .ok b) :
    decode b.bare.encode = .ok b.bare :=
  decode_eq_ok_iff.2 ⟨within_bare Witness.fits_nil (decode_eq_ok_iff.1 h).1, rfl⟩

end Block

/-! ## The passes -/

namespace Batch

/-- The walk accepts whatever is decoded, and finds the rows of the decoded block. -/
theorem outputs_of_decode {bs : Bytes} {b : Block} (h : Block.decode bs = .ok b)
    (height : Option UInt32) : outputs bs height = .ok (b.fundingBatch height) := by
  obtain ⟨hwithin, rfl⟩ := Block.decode_eq_ok_iff.1 h
  exact outputs_encode (hwithin.imp fun _ _ _ _ ↦ Witness.Fits.countable) height

theorem outputs_eq_outputs_bare {bs : Bytes} {b : Block} (h : Block.decode bs = .ok b)
    (height : Option UInt32) : outputs bs height = outputs b.bare.encode height := by
  calc
    outputs bs height = .ok (b.fundingBatch height) := outputs_of_decode h height
    _ = .ok (b.bare.fundingBatch height) := by rw [Block.fundingBatch_bare]
    _ = outputs b.bare.encode height :=
      (outputs_of_decode (Block.decode_encode_bare h) height).symm

theorem spends_eq_spends_bare {bs : Bytes} {b : Block} (h : Block.decode bs = .ok b) :
    spends bs = spends b.bare.encode := by
  calc
    spends bs = .ok b.spendingBatch := spends_of_decode h
    _ = .ok b.bare.spendingBatch := by rw [Block.spendingBatch_bare]
    _ = spends b.bare.encode := (spends_of_decode (Block.decode_encode_bare h)).symm

/-- Blocks with the same header, of which the transactions are the same but for the witnesses of
their inputs, give the same rows in both passes, with the same name of the block and the same number
of transactions. -/
theorem rows_indifferent_to_witnesses {bs bs' : Bytes} {b b' : Block}
    (hb : Block.decode bs = .ok b) (hb' : Block.decode bs' = .ok b')
    (hheader : b.header = b'.header) (htxs : b.txs.map Tx.bare = b'.txs.map Tx.bare)
    (height : Option UInt32) :
    ∃ funds spends, (Batch.outputs bs height = .ok funds ∧ Batch.outputs bs' height = .ok funds) ∧
      (Batch.spends bs = .ok spends ∧ Batch.spends bs' = .ok spends) ∧
      (funds.hash = b.header.hash ∧ funds.transactions = b.txs.length ∧
        funds.funding = b.fundingRows height) ∧
      spends.hash = b.header.hash ∧ spends.transactions = b.txs.length ∧
        spends.spending = b.spendingRows := by
  have hbare : b.bare = b'.bare := by
    rw [Block.bare, Block.bare, hheader, htxs]
  refine ⟨b.fundingBatch height, b.spendingBatch, ⟨outputs_of_decode hb height, ?_⟩,
    ⟨spends_of_decode hb, ?_⟩, ⟨rfl, rfl, rfl⟩, rfl, rfl, rfl⟩
  · rw [outputs_eq_outputs_bare hb', ← hbare, ← outputs_eq_outputs_bare hb]
    exact outputs_of_decode hb height
  · rw [spends_eq_spends_bare hb', ← hbare, ← spends_eq_spends_bare hb]
    exact spends_of_decode hb

end Batch

/-- A block of which every input has the same witness. -/
def Block.ofWitness (w : List Bytes) : Block :=
  { ofEachForm with
    txs := ofEachForm.txs.map fun tx ↦
      { tx with inputs := tx.inputs.map fun i ↦ { i with witness := w } } }

/-- With a witness for every input both transactions with inputs have the witness form, and without
one both have the plain form. -/
theorem Batch.rows_indifferent_to_witnesses_ofWitness :
    let segwit := Block.ofWitness [[1, 2, 3]]
    let legacy := Block.ofWitness []
    (segwit.txs.map Tx.hasWitnessForm = [true, true, true] ∧ segwit.encode.length = 250) ∧
      (legacy.txs.map Tx.hasWitnessForm = [true, false, false] ∧ legacy.encode.length = 236) ∧
      Block.decode segwit.encode = .ok segwit ∧ Block.decode legacy.encode = .ok legacy ∧
      (∃ funds, Batch.outputs segwit.encode (some 6) = .ok funds ∧
        Batch.outputs legacy.encode (some 6) = .ok funds) ∧
      ∃ spends, Batch.spends segwit.encode = .ok spends ∧
        Batch.spends legacy.encode = .ok spends := by
  intro segwit legacy
  have hsegwit : Block.decode segwit.encode = .ok segwit := by decide +kernel
  have hlegacy : Block.decode legacy.encode = .ok legacy := by decide +kernel
  obtain ⟨funds, spends, hfunds, hspends, -⟩ :=
    rows_indifferent_to_witnesses hsegwit hlegacy rfl rfl (some 6)
  exact ⟨⟨by decide, by decide +kernel⟩, ⟨by decide, by decide +kernel⟩, hsegwit, hlegacy,
    ⟨funds, hfunds⟩, spends, hspends⟩

end TxoIndex

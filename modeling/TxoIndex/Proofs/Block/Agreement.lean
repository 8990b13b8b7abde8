import TxoIndex.Block.Rows
import TxoIndex.BlockFile
import TxoIndex.Proofs.Block.Walking

/-!
# Agreement of walking and decoding

The outputs of a block are found by walking over its bytes, and its spends by decoding it. Both
accept the encodings of blocks, but only decoding limits the room that a witness may take. A record
of a block file is not longer than this limit, so no witness in it exceeds the limit, and both ways
accept the same records. They then report the same block, and the rows of the walk are those that
the decoded block gives.
-/

namespace TxoIndex

/-! ## Rows of a decoded block -/

def Tx.fundingRows (height : Option UInt32) (tx : Tx) : List FundingRow :=
  tx.outputs.zipIdx.map fun (out, vout) ↦
    { scriptHash := Hash.single out.script
      txo := ⟨⟨tx.txid, UInt32.ofNat vout⟩, height, out.value, none⟩ }

namespace Block

def fundingRows (height : Option UInt32) (b : Block) : List FundingRow :=
  b.txs.flatMap (Tx.fundingRows height)

/-- The rows of the inputs of a block that spend something. -/
def spendingRows (b : Block) : List SpendingRow :=
  b.txs.flatMap Batch.spendingRows

def fundingBatch (height : Option UInt32) (b : Block) : Batch :=
  ⟨b.header.hash, b.header, b.txs.length, b.fundingRows height, []⟩

def spendingBatch (b : Block) : Batch :=
  ⟨b.header.hash, b.header, b.txs.length, [], b.spendingRows⟩

end Block

/-- The outputs that a walk keeps give the same rows as those of the decoded transaction. -/
theorem Batch.fundingRows_view (height : Option UInt32) (tx : Tx) :
    Batch.fundingRows height tx.view = tx.fundingRows height := by
  rw [Batch.fundingRows, Tx.fundingRows, Tx.view, List.zipIdx_map, List.map_map]
  rfl

/-! ## What each way accepts -/

theorem Header.ofBlockBytes_encode (b : Block) : Header.ofBlockBytes b.encode = .ok b.header :=
  Header.ofBlockBytes_eq_ok_iff.2 ⟨countedBytes Tx.encode b.txs, rfl⟩

namespace Batch

theorem outputs_encode {b : Block} (h : b.Within Witness.Countable) (height : Option UInt32) :
    outputs b.encode height = .ok (b.fundingBatch height) := by
  have hwalk : Walk.ofBlockBytes b.encode = .ok (b.txs.map Tx.view) :=
    Walk.ofBlockBytes_eq_ok_iff.2 ⟨b, h, rfl, rfl⟩
  have hrows : (b.txs.map Tx.view).flatMap (fundingRows height) = b.fundingRows height := by
    simp only [List.flatMap_map, fundingRows_view]
    rfl
  rw [outputs, Header.ofBlockBytes_encode, hwalk]
  simp only [bind, Except.bind, pure, Except.pure, List.length_map, hrows]
  rfl

/-- The walk accepts the encodings of blocks, and gives the rows that the blocks give. -/
theorem outputs_eq_ok_iff {bs : Bytes} {height : Option UInt32} {batch : Batch} :
    outputs bs height = .ok batch ↔
      ∃ b : Block, b.Within Witness.Countable ∧ bs = b.encode ∧ batch = b.fundingBatch height := by
  constructor
  · intro h
    cases hwalk : Walk.ofBlockBytes bs with
    | error e =>
      rw [outputs, hwalk] at h
      cases hheader : Header.ofBlockBytes bs <;> simp [hheader, bind, Except.bind] at h
    | ok txs =>
      obtain ⟨b, hwithin, rfl, -⟩ := Walk.ofBlockBytes_eq_ok_iff.1 hwalk
      rw [outputs_encode hwithin] at h
      exact ⟨b, hwithin, rfl, (Except.ok.inj h).symm⟩
  · rintro ⟨b, hwithin, rfl, rfl⟩
    exact outputs_encode hwithin height

theorem spends_of_decode {bs : Bytes} {b : Block} (h : Block.decode bs = .ok b) :
    spends bs = .ok b.spendingBatch := by
  rw [spends, h]
  rfl

/-- Decoding accepts the encodings of blocks whose witnesses keep the limit. -/
theorem spends_eq_ok_iff {bs : Bytes} {batch : Batch} :
    spends bs = .ok batch ↔ ∃ b, Block.decode bs = .ok b ∧ batch = b.spendingBatch := by
  constructor
  · intro h
    cases hdecode : Block.decode bs with
    | error e => simp [spends, hdecode, bind, Except.bind] at h
    | ok b =>
      rw [spends_of_decode hdecode] at h
      exact ⟨b, rfl, (Except.ok.inj h).symm⟩
  · rintro ⟨b, hdecode, rfl⟩
    exact spends_of_decode hdecode

end Batch

/-! ## The limit on witnesses -/

namespace Witness

/-- A witness in the limit has lengths that fit compact sizes. -/
theorem Fits.countable {w : List Bytes} (h : Fits w) : Countable w := by
  have hmax : maxVectorSize < UInt64.size := by decide
  have hcount := length_le_length_flatMap_of_pos length_sizedBytes_pos w
  unfold Fits at h
  refine ⟨by omega, fun e he ↦ ?_⟩
  have helement : (sizedBytes e).length ≤ (w.flatMap sizedBytes).length :=
    length_le_length_flatMap he
  rw [sizedBytes, List.length_append] at helement
  omega

end Witness

theorem Block.Within.imp {p q : List Bytes → Prop} {b : Block} (h : b.Within p)
    (himp : ∀ tx ∈ b.txs, ∀ i ∈ tx.inputs, p i.witness → q i.witness) : b.Within q := by
  refine ⟨h.1, fun tx htx ↦ ?_⟩
  have hwithin := h.2 tx htx
  exact ⟨hwithin.inputs_lt, hwithin.outputs_lt, hwithin.inputScript_lt, hwithin.outputScript_lt,
    fun i hi ↦ himp tx htx i hi (hwithin.witnesses i hi)⟩

/-- The elements of a witness are among the bytes of the transaction. -/
theorem Tx.length_witness_le {tx : Tx} {i : TxIn} (hi : i ∈ tx.inputs) :
    (i.witness.flatMap sizedBytes).length ≤ tx.encode.length := by
  cases hform : tx.hasWitnessForm with
  | true =>
    have hwitness : i.encodeWitness.length ≤ (tx.inputs.flatMap TxIn.encodeWitness).length :=
      length_le_length_flatMap hi
    rw [TxIn.encodeWitness, countedBytes, List.length_append] at hwitness
    rw [Tx.encode, if_pos hform]
    simp only [List.length_append]
    omega
  | false =>
    rw [(Tx.bare_of_hasWitnessForm_eq_false hform).2 i hi]
    exact Nat.zero_le _

theorem Block.length_tx_le {b : Block} {tx : Tx} (h : tx ∈ b.txs) :
    tx.encode.length ≤ b.encode.length := by
  have hle : tx.encode.length ≤ (b.txs.flatMap Tx.encode).length := length_le_length_flatMap h
  simp only [Block.encode, countedBytes, List.length_append]
  omega

/-- No witness of a block that is a record of a block file exceeds the limit. -/
theorem Block.within_fits_iff_within_countable {b : Block}
    (hlimit : b.encode.length ≤ BlockFile.maxRecordSize) :
    b.Within Witness.Fits ↔ b.Within Witness.Countable := by
  constructor
  · exact fun h ↦ h.imp fun _ _ _ _ ↦ Witness.Fits.countable
  · exact fun h ↦ h.imp fun tx htx i hi _ ↦
      Nat.le_trans (Tx.length_witness_le hi) (Nat.le_trans (Block.length_tx_le htx) hlimit)

/-- A record of a block file is decoded if and only if its outputs are found. -/
theorem Block.decode_eq_ok_iff_of_length_le {bs : Bytes}
    (hlimit : bs.length ≤ BlockFile.maxRecordSize) {b : Block} :
    Block.decode bs = .ok b ↔ b.Within Witness.Countable ∧ bs = b.encode := by
  rw [Block.decode_eq_ok_iff]
  constructor
  · rintro ⟨hwithin, rfl⟩
    exact ⟨(Block.within_fits_iff_within_countable hlimit).1 hwithin, rfl⟩
  · rintro ⟨hwithin, rfl⟩
    exact ⟨(Block.within_fits_iff_within_countable hlimit).2 hwithin, rfl⟩

theorem Batch.outputs_eq_ok_iff_of_length_le {bs : Bytes}
    (hlimit : bs.length ≤ BlockFile.maxRecordSize) {height : Option UInt32} {batch : Batch} :
    Batch.outputs bs height = .ok batch ↔
      ∃ b, Block.decode bs = .ok b ∧ batch = b.fundingBatch height := by
  simp only [Batch.outputs_eq_ok_iff, Block.decode_eq_ok_iff_of_length_le hlimit, and_assoc]

/-- Both ways of reading a record accept the same bytes and report the same block. The rows of the
walk are those of the decoded block, and so are the names of its transactions. -/
theorem outputs_agree_with_spends {bs : Bytes} (hlimit : bs.length ≤ BlockFile.maxRecordSize)
    (height : Option UInt32) :
    ((∃ funds, Batch.outputs bs height = .ok funds) ↔ ∃ spends, Batch.spends bs = .ok spends) ∧
      ∀ funds spends, Batch.outputs bs height = .ok funds → Batch.spends bs = .ok spends →
        (funds.hash = spends.hash ∧ funds.header = spends.header ∧
          funds.transactions = spends.transactions) ∧
        ∃ b txs, Block.decode bs = .ok b ∧ funds.funding = b.fundingRows height ∧
          Walk.ofBlockBytes bs = .ok txs ∧ txs.map Walk.Transaction.txid = b.txs.map Tx.txid := by
  refine ⟨?_, fun funds spends hfunds hspends ↦ ?_⟩
  · simp only [Batch.outputs_eq_ok_iff_of_length_le hlimit, Batch.spends_eq_ok_iff]
    constructor
    · rintro ⟨_, b, hdecode, -⟩
      exact ⟨_, b, hdecode, rfl⟩
    · rintro ⟨_, b, hdecode, -⟩
      exact ⟨_, b, hdecode, rfl⟩
  · obtain ⟨b, hdecode, rfl⟩ := (Batch.outputs_eq_ok_iff_of_length_le hlimit).1 hfunds
    rw [Batch.spends_of_decode hdecode, Except.ok.injEq] at hspends
    subst hspends
    obtain ⟨hwithin, rfl⟩ := (Block.decode_eq_ok_iff_of_length_le hlimit).1 hdecode
    refine ⟨⟨rfl, rfl, rfl⟩, b, b.txs.map Tx.view, hdecode, rfl,
      Walk.ofBlockBytes_eq_ok_iff.2 ⟨b, hwithin, rfl, rfl⟩, ?_⟩
    rw [List.map_map]
    rfl

/-- A block with a transaction of each form: without inputs, with a witness, and plain. -/
def Block.ofEachForm : Block where
  header := ⟨1, Hash.zero, Hash.zero, 2, 3, 4⟩
  txs := [
    ⟨1, [], [⟨50, [0x51]⟩], 0⟩,
    ⟨2, [⟨Outpoint.null, [], 7, [[], [0xaa, 0xbb]]⟩], [⟨60, []⟩, ⟨70, [0x52, 0x53]⟩], 8⟩,
    ⟨3, [⟨⟨Hash.zero, 1⟩, [0x54], 9, []⟩], [⟨80, [0x55]⟩], 10⟩]

theorem outputs_agree_with_spends_ofEachForm :
    Block.ofEachForm.encode.length ≤ BlockFile.maxRecordSize ∧
      ∃ funds spends, Batch.outputs Block.ofEachForm.encode (some 6) = .ok funds ∧
        Batch.spends Block.ofEachForm.encode = .ok spends ∧ funds.hash = spends.hash ∧
        funds.funding = Block.ofEachForm.fundingRows (some 6) := by
  have hlimit : Block.ofEachForm.encode.length ≤ BlockFile.maxRecordSize := by
    decide +kernel
  have hdecode : Block.decode Block.ofEachForm.encode = .ok Block.ofEachForm := by
    decide +kernel
  have hspends := Batch.spends_of_decode hdecode
  obtain ⟨haccepted, hsame⟩ := outputs_agree_with_spends hlimit (some 6)
  obtain ⟨funds, hfunds⟩ := haccepted.2 ⟨_, hspends⟩
  obtain ⟨⟨hhash, -, -⟩, b, -, hb, hrows, -⟩ := hsame funds _ hfunds hspends
  rw [hdecode, Except.ok.injEq] at hb
  subst hb
  exact ⟨hlimit, funds, _, hfunds, hspends, hhash, hrows⟩

end TxoIndex

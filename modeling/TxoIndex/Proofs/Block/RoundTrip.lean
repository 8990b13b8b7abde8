import TxoIndex.Proofs.Block.Spelling

/-!
# Encoding after decoding, and decoding after encoding

A block has one spelling. What decoding accepts it gives back byte for byte when the block is
encoded again, so no two byte strings decode to the same block; and it accepts the encoding of every
block whose counts and lengths fit their fields and whose witnesses keep the limits of the decoder.

The two forms of a transaction are what makes this delicate. A transaction without inputs has to be
in the witness form, for its count of inputs is the marker of that form, and a transaction of which
no input has a witness must not be in it, or else it would have two spellings. Decoding refuses the
second one.
-/

namespace TxoIndex

open Decoder

/-! ## The limits on a witness -/

namespace Witness

/-- The limits as the decoder meets them: one on the number of elements, and one on the room that is
taken after each element, four bytes for every element of the witness included. -/
structure KeepsLimits (w : List Bytes) : Prop where
  count_le : w.length ≤ maxVectorSize
  required_le : ∀ read, read <+: w →
    4 * w.length + (read.flatMap sizedBytes).length ≤ maxVectorSize + 4 * w.length

theorem fits_iff_keepsLimits {w : List Bytes} : Fits w ↔ KeepsLimits w := by
  constructor
  · intro h
    unfold Fits at h
    have hcount := length_le_length_flatMap_of_pos length_sizedBytes_pos w
    refine ⟨by omega, ?_⟩
    rintro read ⟨rest, rfl⟩
    rw [List.flatMap_append, List.length_append] at h
    omega
  · intro h
    have hall := h.required_le w List.prefix_rfl
    unfold Fits
    omega

theorem fits_eq_keepsLimits : Fits = KeepsLimits :=
  funext fun _ ↦ propext fits_iff_keepsLimits

/-- An empty element takes no room but its length. -/
theorem keepsLimits_replicate_nil_iff (n : Nat) :
    KeepsLimits (List.replicate n []) ↔ n ≤ maxVectorSize := by
  have hlength : ((List.replicate n []).flatMap sizedBytes).length = n := by
    induction n with
    | zero => rfl
    | succ n ih =>
      rw [List.replicate_succ, List.flatMap_cons, List.length_append, ih, Nat.add_comm]
      rfl
  rw [← fits_iff_keepsLimits, Fits, hlength]

instance (w : List Bytes) : Decidable (KeepsLimits w) :=
  decidable_of_iff ((w.flatMap sizedBytes).length ≤ maxVectorSize) fits_iff_keepsLimits

end Witness

/-! ## The two forms -/

namespace Tx

def encodeWitnessForm (tx : Tx) : Bytes :=
  word32Bytes tx.version ++ [0, 1] ++ tx.encodeBody ++ tx.inputs.flatMap TxIn.encodeWitness ++
    word32Bytes tx.lockTime

theorem hasWitnessForm_iff {tx : Tx} :
    tx.hasWitnessForm ↔ tx.inputs = [] ∨ ∃ i ∈ tx.inputs, i.witness ≠ [] := by
  simp [hasWitnessForm]

/-- A transaction without inputs only has to fit with its outputs. -/
theorem within_iff_of_no_inputs {tx : Tx} (h : tx.inputs = []) {witness : List Bytes → Prop} :
    tx.Within witness ↔
      tx.outputs.length < UInt64.size ∧ ∀ o ∈ tx.outputs, o.script.length < UInt64.size := by
  constructor
  · exact fun hwithin ↦ ⟨hwithin.outputs_lt, hwithin.outputScript_lt⟩
  · rintro ⟨houtputs, hscripts⟩
    refine ⟨by rw [h]; decide, houtputs, ?_, hscripts, ?_⟩
    · exact fun i hi ↦ absurd hi (h ▸ List.not_mem_nil)
    · exact fun i hi ↦ absurd hi (h ▸ List.not_mem_nil)

/-- Behind the marker and the flag some input has to have a witness. -/
theorem witnessFormDecoder_of_not_hasWitnessForm {tx : Tx} (hwithin : tx.Within Witness.Fits)
    (hform : tx.hasWitnessForm = false) (version : UInt32) (rest : Bytes) :
    witnessFormDecoder version (tx.encodeBody ++ tx.inputs.flatMap TxIn.encodeWitness ++
      word32Bytes tx.lockTime ++ rest) = .error .noWitnesses := by
  obtain ⟨hinputs, houtputs, hfits⟩ := within_iff_bare.1 hwithin
  have hwitnesses (bs : Bytes) :
      times (tx.inputs.map TxIn.bare).length Witness.decoder
          ((tx.inputs.map TxIn.witness).flatMap Witness.encode ++ bs) =
        .ok (tx.inputs.map TxIn.witness, bs) :=
    (times_eq_ok_iff Witness.decoder_spells).2 ⟨by simp, hfits, rfl⟩
  have hnone : (!tx.inputs.isEmpty && tx.inputs.all fun i ↦ i.witness.isEmpty) = true := by
    rw [noWitnesses_iff, ← hasWitnessForm, hform, Bool.not_false]
  rw [encodeBody_append_witnesses, witnessFormDecoder,
    bind_ok ((counted_spells TxIn.decoder_spells).iff.2 ⟨hinputs, rfl⟩),
    bind_ok ((counted_spells TxOut.decoder_spells).iff.2 ⟨houtputs, rfl⟩), bind_ok (hwitnesses _)]
  simp only [zipWith_bare_witness]
  rw [if_pos hnone]
  exact bind_error rfl

/-- A transaction of which no input has a witness is refused in the form with witnesses. -/
theorem decoder_encodeWitnessForm {tx : Tx} (hwithin : tx.Within Witness.Fits)
    (hform : tx.hasWitnessForm = false) (rest : Bytes) :
    Tx.decoder (tx.encodeWitnessForm ++ rest) = .error .noWitnesses := by
  have hbytes : tx.encodeWitnessForm ++ rest = word32Bytes tx.version ++
      (countedBytes TxIn.encode [] ++ ([1] ++ (tx.encodeBody ++
        tx.inputs.flatMap TxIn.encodeWitness ++ word32Bytes tx.lockTime ++ rest))) := by
    simp only [encodeWitnessForm, List.append_assoc]
    rfl
  have hmarker (bs : Bytes) :
      counted TxIn.decoder (countedBytes TxIn.encode [] ++ bs) = .ok ([], bs) :=
    (counted_spells TxIn.decoder_spells).iff.2 ⟨⟨by decide, by simp⟩, rfl⟩
  rw [hbytes, Tx.decoder, bind_ok (word32_spells.iff.2 ⟨trivial, rfl⟩), bind_ok (hmarker _),
    if_pos List.isEmpty_nil, bind_ok (byte_spells.iff.2 ⟨trivial, rfl⟩), if_neg (by decide)]
  exact witnessFormDecoder_of_not_hasWitnessForm hwithin hform tx.version rest

instance {witness : List Bytes → Prop} [DecidablePred witness] (tx : Tx) :
    Decidable (tx.Within witness) :=
  decidable_of_iff
    ((tx.inputs.length < UInt64.size ∧ tx.outputs.length < UInt64.size) ∧
      (∀ i ∈ tx.inputs, i.script.length < UInt64.size) ∧
      (∀ o ∈ tx.outputs, o.script.length < UInt64.size) ∧ ∀ i ∈ tx.inputs, witness i.witness)
    ⟨fun ⟨⟨hi, ho⟩, his, hos, hw⟩ ↦ ⟨hi, ho, his, hos, hw⟩,
      fun ⟨hi, ho, his, hos, hw⟩ ↦ ⟨⟨hi, ho⟩, his, hos, hw⟩⟩

end Tx

/-! ## Blocks -/

namespace Block

instance {witness : List Bytes → Prop} [DecidablePred witness] (b : Block) :
    Decidable (b.Within witness) :=
  inferInstanceAs (Decidable (_ ∧ _))

/-- Decoding accepts the encodings of the blocks that fit and nothing else, and encoding the block
again gives the bytes back. -/
theorem decode_encode_exact :
    (∀ bs b, decode bs = .ok b → b.encode = bs ∧ b.Within Witness.KeepsLimits) ∧
      (∀ bs bs' b, decode bs = .ok b → decode bs' = .ok b → bs = bs') ∧
      (∀ b : Block, decode b.encode = .ok b ↔ b.Within Witness.KeepsLimits) ∧
      (∀ tx : Tx, tx.encode = if tx.inputs = [] ∨ ∃ i ∈ tx.inputs, i.witness ≠ [] then
        tx.encodeWitnessForm else tx.encodePlain) ∧
      (∀ tx : Tx, tx.inputs = [] → (tx.Within Witness.KeepsLimits ↔
        tx.outputs.length < UInt64.size ∧ ∀ o ∈ tx.outputs, o.script.length < UInt64.size)) ∧
      ∀ n, Witness.KeepsLimits (List.replicate n []) ↔ n ≤ maxVectorSize := by
  simp only [decode_eq_ok_iff, Witness.fits_eq_keepsLimits, and_true]
  refine ⟨?_, ?_, fun _ ↦ trivial, ?_, fun tx h ↦ Tx.within_iff_of_no_inputs h,
    Witness.keepsLimits_replicate_nil_iff⟩
  · rintro bs b ⟨hwithin, rfl⟩
    exact ⟨rfl, hwithin⟩
  · rintro bs bs' b ⟨-, rfl⟩ ⟨-, rfl⟩
    rfl
  · intro tx
    simp only [← Tx.hasWitnessForm_iff]
    rfl

/-- A block with a transaction without inputs, one whose only witness has only empty elements, one
of which one input has a witness and one has none, and a plain one. -/
def ofMixedForms : Block where
  header := ⟨1, Hash.zero, Hash.zero, 2, 3, 4⟩
  txs := [
    ⟨1, [], [⟨50, [0x51]⟩, ⟨55, []⟩], 0⟩,
    ⟨2, [⟨Outpoint.null, [], 7, [[], []]⟩], [⟨60, []⟩], 8⟩,
    ⟨2, [⟨⟨Hash.zero, 1⟩, [], 7, []⟩, ⟨⟨Hash.zero, 2⟩, [], 7, [[0xaa], []]⟩], [], 8⟩,
    ⟨3, [⟨⟨Hash.zero, 3⟩, [0x54], 9, []⟩], [⟨80, [0x55]⟩], 10⟩]

theorem decode_encode_ofMixedForms :
    ofMixedForms.Within Witness.KeepsLimits ∧
      ofMixedForms.txs.map Tx.hasWitnessForm = [true, true, true, false] ∧
      decode ofMixedForms.encode = .ok ofMixedForms ∧
      ∀ bs, decode bs = .ok ofMixedForms → bs = ofMixedForms.encode := by
  have hwithin : ofMixedForms.Within Witness.KeepsLimits := by decide +kernel
  obtain ⟨hencode, -, hdecode, -⟩ := decode_encode_exact
  exact ⟨hwithin, by decide, (hdecode _).2 hwithin, fun bs h ↦ (hencode bs _ h).1.symm⟩

end Block

end TxoIndex

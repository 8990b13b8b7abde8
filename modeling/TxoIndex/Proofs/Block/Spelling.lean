import TxoIndex.Proofs.Wire.Spelling

/-!
# Blocks and their spellings

Decoding a block accepts exactly the encodings of the blocks whose counts and lengths fit their
fields and whose witnesses keep the limit. The limit speaks of every witness on its own, so it is a
parameter of the range: with a bound on the bytes of each witness the range is that of decoding, and
with bounds on counts and lengths alone it is that of walking over the bytes.
-/

namespace TxoIndex

open Decoder

theorem Outpoint.decoder_spells : Outpoint.decoder.Spells (fun _ ↦ True) Outpoint.key := by
  intro bs o rest
  simp only [Outpoint.decoder, bind_eq_ok_iff, hash_spells.iff, word32_spells.iff, pure_eq_ok_iff,
    true_and, Prod.mk.injEq]
  constructor
  · rintro ⟨txid, _, rfl, vout, _, rfl, rfl, rfl⟩
    rw [Outpoint.key, List.append_assoc]
  · rintro rfl
    exact ⟨o.txid, _, by rw [Outpoint.key, List.append_assoc], o.vout, rest, rfl, rfl, rfl⟩

theorem Header.decoder_spells : Header.decoder.Spells (fun _ ↦ True) Header.encode := by
  intro bs h rest
  simp only [Header.decoder, bind_eq_ok_iff, hash_spells.iff, word32_spells.iff, pure_eq_ok_iff,
    true_and, Prod.mk.injEq]
  constructor
  · rintro ⟨version, _, rfl, prev, _, rfl, root, _, rfl, time, _, rfl, bits, _, rfl, nonce, _, rfl,
      rfl, rfl⟩
    simp only [Header.encode, List.append_assoc]
  · rintro rfl
    exact ⟨h.version, _, by simp only [Header.encode, List.append_assoc], h.prev, _, rfl,
      h.merkleRoot, _, rfl, h.time, _, rfl, h.bits, _, rfl, h.nonce, _, rfl, rfl, rfl⟩

/-- The header of a block is told by the first eighty bytes. -/
theorem Header.ofBlockBytes_eq_ok_iff {bs : Bytes} {h : Header} :
    Header.ofBlockBytes bs = .ok h ↔ ∃ rest, bs = h.encode ++ rest := by
  rw [Header.ofBlockBytes, exactly_eq_ok_iff_of_spells Header.decoder_spells, true_and]
  constructor
  · intro htake
    exact ⟨bs.drop Header.size, by rw [← htake, List.take_append_drop]⟩
  · rintro ⟨rest, rfl⟩
    rw [List.take_append_of_le_length (by simp), List.take_of_length_le (by simp)]

/-! ## Inputs and outputs -/

namespace TxIn

def bare (i : TxIn) : TxIn := { i with witness := [] }

@[simp]
theorem encode_bare (i : TxIn) : i.bare.encode = i.encode := rfl

/-- The inputs that the input list of a transaction spells. -/
def IsBare (i : TxIn) : Prop := i.script.length < UInt64.size ∧ i.witness = []

theorem decoder_spells : TxIn.decoder.Spells IsBare TxIn.encode := by
  intro bs i rest
  simp only [TxIn.decoder, bind_eq_ok_iff, Outpoint.decoder_spells.iff, sized_spells.iff,
    word32_spells.iff, pure_eq_ok_iff, true_and, Prod.mk.injEq]
  constructor
  · rintro ⟨prevout, _, rfl, script, _, ⟨hscript, rfl⟩, sequence, _, rfl, rfl, rfl⟩
    exact ⟨⟨hscript, rfl⟩, by simp only [TxIn.encode, List.append_assoc]⟩
  · obtain ⟨prevout, script, sequence, witness⟩ := i
    rintro ⟨⟨hscript, rfl⟩, rfl⟩
    exact ⟨prevout, _, by simp only [TxIn.encode, List.append_assoc], script, _, ⟨hscript, rfl⟩,
      sequence, _, rfl, rfl, rfl⟩

end TxIn

theorem TxOut.decoder_spells :
    TxOut.decoder.Spells (fun o ↦ o.script.length < UInt64.size) TxOut.encode := by
  intro bs o rest
  simp only [TxOut.decoder, bind_eq_ok_iff, word64_spells.iff, sized_spells.iff, pure_eq_ok_iff,
    true_and, Prod.mk.injEq]
  constructor
  · rintro ⟨value, _, rfl, script, _, ⟨hscript, rfl⟩, rfl, rfl⟩
    exact ⟨hscript, by simp only [TxOut.encode, List.append_assoc]⟩
  · rintro ⟨hscript, rfl⟩
    exact ⟨o.value, _, by simp only [TxOut.encode, List.append_assoc], o.script, _, ⟨hscript, rfl⟩,
      rfl, rfl⟩

/-! ## Witnesses -/

theorem length_sizedBytes_pos (bs : Bytes) : 0 < (sizedBytes bs).length := by
  have hwidth : 1 ≤ CompactSize.width bs.length := by
    simp only [CompactSize.width]
    repeat' split
    all_goals decide
  rw [sizedBytes, List.length_append, CompactSize.length_encode]
  omega

namespace Witness

def encode (w : List Bytes) : Bytes := countedBytes sizedBytes w

/-- The limit on a witness: its elements with their lengths. -/
def Fits (w : List Bytes) : Prop := (w.flatMap sizedBytes).length ≤ maxVectorSize

theorem fits_nil : Fits [] := by
  simp [Fits]

/-- An element is read if what is taken with it, the length included, keeps the limit. -/
theorem elements_succ_eq_ok_iff {total count room : Nat} {done xs : List Bytes} {bs rest : Bytes}
    (htotal : total ≤ maxVectorSize) :
    elements total (count + 1) room done bs = .ok (xs, rest) ↔
      ∃ element bs', bs = sizedBytes element ++ bs' ∧
        room + (sizedBytes element).length ≤ maxVectorSize + 4 * total ∧
        elements total count (room + (sizedBytes element).length) (element :: done) bs' =
          .ok (xs, rest) := by
  have hmax : maxVectorSize + 4 * maxVectorSize < UInt64.size := by decide
  have hrequired (element : Bytes) : room + element.length + CompactSize.width element.length =
      room + (sizedBytes element).length := by
    rw [sizedBytes, List.length_append, CompactSize.length_encode]
    omega
  simp only [elements]
  constructor
  · intro h
    split at h
    · simp at h
    · next length bs₁ hlength =>
      obtain ⟨hsize, rfl⟩ := compactSize_spells.iff.1 hlength
      split at h
      · simp at h
      · split at h
        · simp at h
        · next hfits =>
          split at h
          · simp at h
          · next element bs₂ helement =>
            obtain ⟨rfl, rfl⟩ := fixed_eq_ok_iff.1 helement
            rw [hrequired] at h hfits
            exact ⟨element, bs₂, by rw [sizedBytes, List.append_assoc], Nat.le_of_not_lt hfits, h⟩
  · rintro ⟨element, bs', rfl, hfits, h⟩
    have hlt : element.length < UInt64.size := by
      rw [← hrequired] at hfits
      omega
    have hsize : compactSize (sizedBytes element ++ bs') = .ok (element.length, element ++ bs') :=
      compactSize_spells.iff.2 ⟨hlt, by rw [sizedBytes, List.append_assoc]⟩
    have hfixed : fixed element.length (element ++ bs') = .ok (element, bs') :=
      fixed_eq_ok_iff.2 ⟨rfl, rfl⟩
    rw [hsize]
    simp only [hfixed, hrequired]
    rw [if_neg (by omega), if_neg (by omega)]
    exact h

/-- Elements are read as long as the room that they take keeps the limit. -/
theorem elements_eq_ok_iff {total count room : Nat} {done xs : List Bytes} {bs rest : Bytes}
    (htotal : total ≤ maxVectorSize) (hroom : room ≤ maxVectorSize + 4 * total) :
    elements total count room done bs = .ok (xs, rest) ↔
      ∃ ys, ys.length = count ∧
        room + (ys.flatMap sizedBytes).length ≤ maxVectorSize + 4 * total ∧
        xs = done.reverse ++ ys ∧ bs = ys.flatMap sizedBytes ++ rest := by
  induction count generalizing room done bs with
  | zero =>
    simp only [elements, Except.ok.injEq, Prod.mk.injEq, List.length_eq_zero_iff]
    constructor
    · rintro ⟨rfl, rfl⟩
      exact ⟨[], rfl, by simpa using hroom, by simp, rfl⟩
    · rintro ⟨_, rfl, -, rfl, rfl⟩
      exact ⟨by simp, rfl⟩
  | succ count ih =>
    rw [elements_succ_eq_ok_iff htotal]
    constructor
    · rintro ⟨element, bs', rfl, hfits, h⟩
      obtain ⟨ys, rfl, hys, rfl, rfl⟩ := (ih hfits).1 h
      refine ⟨element :: ys, rfl, ?_, by simp, by simp⟩
      rwa [List.flatMap_cons, List.length_append, ← Nat.add_assoc]
    · rintro ⟨_ | ⟨element, ys⟩, hlength, hys, rfl, rfl⟩
      · simp at hlength
      · rw [List.flatMap_cons, List.length_append, ← Nat.add_assoc] at hys
        have hfits : room + (sizedBytes element).length ≤ maxVectorSize + 4 * total :=
          Nat.le_trans (Nat.le_add_right _ _) hys
        exact ⟨element, ys.flatMap sizedBytes ++ rest, by simp, hfits,
          (ih hfits).2 ⟨ys, Nat.succ.inj hlength, hys, by simp, rfl⟩⟩

theorem decoder_spells : Witness.decoder.Spells Fits encode := by
  intro bs w rest
  unfold Witness.decoder
  simp only [bind_eq_ok_iff, compactSize_spells.iff, check_eq_ok_iff]
  constructor
  · rintro ⟨count, _, ⟨hcount, rfl⟩, hle, h⟩
    obtain ⟨ys, rfl, hys, rfl, rfl⟩ :=
      (elements_eq_ok_iff (Nat.le_of_not_lt hle) (by omega)).1 h
    exact ⟨by rw [Fits]; omega, by rw [encode, countedBytes, List.append_assoc]⟩
  · rintro ⟨hfits, rfl⟩
    have hlength := length_le_length_flatMap_of_pos length_sizedBytes_pos w
    have hmax : maxVectorSize < UInt64.size := by decide
    unfold Fits at hfits
    refine ⟨w.length, w.flatMap sizedBytes ++ rest, ⟨by omega, ?_⟩, by omega, ?_⟩
    · rw [encode, countedBytes, List.append_assoc]
    · exact (elements_eq_ok_iff (by omega) (by omega)).2 ⟨w, rfl, by omega, by simp, rfl⟩

end Witness

/-! ## Transactions -/

theorem countedBytes_map {α β : Type} (item : β → Bytes) (f : α → β) (xs : List α) :
    countedBytes item (xs.map f) = countedBytes (fun a ↦ item (f a)) xs := by
  rw [countedBytes, countedBytes, List.length_map, List.flatMap_map]

theorem zipWith_bare_witness (inputs : List TxIn) :
    List.zipWith (fun (i : TxIn) w ↦ { i with witness := w }) (inputs.map TxIn.bare)
      (inputs.map TxIn.witness) = inputs := by
  induction inputs with
  | nil => rfl
  | cons i inputs ih =>
    simp only [List.map_cons, List.zipWith_cons_cons, ih]
    rfl

/-- Bare inputs and as many witnesses are the parts of one list of inputs. -/
theorem exists_of_bare_of_witnesses {inputs : List TxIn} {ws : List (List Bytes)}
    (hlength : ws.length = inputs.length) (hbare : ∀ i ∈ inputs, i.witness = []) :
    ∃ xs : List TxIn, xs.map TxIn.bare = inputs ∧ xs.map TxIn.witness = ws := by
  induction inputs generalizing ws with
  | nil => exact ⟨[], rfl, (List.length_eq_zero_iff.1 hlength).symm⟩
  | cons i inputs ih =>
    obtain ⟨hi, hinputs⟩ := List.forall_mem_cons.1 hbare
    cases ws with
    | nil => simp at hlength
    | cons w ws =>
      obtain ⟨xs, rfl, rfl⟩ := ih (Nat.succ.inj hlength) hinputs
      refine ⟨{ i with witness := w } :: xs, ?_, rfl⟩
      rw [List.map_cons, TxIn.bare, ← hi]

namespace Tx

/-- Counts and lengths fit their fields, and every witness has the given property. -/
structure Within (witness : List Bytes → Prop) (tx : Tx) : Prop where
  inputs_lt : tx.inputs.length < UInt64.size
  outputs_lt : tx.outputs.length < UInt64.size
  inputScript_lt : ∀ i ∈ tx.inputs, i.script.length < UInt64.size
  outputScript_lt : ∀ o ∈ tx.outputs, o.script.length < UInt64.size
  witnesses : ∀ i ∈ tx.inputs, witness i.witness

/-- In the witness form inputs and witnesses are apart. -/
theorem within_iff_bare {witness : List Bytes → Prop} {tx : Tx} :
    tx.Within witness ↔
      ((tx.inputs.map TxIn.bare).length < UInt64.size ∧ ∀ i ∈ tx.inputs.map TxIn.bare, i.IsBare) ∧
      (tx.outputs.length < UInt64.size ∧ ∀ o ∈ tx.outputs, o.script.length < UInt64.size) ∧
      ∀ w ∈ tx.inputs.map TxIn.witness, witness w := by
  rw [List.length_map, List.forall_mem_map, List.forall_mem_map]
  constructor
  · intro h
    exact ⟨⟨h.inputs_lt, fun i hi ↦ ⟨h.inputScript_lt i hi, rfl⟩⟩,
      ⟨h.outputs_lt, h.outputScript_lt⟩, h.witnesses⟩
  · rintro ⟨⟨hinputs, hbare⟩, ⟨houtputs, hscripts⟩, hwitnesses⟩
    exact ⟨hinputs, houtputs, fun i hi ↦ (hbare i hi).1, hscripts, hwitnesses⟩

/-- In the plain form there are no witnesses. -/
theorem within_iff_of_bare {witness : List Bytes → Prop} (hempty : witness []) {tx : Tx}
    (hbare : ∀ i ∈ tx.inputs, i.witness = []) :
    tx.Within witness ↔
      (tx.inputs.length < UInt64.size ∧ ∀ i ∈ tx.inputs, i.IsBare) ∧
      tx.outputs.length < UInt64.size ∧ ∀ o ∈ tx.outputs, o.script.length < UInt64.size := by
  constructor
  · intro h
    exact ⟨⟨h.inputs_lt, fun i hi ↦ ⟨h.inputScript_lt i hi, hbare i hi⟩⟩, h.outputs_lt,
      h.outputScript_lt⟩
  · rintro ⟨⟨hinputs, hscript⟩, houtputs, hscripts⟩
    refine ⟨hinputs, houtputs, fun i hi ↦ (hscript i hi).1, hscripts, fun i hi ↦ ?_⟩
    rwa [hbare i hi]

theorem noWitnesses_iff (inputs : List TxIn) :
    (!inputs.isEmpty && inputs.all fun i ↦ i.witness.isEmpty) =
      !(inputs.isEmpty || inputs.any fun i ↦ !i.witness.isEmpty) := by
  rw [Bool.not_or, List.not_any_eq_all_not]
  simp only [Bool.not_not]

theorem hasWitnessForm_eq_false_of_bare {tx : Tx} (hne : tx.inputs ≠ [])
    (hbare : ∀ i ∈ tx.inputs, i.witness = []) : tx.hasWitnessForm = false := by
  simpa [hasWitnessForm, hne] using hbare

theorem bare_of_hasWitnessForm_eq_false {tx : Tx} (h : tx.hasWitnessForm = false) :
    tx.inputs ≠ [] ∧ ∀ i ∈ tx.inputs, i.witness = [] := by
  simpa [hasWitnessForm] using h

/-- The witness form starts like a transaction without inputs, and a flag follows. -/
theorem encode_eq_of_hasWitnessForm {tx : Tx} (h : tx.hasWitnessForm = true) :
    tx.encode = word32Bytes tx.version ++ (countedBytes TxIn.encode [] ++
      ([1] ++ tx.encodeBody ++ tx.inputs.flatMap TxIn.encodeWitness ++
        word32Bytes tx.lockTime)) := by
  rw [encode, if_pos h]
  simp only [List.append_assoc]
  rfl

theorem encode_eq_of_not_hasWitnessForm {tx : Tx} (h : tx.hasWitnessForm = false) :
    tx.encode = word32Bytes tx.version ++ (countedBytes TxIn.encode tx.inputs ++
      (countedBytes TxOut.encode tx.outputs ++ word32Bytes tx.lockTime)) := by
  rw [encode, h, if_neg Bool.false_ne_true, encodePlain, encodeBody]
  simp only [List.append_assoc]

/-- The parts of the witness form in the order in which they are read. -/
theorem encodeBody_append_witnesses (tx : Tx) (rest : Bytes) :
    tx.encodeBody ++ tx.inputs.flatMap TxIn.encodeWitness ++ word32Bytes tx.lockTime ++ rest =
      countedBytes TxIn.encode (tx.inputs.map TxIn.bare) ++ (countedBytes TxOut.encode tx.outputs ++
        ((tx.inputs.map TxIn.witness).flatMap Witness.encode ++
          (word32Bytes tx.lockTime ++ rest))) := by
  simp only [encodeBody, countedBytes_map, TxIn.encode_bare, List.flatMap_map, List.append_assoc]
  rfl

theorem witnessFormDecoder_eq_ok_iff {version : UInt32} {tx : Tx} {bs rest : Bytes} :
    witnessFormDecoder version bs = .ok (tx, rest) ↔
      (tx.version = version ∧ tx.Within Witness.Fits ∧ tx.hasWitnessForm) ∧
        bs = tx.encodeBody ++ tx.inputs.flatMap TxIn.encodeWitness ++ word32Bytes tx.lockTime ++
          rest := by
  simp only [witnessFormDecoder, bind_eq_ok_iff, (counted_spells TxIn.decoder_spells).iff,
    (counted_spells TxOut.decoder_spells).iff, times_eq_ok_iff Witness.decoder_spells,
    check_eq_ok_iff, noWitnesses_iff, Bool.not_eq_true', Bool.not_eq_false, word32_spells.iff,
    pure_eq_ok_iff, true_and, Prod.mk.injEq]
  constructor
  · rintro ⟨inputs, _, ⟨hinputs, rfl⟩, outputs, _, ⟨houtputs, rfl⟩, ws, _, ⟨hws, hfits, rfl⟩, hform,
      lockTime, _, rfl, rfl, rfl⟩
    obtain ⟨xs, rfl, rfl⟩ := exists_of_bare_of_witnesses hws fun i hi ↦ (hinputs.2 i hi).2
    rw [zipWith_bare_witness] at hform ⊢
    exact ⟨⟨rfl, within_iff_bare.2 ⟨hinputs, houtputs, hfits⟩, hform⟩,
      (encodeBody_append_witnesses ⟨version, xs, outputs, lockTime⟩ _).symm⟩
  · rintro ⟨⟨rfl, hwithin, hform⟩, rfl⟩
    obtain ⟨hinputs, houtputs, hfits⟩ := within_iff_bare.1 hwithin
    refine ⟨tx.inputs.map TxIn.bare, _, ⟨hinputs, encodeBody_append_witnesses tx rest⟩, tx.outputs,
      _, ⟨houtputs, rfl⟩, tx.inputs.map TxIn.witness, _, ⟨by simp, hfits, rfl⟩, ?_⟩
    rw [zipWith_bare_witness]
    exact ⟨hform, tx.lockTime, rest, rfl, rfl, rfl⟩

theorem plainFormDecoder_eq_ok_iff {version : UInt32} {inputs : List TxIn} {tx : Tx}
    {bs rest : Bytes} :
    plainFormDecoder version inputs bs = .ok (tx, rest) ↔
      (tx.version = version ∧ tx.inputs = inputs ∧ tx.outputs.length < UInt64.size ∧
        ∀ o ∈ tx.outputs, o.script.length < UInt64.size) ∧
        bs = countedBytes TxOut.encode tx.outputs ++ word32Bytes tx.lockTime ++ rest := by
  simp only [plainFormDecoder, bind_eq_ok_iff, (counted_spells TxOut.decoder_spells).iff,
    word32_spells.iff, pure_eq_ok_iff, true_and, Prod.mk.injEq]
  constructor
  · rintro ⟨outputs, _, ⟨⟨houtputs, hscripts⟩, rfl⟩, lockTime, _, rfl, rfl, rfl⟩
    exact ⟨⟨rfl, rfl, houtputs, hscripts⟩, by rw [List.append_assoc]⟩
  · rintro ⟨⟨rfl, rfl, houtputs, hscripts⟩, rfl⟩
    exact ⟨tx.outputs, _, ⟨⟨houtputs, hscripts⟩, by rw [List.append_assoc]⟩, tx.lockTime, rest, rfl,
      rfl, rfl⟩

theorem decoder_spells : Tx.decoder.Spells (Within Witness.Fits) encode := by
  intro bs tx rest
  simp only [Tx.decoder, bind_eq_ok_iff, word32_spells.iff,
    (counted_spells TxIn.decoder_spells).iff, true_and]
  constructor
  · rintro ⟨version, _, rfl, inputs, _, ⟨hinputs, rfl⟩, h⟩
    -- A first count of zero is a marker: the transaction then has the witness form.
    split at h
    · next hempty =>
      obtain rfl := List.isEmpty_iff.1 hempty
      simp only [bind_eq_ok_iff, byte_spells.iff, check_eq_ok_iff, true_and, ne_eq,
        Decidable.not_not] at h
      obtain ⟨_, _, rfl, rfl, h⟩ := h
      obtain ⟨⟨rfl, hwithin, hform⟩, rfl⟩ := witnessFormDecoder_eq_ok_iff.1 h
      exact ⟨hwithin, by simp only [encode_eq_of_hasWitnessForm hform, List.append_assoc]⟩
    · next hne =>
      obtain ⟨⟨rfl, rfl, houtputs⟩, rfl⟩ := plainFormDecoder_eq_ok_iff.1 h
      have hbare : ∀ i ∈ tx.inputs, i.witness = [] := fun i hi ↦ (hinputs.2 i hi).2
      have hform := hasWitnessForm_eq_false_of_bare (mt List.isEmpty_iff.2 hne) hbare
      refine ⟨(within_iff_of_bare Witness.fits_nil hbare).2 ⟨hinputs, houtputs⟩, ?_⟩
      simp only [encode_eq_of_not_hasWitnessForm hform, List.append_assoc]
  · rintro ⟨hwithin, rfl⟩
    cases hform : tx.hasWitnessForm with
    | true =>
      have hbs : tx.encode ++ rest = word32Bytes tx.version ++ (countedBytes TxIn.encode [] ++
          ([1] ++ (tx.encodeBody ++ tx.inputs.flatMap TxIn.encodeWitness ++
            word32Bytes tx.lockTime ++ rest))) := by
        simp only [encode_eq_of_hasWitnessForm hform, List.append_assoc]
      refine ⟨tx.version, _, hbs, [], _, ⟨⟨by decide, by simp⟩, rfl⟩, ?_⟩
      rw [if_pos List.isEmpty_nil]
      simp only [bind_eq_ok_iff, byte_spells.iff, check_eq_ok_iff, true_and, ne_eq,
        Decidable.not_not]
      exact ⟨1, _, rfl, rfl, witnessFormDecoder_eq_ok_iff.2 ⟨⟨rfl, hwithin, hform⟩, rfl⟩⟩
    | false =>
      obtain ⟨hne, hbare⟩ := bare_of_hasWitnessForm_eq_false hform
      have hbs : tx.encode ++ rest = word32Bytes tx.version ++
          (countedBytes TxIn.encode tx.inputs ++ (countedBytes TxOut.encode tx.outputs ++
            word32Bytes tx.lockTime ++ rest)) := by
        simp only [encode_eq_of_not_hasWitnessForm hform, List.append_assoc]
      obtain ⟨hinputs, houtputs⟩ := (within_iff_of_bare Witness.fits_nil hbare).1 hwithin
      refine ⟨tx.version, _, hbs, tx.inputs, _, ⟨hinputs, rfl⟩, ?_⟩
      rw [if_neg (mt List.isEmpty_iff.1 hne)]
      exact plainFormDecoder_eq_ok_iff.2 ⟨⟨rfl, rfl, houtputs⟩, rfl⟩

end Tx

/-! ## Blocks -/

namespace Block

def Within (witness : List Bytes → Prop) (b : Block) : Prop :=
  b.txs.length < UInt64.size ∧ ∀ tx ∈ b.txs, tx.Within witness

theorem decoder_spells : Block.decoder.Spells (Within Witness.Fits) encode := by
  intro bs b rest
  simp only [Block.decoder, bind_eq_ok_iff, Header.decoder_spells.iff,
    (counted_spells Tx.decoder_spells).iff, pure_eq_ok_iff, true_and, Prod.mk.injEq]
  constructor
  · rintro ⟨header, _, rfl, txs, _, ⟨hwithin, rfl⟩, rfl, rfl⟩
    exact ⟨hwithin, by rw [encode, List.append_assoc]⟩
  · rintro ⟨hwithin, rfl⟩
    exact ⟨b.header, _, by rw [encode, List.append_assoc], b.txs, _, ⟨hwithin, rfl⟩, rfl, rfl⟩

/-- Exactly the encodings of blocks with witnesses in the limit are decoded as a whole. -/
theorem decode_eq_ok_iff {bs : Bytes} {b : Block} :
    decode bs = .ok b ↔ b.Within Witness.Fits ∧ bs = b.encode :=
  exactly_eq_ok_iff_of_spells decoder_spells

end Block

end TxoIndex

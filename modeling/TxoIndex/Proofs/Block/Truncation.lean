import TxoIndex.Proofs.Block.Agreement
import TxoIndex.Proofs.Wire.Truncation

/-!
# Blocks find their own end

Nothing around a block says where it ends, so both ways of reading it have to find its end in its
own bytes. They do: an accepted block with more bytes behind it is refused for these bytes, and
counted are all of them; and the front of an accepted block is refused because it ends too early. No
other error can come first there, although counts, lengths, flags and the room for witnesses are
checked on the way, since these checks see the same bytes as in the whole block.
-/

namespace TxoIndex

open Decoder

instance : Input Cursor WalkError := ⟨Cursor.ahead, .moreBytesNeeded⟩

/-! ## Decoding -/

theorem Outpoint.runsOut_decoder (o : Outpoint) : RunsOut Outpoint.decoder o.key :=
  (runsOut_hash o.txid).append (hash_spells.takes trivial) ((runsOut_word32 o.vout).bind _)

theorem Header.runsOut_decoder (h : Header) : RunsOut Header.decoder h.encode := by
  simp only [Header.encode, List.append_assoc]
  apply (runsOut_word32 h.version).append (word32_spells.takes trivial)
  apply (runsOut_hash h.prev).append (hash_spells.takes trivial)
  apply (runsOut_hash h.merkleRoot).append (hash_spells.takes trivial)
  apply (runsOut_word32 h.time).append (word32_spells.takes trivial)
  apply (runsOut_word32 h.bits).append (word32_spells.takes trivial)
  exact (runsOut_word32 h.nonce).bind _

theorem TxIn.runsOut_decoder {i : TxIn} (h : i.IsBare) : RunsOut TxIn.decoder i.encode := by
  rw [TxIn.encode, List.append_assoc]
  apply (Outpoint.runsOut_decoder i.prevout).append (Outpoint.decoder_spells.takes trivial)
  apply (runsOut_sized h.1).append (sized_spells.takes h.1)
  exact (runsOut_word32 i.sequence).bind _

theorem TxOut.runsOut_decoder {o : TxOut} (h : o.script.length < UInt64.size) :
    RunsOut TxOut.decoder o.encode := by
  apply (runsOut_word64 o.value).append (word64_spells.takes trivial)
  exact (runsOut_sized h).bind _

namespace Witness

theorem elements_succ (total count room : Nat) (done : List Bytes) :
    elements total (count + 1) room done = (do
      let length ← compactSize
      let required := room + length + CompactSize.width length
      if UInt64.size ≤ required then throw (.oversized (UInt64.size - 1))
      if maxVectorSize + 4 * total < required then throw (.oversized required)
      let element ← fixed length
      elements total count required (element :: done)) := by
  funext bs
  cases hlength : compactSize bs with
  | error e => simp only [elements, hlength, bind_error hlength]
  | ok r =>
    obtain ⟨length, bs'⟩ := r
    rw [bind_ok hlength]
    simp only [elements, hlength]
    split
    · rfl
    · split
      · rfl
      · cases hfixed : fixed length bs' with
        | error e => simp only [bind_error hfixed]
        | ok r => simp only [bind_ok hfixed]

/-- The room that was checked for the elements of the whole witness is checked again. -/
theorem runsOut_elements {total room : Nat} {w done : List Bytes} (htotal : total ≤ maxVectorSize)
    (hroom : room + (w.flatMap sizedBytes).length ≤ maxVectorSize + 4 * total) :
    RunsOut (elements total w.length room done) (w.flatMap sizedBytes) := by
  induction w generalizing room done with
  | nil => exact runsOut_nil _
  | cons element w ih =>
    have hmax : maxVectorSize + 4 * maxVectorSize < UInt64.size := by decide
    have hrequired : room + element.length + CompactSize.width element.length =
        room + (sizedBytes element).length := by
      rw [sizedBytes, List.length_append, CompactSize.length_encode]
      omega
    rw [List.flatMap_cons, List.length_append] at hroom
    have hlength : element.length < UInt64.size := by omega
    rw [List.length_cons, elements_succ, List.flatMap_cons, sizedBytes, List.append_assoc]
    apply (runsOut_compactSize _).append (compactSize_spells.takes hlength)
    simp only [hrequired]
    apply RunsOut.check (by omega)
    apply RunsOut.check (by omega)
    apply (runsOut_fixed rfl).append
    · intro bs rest hbs
      exact ⟨rest, fixed_eq_ok_iff.2 ⟨rfl, hbs⟩, rfl⟩
    · exact ih (by omega)

theorem runsOut_decoder {w : List Bytes} (h : Fits w) : RunsOut Witness.decoder (encode w) := by
  have hlength := length_le_length_flatMap_of_pos length_sizedBytes_pos w
  have hmax : maxVectorSize < UInt64.size := by decide
  unfold Fits at h
  apply (runsOut_compactSize _).append (compactSize_spells.takes (by omega))
  exact RunsOut.check (by omega) (runsOut_elements (by omega) (by omega))

end Witness

namespace Tx

theorem runsOut_witnessFormDecoder {tx : Tx} (h : tx.Within Witness.Fits)
    (hform : tx.hasWitnessForm) :
    RunsOut (witnessFormDecoder tx.version) (tx.encodeBody ++
      tx.inputs.flatMap TxIn.encodeWitness ++ word32Bytes tx.lockTime) := by
  obtain ⟨hinputs, houtputs, hfits⟩ := within_iff_bare.1 h
  have hbytes := encodeBody_append_witnesses tx []
  simp only [List.append_nil] at hbytes
  have hcount : (tx.inputs.map TxIn.witness).length = (tx.inputs.map TxIn.bare).length := by
    rw [List.length_map, List.length_map]
  rw [hbytes]
  apply (runsOut_counted TxIn.decoder_spells TxIn.runsOut_decoder hinputs).append
    ((counted_spells TxIn.decoder_spells).takes hinputs)
  apply (runsOut_counted TxOut.decoder_spells TxOut.runsOut_decoder houtputs).append
    ((counted_spells TxOut.decoder_spells).takes houtputs)
  apply (runsOut_times Witness.decoder_spells Witness.runsOut_decoder hcount hfits).append
    (takes_times Witness.decoder_spells hcount hfits)
  simp only [zipWith_bare_witness, noWitnesses_iff]
  apply RunsOut.check
  · rw [← hasWitnessForm, hform]
    decide
  · exact (runsOut_word32 tx.lockTime).bind _

theorem runsOut_plainFormDecoder {tx : Tx} (version : UInt32) (inputs : List TxIn)
    (h : tx.outputs.length < UInt64.size ∧ ∀ o ∈ tx.outputs, o.script.length < UInt64.size) :
    RunsOut (plainFormDecoder version inputs)
      (countedBytes TxOut.encode tx.outputs ++ word32Bytes tx.lockTime) := by
  apply (runsOut_counted TxOut.decoder_spells TxOut.runsOut_decoder h).append
    ((counted_spells TxOut.decoder_spells).takes h)
  exact (runsOut_word32 tx.lockTime).bind _

theorem runsOut_decoder {tx : Tx} (h : tx.Within Witness.Fits) :
    RunsOut Tx.decoder tx.encode := by
  cases hform : tx.hasWitnessForm with
  | true =>
    have hnone : ([] : List TxIn).length < UInt64.size ∧ ∀ i ∈ ([] : List TxIn), i.IsBare :=
      ⟨by decide, by simp⟩
    rw [encode_eq_of_hasWitnessForm hform]
    apply (runsOut_word32 tx.version).append (word32_spells.takes trivial)
    apply (runsOut_counted TxIn.decoder_spells TxIn.runsOut_decoder hnone).append
      ((counted_spells TxIn.decoder_spells).takes hnone)
    rw [if_pos List.isEmpty_nil, List.append_assoc, List.append_assoc]
    apply (runsOut_byte 1).append (byte_spells.takes trivial)
    apply RunsOut.check (by decide)
    rw [← List.append_assoc]
    exact runsOut_witnessFormDecoder h hform
  | false =>
    obtain ⟨hne, hbare⟩ := bare_of_hasWitnessForm_eq_false hform
    obtain ⟨hinputs, houtputs⟩ := (within_iff_of_bare Witness.fits_nil hbare).1 h
    rw [encode_eq_of_not_hasWitnessForm hform]
    apply (runsOut_word32 tx.version).append (word32_spells.takes trivial)
    apply (runsOut_counted TxIn.decoder_spells TxIn.runsOut_decoder hinputs).append
      ((counted_spells TxIn.decoder_spells).takes hinputs)
    rw [if_neg (mt List.isEmpty_iff.1 hne)]
    exact runsOut_plainFormDecoder tx.version tx.inputs houtputs

end Tx

theorem Block.runsOut_decoder {b : Block} (h : b.Within Witness.Fits) :
    RunsOut Block.decoder b.encode := by
  apply (Header.runsOut_decoder b.header).append (Header.decoder_spells.takes trivial)
  exact (runsOut_counted Tx.decoder_spells Tx.runsOut_decoder h).bind _

/-! ## Walking -/

namespace Walk

theorem Spells.takes {α β : Type} {w : Walk β} {range : α → Prop} {spell : α → Bytes}
    {view : α → β} (h : w.Spells range spell view) {a : α} (ha : range a) :
    Takes w (spell a) (view a) :=
  fun c rest hahead ↦ ⟨⟨rest, c.passed + (spell a).length⟩,
    h.iff.2 ⟨a, ⟨ha, rfl⟩, hahead, rfl⟩, rfl⟩

section Lists

variable {α β : Type} {item : Walk β} {range : α → Prop} {spell : α → Bytes} {view : α → β}
  {count : Nat} {xs : List α}

theorem takes_repeatStep (h : item.Spells range spell view) (hcount : xs.length = count)
    (hxs : ∀ x ∈ xs, range x) :
    Takes (repeatStep item count []) (xs.flatMap spell) ([].reverse ++ xs.map view) :=
  fun c rest hahead ↦ ⟨⟨rest, c.passed + (xs.flatMap spell).length⟩,
    (repeatStep_eq_ok_iff h).2 ⟨xs, hcount, hxs, rfl, hahead, rfl⟩, rfl⟩

theorem runsOut_list (h : item.Spells range spell view)
    (hitem : ∀ {a}, range a → RunsOut item (spell a)) (hcount : xs.length = count)
    (hxs : ∀ x ∈ xs, range x) : RunsOut (repeatStep item count []) (xs.flatMap spell) :=
  runsOut_repeatStep hcount (fun x hx ↦ h.takes (hxs x hx)) (fun x hx ↦ hitem (hxs x hx)) []

end Lists

/-- What follows on the place where the walk stands runs out wherever that is. -/
theorem runsOut_get {β : Type} {f : Cursor → Walk β} {bs : Bytes} (h : ∀ c, RunsOut (f c) bs) :
    RunsOut (get >>= f) bs :=
  fun c hfront hne ↦ h c c hfront hne

theorem runsOut_take {n : Nat} {bs : Bytes} (hn : bs.length = n) : RunsOut (take n) bs := by
  intro c h hne
  have hsplit : Bytes.split? n c.ahead = none := Bytes.split?_of_isPrefix hn h hne
  rw [take, hsplit]
  rfl

theorem takes_take {n : Nat} {bs : Bytes} (hn : bs.length = n) : Takes (take n) bs bs :=
  fun c rest hahead ↦ ⟨⟨rest, c.passed + bs.length⟩, take_eq_ok_iff.2 ⟨hn, hahead, rfl⟩, rfl⟩

theorem runsOut_compactSize (n : Nat) : RunsOut compactSize (CompactSize.encode n) := by
  intro c h hne
  have hread : CompactSize.read c.ahead = .error .truncated := CompactSize.read_of_isPrefix h hne
  rw [compactSize, hread]
  rfl

theorem takes_compactSize {n : Nat} (hn : n < UInt64.size) :
    Takes compactSize (CompactSize.encode n) n :=
  fun c rest hahead ↦ ⟨⟨rest, c.passed + (CompactSize.encode n).length⟩,
    compactSize_eq_ok_iff.2 ⟨hn, hahead, rfl⟩, rfl⟩

theorem runsOut_sized {bs : Bytes} (h : bs.length < UInt64.size) :
    RunsOut sized (sizedBytes bs) :=
  (runsOut_compactSize _).append (takes_compactSize h) (runsOut_take rfl)

theorem runsOut_input {i : TxIn} (h : i.IsBare) : RunsOut input i.encode := by
  rw [TxIn.encode, List.append_assoc]
  apply (runsOut_take i.prevout.length_key).append (takes_take i.prevout.length_key)
  apply (runsOut_sized h.1).append (sized_spells.takes h.1)
  exact (runsOut_take (Bytes.length_littleEndian 4 _)).bind _

theorem runsOut_output {o : TxOut} (h : o.script.length < UInt64.size) :
    RunsOut output o.encode := by
  have hvalue : (word64Bytes o.value).length = 8 := Bytes.length_littleEndian 8 _
  apply (runsOut_take hvalue).append (takes_take hvalue)
  exact (runsOut_sized h).bind _

theorem runsOut_inputs {xs : List TxIn}
    (h : xs.length < UInt64.size ∧ ∀ x ∈ xs, x.IsBare) :
    RunsOut inputs (countedBytes TxIn.encode xs) := by
  apply (runsOut_compactSize _).append (takes_compactSize h.1)
  apply RunsOut.bind
  exact runsOut_list input_spells runsOut_input rfl h.2

theorem runsOut_outputs {xs : List TxOut}
    (h : xs.length < UInt64.size ∧ ∀ x ∈ xs, x.script.length < UInt64.size) :
    RunsOut outputs (countedBytes TxOut.encode xs) := by
  apply (runsOut_compactSize _).append (takes_compactSize h.1)
  exact runsOut_list output_spells runsOut_output rfl h.2

theorem runsOut_witness {w : List Bytes} (h : Witness.Countable w) :
    RunsOut witness (Witness.encode w) := by
  apply (runsOut_compactSize _).append (takes_compactSize h.1)
  apply RunsOut.bind
  exact runsOut_list sized_spells runsOut_sized rfl h.2

/-- The walk over a witness transaction behind its marker. -/
theorem runsOut_witnessForm {tx : Tx} (h : tx.Within Witness.Countable)
    (hform : tx.hasWitnessForm) (version : Bytes) :
    RunsOut (witnessForm version) ([1] ++ tx.encodeBody ++
      tx.inputs.flatMap TxIn.encodeWitness ++ word32Bytes tx.lockTime) := by
  obtain ⟨hinputs, houtputs, hcountable⟩ := Tx.within_iff_bare.1 h
  have hbytes := Tx.encodeBody_append_witnesses tx []
  simp only [List.append_nil] at hbytes
  have hcount : (tx.inputs.map TxIn.witness).length = (tx.inputs.map TxIn.bare).length := by
    rw [List.length_map, List.length_map]
  rw [List.append_assoc, List.append_assoc, ← List.append_assoc tx.encodeBody, hbytes]
  apply (runsOut_take rfl).append (takes_take rfl)
  apply RunsOut.check (by decide)
  apply runsOut_get
  intro body
  apply (runsOut_inputs hinputs).append (inputs_spells.takes hinputs)
  apply (runsOut_outputs houtputs).append (outputs_spells.takes houtputs)
  apply runsOut_get
  intro stop
  apply (runsOut_list witness_spells runsOut_witness hcount hcountable).append
    (takes_repeatStep witness_spells hcount hcountable)
  apply RunsOut.check
  · exact mt (witnesses_all_empty_iff tx.inputs).1 (not_not_intro hform)
  · exact (runsOut_take (Bytes.length_littleEndian 4 _)).bind _

theorem runsOut_plainForm {tx : Tx} (version : Bytes) (body : Cursor) (count : Nat)
    (h : tx.outputs.length < UInt64.size ∧ ∀ o ∈ tx.outputs, o.script.length < UInt64.size) :
    RunsOut (plainForm version body count)
      (countedBytes TxOut.encode tx.outputs ++ word32Bytes tx.lockTime) := by
  apply (runsOut_outputs h).append (outputs_spells.takes h)
  apply runsOut_get
  intro stop
  exact (runsOut_take (Bytes.length_littleEndian 4 _)).bind _

theorem runsOut_transaction {tx : Tx} (h : tx.Within Witness.Countable) :
    RunsOut transaction tx.encode := by
  have hversion : (word32Bytes tx.version).length = 4 := Bytes.length_littleEndian 4 _
  rw [transaction_eq]
  cases hform : tx.hasWitnessForm with
  | true =>
    have hnone : ([] : List TxIn).length < UInt64.size ∧ ∀ i ∈ ([] : List TxIn), i.IsBare :=
      ⟨by decide, by simp⟩
    rw [Tx.encode_eq_of_hasWitnessForm hform]
    apply (runsOut_take hversion).append (takes_take hversion)
    apply runsOut_get
    intro body
    apply (runsOut_inputs hnone).append (inputs_spells.takes hnone)
    rw [if_pos List.length_nil]
    exact runsOut_witnessForm h hform _
  | false =>
    obtain ⟨hne, hbare⟩ := Tx.bare_of_hasWitnessForm_eq_false hform
    obtain ⟨hinputs, houtputs⟩ := (Tx.within_iff_of_bare Witness.countable_nil hbare).1 h
    rw [Tx.encode_eq_of_not_hasWitnessForm hform]
    apply (runsOut_take hversion).append (takes_take hversion)
    apply runsOut_get
    intro body
    apply (runsOut_inputs hinputs).append (inputs_spells.takes hinputs)
    rw [if_neg (mt List.length_eq_zero_iff.1 hne)]
    exact runsOut_plainForm _ body _ houtputs

theorem runsOut_block {b : Block} (h : b.Within Witness.Countable) :
    RunsOut block b.encode := by
  apply (runsOut_take b.header.length_encode).append (takes_take b.header.length_encode)
  apply (runsOut_compactSize _).append (takes_compactSize h.1)
  exact runsOut_list transaction_spells runsOut_transaction rfl h.2

/-- The front of a block that is walked over ends too early. -/
theorem ofBlockBytes_of_isPrefix {b : Block} (h : b.Within Witness.Countable) {front : Bytes}
    (hfront : front <+: b.encode) (hne : front ≠ b.encode) :
    ofBlockBytes front = .error (.parse .moreBytesNeeded) := by
  rw [ofBlockBytes, runsOut_block h (.start front) hfront hne]
  rfl

theorem ofBlockBytes_append {b : Block} (h : b.Within Witness.Countable) {more : Bytes}
    (hmore : more ≠ []) : ofBlockBytes (b.encode ++ more) = .error (.leftover more.length) := by
  obtain ⟨c, hblock, rfl⟩ := block_spells.takes h (.start (b.encode ++ more)) more rfl
  rw [ofBlockBytes, hblock]
  exact if_neg (mt List.isEmpty_iff.1 hmore)

end Walk

/-! ## Whole blocks -/

namespace Block

/-- One of the two ways of reading accepts the bytes as a block. -/
def IsAccepted (bs : Bytes) : Prop :=
  (∃ b, decode bs = .ok b) ∨ ∃ txs, Walk.ofBlockBytes bs = .ok txs

theorem isAccepted_iff {bs : Bytes} :
    IsAccepted bs ↔ ∃ b : Block, b.Within Witness.Countable ∧ bs = b.encode := by
  simp only [IsAccepted, decode_eq_ok_iff, Walk.ofBlockBytes_eq_ok_iff]
  constructor
  · rintro (⟨b, hwithin, hbs⟩ | ⟨txs, b, hwithin, hbs, -⟩)
    · exact ⟨b, hwithin.imp fun _ _ _ _ ↦ Witness.Fits.countable, hbs⟩
    · exact ⟨b, hwithin, hbs⟩
  · rintro ⟨b, hwithin, hbs⟩
    exact .inr ⟨_, b, hwithin, hbs, rfl⟩

/-- Both ways of reading find the end of a block in its own bytes. Bytes behind it are left over,
and the front of it ends too early. So no accepted block starts another one. -/
theorem self_delimiting (bs : Bytes) :
    (∀ b, decode bs = .ok b →
      (∀ more, more ≠ [] → decode (bs ++ more) = .error (.leftover more.length)) ∧
        ∀ front, front <+: bs → front ≠ bs → decode front = .error (.malformed .endOfInput)) ∧
      (∀ txs, Walk.ofBlockBytes bs = .ok txs →
        (∀ more, more ≠ [] → Walk.ofBlockBytes (bs ++ more) = .error (.leftover more.length)) ∧
          ∀ front, front <+: bs → front ≠ bs →
            Walk.ofBlockBytes front = .error (.parse .moreBytesNeeded)) ∧
      (IsAccepted bs → ∀ front, front <+: bs → IsAccepted front → front = bs) := by
  refine ⟨?_, ?_, ?_⟩
  · intro b hb
    obtain ⟨hwithin, rfl⟩ := decode_eq_ok_iff.1 hb
    constructor
    · intro more hmore
      exact exactly_append decoder_spells hwithin hmore
    · intro front hfront hne
      exact exactly_of_isPrefix (runsOut_decoder hwithin) hfront hne
  · intro txs htxs
    obtain ⟨b, hwithin, rfl, -⟩ := Walk.ofBlockBytes_eq_ok_iff.1 htxs
    constructor
    · intro more hmore
      exact Walk.ofBlockBytes_append hwithin hmore
    · intro front hfront hne
      exact Walk.ofBlockBytes_of_isPrefix hwithin hfront hne
  · intro hbs front hfront haccepted
    obtain ⟨b, hb, rfl⟩ := isAccepted_iff.1 hbs
    obtain ⟨b', hb', rfl⟩ := isAccepted_iff.1 haccepted
    -- The walk accepts the front, so this cannot be a proper one.
    have hwalk : Walk.ofBlockBytes b'.encode = .ok (b'.txs.map Tx.view) :=
      Walk.ofBlockBytes_eq_ok_iff.2 ⟨b', hb', rfl, rfl⟩
    by_contra hne
    rw [Walk.ofBlockBytes_of_isPrefix hb hfront hne] at hwalk
    cases hwalk

/-- A block with a transaction of each form, with a byte behind it, without its last byte, and cut
in its first transaction. -/
theorem self_delimiting_ofEachForm :
    decode ofEachForm.encode = .ok ofEachForm ∧
      decode (ofEachForm.encode ++ [0]) = .error (.leftover 1) ∧
      Walk.ofBlockBytes (ofEachForm.encode ++ [0]) = .error (.leftover 1) ∧
      decode ofEachForm.encode.dropLast = .error (.malformed .endOfInput) ∧
      Walk.ofBlockBytes ofEachForm.encode.dropLast = .error (.parse .moreBytesNeeded) ∧
      ¬ IsAccepted (ofEachForm.encode.take 100) := by
  have hdecode : decode ofEachForm.encode = .ok ofEachForm := by decide +kernel
  have hwithin := (decode_eq_ok_iff.1 hdecode).1.imp fun _ _ _ _ ↦ Witness.Fits.countable
  have hwalk : Walk.ofBlockBytes ofEachForm.encode = .ok (ofEachForm.txs.map Tx.view) :=
    Walk.ofBlockBytes_eq_ok_iff.2 ⟨ofEachForm, hwithin, rfl, rfl⟩
  obtain ⟨hdecoded, hwalked, hfree⟩ := self_delimiting ofEachForm.encode
  obtain ⟨hmore, hfront⟩ := hdecoded _ hdecode
  obtain ⟨hmore', hfront'⟩ := hwalked _ hwalk
  have hne : ofEachForm.encode.dropLast ≠ ofEachForm.encode := by decide +kernel
  refine ⟨hdecode, hmore [0] (by decide), hmore' [0] (by decide),
    hfront _ (List.dropLast_prefix _) hne, hfront' _ (List.dropLast_prefix _) hne, ?_⟩
  intro haccepted
  have hwhole := hfree (.inl ⟨_, hdecode⟩) _ (List.take_prefix 100 _) haccepted
  exact absurd hwhole (by decide +kernel)

end Block

end TxoIndex

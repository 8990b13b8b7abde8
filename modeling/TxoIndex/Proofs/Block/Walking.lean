import TxoIndex.Block.Walk
import TxoIndex.Proofs.Block.Spelling

/-!
# Walks and spellings

A walk over the bytes of a block passes exactly the encodings of blocks whose counts and lengths fit
their fields. Nothing of a witness is limited on its own. What a walk returns is a view of the
block: each transaction with its outputs and with the name that the decoded transaction has,
although the walk cuts the bytes to be hashed out of its input.
-/

namespace TxoIndex

open Decoder

/-! ## Positions -/

namespace Cursor

/-- Some bytes lie between two positions. -/
def Passes (c c' : Cursor) (bs : Bytes) : Prop :=
  c.ahead = bs ++ c'.ahead ∧ c'.passed = c.passed + bs.length

theorem passes_nil_iff {c c' : Cursor} : c.Passes c' [] ↔ c = c' := by
  obtain ⟨ahead, passed⟩ := c
  obtain ⟨ahead', passed'⟩ := c'
  simp [Passes, eq_comm]

theorem passes_append_iff {c c' : Cursor} {xs ys : Bytes} :
    c.Passes c' (xs ++ ys) ↔ ∃ m : Cursor, c.Passes m xs ∧ m.Passes c' ys := by
  constructor
  · rintro ⟨hahead, hpassed⟩
    rw [List.append_assoc] at hahead
    rw [List.length_append, ← Nat.add_assoc] at hpassed
    exact ⟨⟨ys ++ c'.ahead, c.passed + xs.length⟩, ⟨hahead, rfl⟩, rfl, hpassed⟩
  · rintro ⟨m, ⟨hahead, hpassed⟩, hahead', hpassed'⟩
    refine ⟨?_, ?_⟩
    · rw [hahead, hahead', List.append_assoc]
    · rw [hpassed', hpassed, List.length_append, Nat.add_assoc]

theorem Passes.append {c m c' : Cursor} {xs ys : Bytes} (h : c.Passes m xs) (h' : m.Passes c' ys) :
    c.Passes c' (xs ++ ys) :=
  passes_append_iff.2 ⟨m, h, h'⟩

/-- The bytes between two positions can be cut out. -/
theorem Passes.upTo {c c' : Cursor} {bs : Bytes} (h : c.Passes c' bs) : c.upTo c' = bs := by
  obtain ⟨hahead, hpassed⟩ := h
  rw [Cursor.upTo, hahead, hpassed, Nat.add_sub_cancel_left, List.take_left]

end Cursor

/-! ## Fields -/

theorem exists_word32Bytes_eq {bs : Bytes} (h : bs.length = 4) : ∃ x, word32Bytes x = bs := by
  have hlt := Bytes.littleEndianValue_lt bs
  rw [h] at hlt
  refine ⟨UInt32.ofNat (Bytes.littleEndianValue bs), ?_⟩
  rw [word32Bytes, UInt32.toNat_ofNat_of_lt' hlt, ← h, Bytes.littleEndian_littleEndianValue]

theorem ofNat_littleEndianValue_word64Bytes (x : UInt64) :
    UInt64.ofNat (Bytes.littleEndianValue (word64Bytes x)) = x := by
  have hx : x.toNat < 256 ^ 8 := x.toNat_lt
  rw [word64Bytes, Bytes.littleEndianValue_littleEndian, Nat.mod_eq_of_lt hx, UInt64.ofNat_toNat]

theorem exists_word64Bytes_eq {bs : Bytes} (h : bs.length = 8) : ∃ x, word64Bytes x = bs := by
  have hlt := Bytes.littleEndianValue_lt bs
  rw [h] at hlt
  refine ⟨UInt64.ofNat (Bytes.littleEndianValue bs), ?_⟩
  rw [word64Bytes, UInt64.toNat_ofNat_of_lt' hlt, ← h, Bytes.littleEndian_littleEndianValue]

theorem exists_append_eq (n m : Nat) {bs : Bytes} (h : bs.length = n + m) :
    ∃ xs ys : Bytes, xs.length = n ∧ ys.length = m ∧ bs = xs ++ ys :=
  ⟨bs.take n, bs.drop n, by simp [h], by simp [h], (List.take_append_drop n bs).symm⟩

/-- Any thirty-six bytes are the key of an outpoint. -/
theorem exists_key_eq {bs : Bytes} (h : bs.length = 36) : ∃ o : Outpoint, o.key = bs := by
  obtain ⟨txid, vout, htxid, hvout, rfl⟩ := exists_append_eq 32 4 h
  obtain ⟨vout, rfl⟩ := exists_word32Bytes_eq hvout
  exact ⟨⟨⟨txid, htxid⟩, vout⟩, rfl⟩

/-- Any eighty bytes are a header. -/
theorem exists_header_encode_eq {bs : Bytes} (h : bs.length = Header.size) :
    ∃ x : Header, x.encode = bs := by
  obtain ⟨version, bs₁, hversion, h₁, rfl⟩ := exists_append_eq 4 76 h
  obtain ⟨prev, bs₂, hprev, h₂, rfl⟩ := exists_append_eq 32 44 h₁
  obtain ⟨root, bs₃, hroot, h₃, rfl⟩ := exists_append_eq 32 12 h₂
  obtain ⟨time, bs₄, htime, h₄, rfl⟩ := exists_append_eq 4 8 h₃
  obtain ⟨bits, nonce, hbits, hnonce, rfl⟩ := exists_append_eq 4 4 h₄
  obtain ⟨version, rfl⟩ := exists_word32Bytes_eq hversion
  obtain ⟨time, rfl⟩ := exists_word32Bytes_eq htime
  obtain ⟨bits, rfl⟩ := exists_word32Bytes_eq hbits
  obtain ⟨nonce, rfl⟩ := exists_word32Bytes_eq hnonce
  refine ⟨⟨version, ⟨prev, hprev⟩, ⟨root, hroot⟩, time, bits, nonce⟩, ?_⟩
  simp only [Header.encode, List.append_assoc]

namespace Walk

/-- The walk passes exactly the spellings of the values in a range, and returns a view of them. -/
def Spells {α β : Type} (w : Walk β) (range : α → Prop) (spell : α → Bytes) (view : α → β) : Prop :=
  ∀ ⦃c : Cursor⦄ ⦃b : β⦄ ⦃c' : Cursor⦄,
    w c = .ok (b, c') ↔ ∃ a, (range a ∧ b = view a) ∧ c.Passes c' (spell a)

theorem Spells.iff {α β : Type} {w : Walk β} {range : α → Prop} {spell : α → Bytes} {view : α → β}
    (h : w.Spells range spell view) {c : Cursor} {b : β} {c' : Cursor} :
    w c = .ok (b, c') ↔ ∃ a, (range a ∧ b = view a) ∧ c.Passes c' (spell a) := @h c b c'

theorem take_eq_ok_iff {n : Nat} {c c' : Cursor} {bs : Bytes} :
    take n c = .ok (bs, c') ↔ bs.length = n ∧ c.Passes c' bs := by
  unfold take
  constructor
  · intro h
    split at h
    · simp at h
    · next front rest hsplit =>
      obtain ⟨rfl, hahead⟩ := Bytes.split?_eq_some_iff.1 hsplit
      simp only [Except.ok.injEq, Prod.mk.injEq] at h
      obtain ⟨rfl, rfl⟩ := h
      exact ⟨rfl, hahead, rfl⟩
  · rintro ⟨rfl, hahead, hpassed⟩
    have hsplit : Bytes.split? bs.length c.ahead = some (bs, c'.ahead) :=
      Bytes.split?_eq_some_iff.2 ⟨rfl, hahead⟩
    rw [hsplit]
    simp only [← hpassed]

theorem compactSize_eq_ok_iff {c c' : Cursor} {n : Nat} :
    compactSize c = .ok (n, c') ↔ n < UInt64.size ∧ c.Passes c' (CompactSize.encode n) := by
  unfold compactSize
  constructor
  · intro h
    split at h
    · simp at h
    · simp at h
    · next m rest hread =>
      obtain ⟨hm, hahead⟩ := eq_encode_of_read hread
      simp only [Except.ok.injEq, Prod.mk.injEq] at h
      obtain ⟨rfl, rfl⟩ := h
      exact ⟨hm, hahead, by rw [CompactSize.length_encode]⟩
  · rintro ⟨hn, hahead, hpassed⟩
    rw [CompactSize.length_encode] at hpassed
    rw [hahead, read_encode hn]
    simp only [← hpassed]

theorem sized_eq_ok_iff {c c' : Cursor} {bs : Bytes} :
    sized c = .ok (bs, c') ↔ bs.length < UInt64.size ∧ c.Passes c' (sizedBytes bs) := by
  simp only [sized, bind_eq_ok_iff, compactSize_eq_ok_iff, take_eq_ok_iff, sizedBytes,
    Cursor.passes_append_iff]
  constructor
  · rintro ⟨n, m, ⟨hn, hm⟩, rfl, hm'⟩
    exact ⟨hn, m, hm, hm'⟩
  · rintro ⟨hn, m, hm, hm'⟩
    exact ⟨bs.length, m, ⟨hn, hm⟩, rfl, hm'⟩

theorem sized_spells : sized.Spells (·.length < UInt64.size) sizedBytes id := by
  intro c bs c'
  rw [sized_eq_ok_iff]
  constructor
  · rintro ⟨hlength, hpasses⟩
    exact ⟨bs, ⟨hlength, rfl⟩, hpasses⟩
  · rintro ⟨_, ⟨hlength, rfl⟩, hpasses⟩
    exact ⟨hlength, hpasses⟩

theorem repeatStep_eq_ok_iff {α β : Type} {item : Walk β} {range : α → Prop} {spell : α → Bytes}
    {view : α → β} (h : item.Spells range spell view) {count : Nat} {done ys : List β}
    {c c' : Cursor} :
    repeatStep item count done c = .ok (ys, c') ↔
      ∃ xs : List α, xs.length = count ∧ (∀ x ∈ xs, range x) ∧ ys = done.reverse ++ xs.map view ∧
        c.Passes c' (xs.flatMap spell) := by
  induction count generalizing done c with
  | zero =>
    simp only [repeatStep_zero, pure_eq_ok_iff, Prod.mk.injEq, List.length_eq_zero_iff]
    constructor
    · rintro ⟨rfl, rfl⟩
      exact ⟨[], rfl, by simp, by simp, Cursor.passes_nil_iff.2 rfl⟩
    · rintro ⟨_, rfl, -, rfl, hpasses⟩
      exact ⟨by simp, Cursor.passes_nil_iff.1 hpasses⟩
  | succ count ih =>
    simp only [repeatStep_succ, bind_eq_ok_iff, h.iff, ih]
    constructor
    · rintro ⟨_, m, ⟨a, ⟨ha, rfl⟩, hm⟩, xs, rfl, hxs, rfl, hm'⟩
      exact ⟨a :: xs, rfl, List.forall_mem_cons.2 ⟨ha, hxs⟩, by simp, hm.append hm'⟩
    · rintro ⟨_ | ⟨a, xs⟩, hlength, hxs, rfl, hpasses⟩
      · simp at hlength
      · obtain ⟨ha, hxs⟩ := List.forall_mem_cons.1 hxs
        obtain ⟨m, hm, hm'⟩ := Cursor.passes_append_iff.1 hpasses
        exact ⟨view a, m, ⟨a, ⟨ha, rfl⟩, hm⟩, xs, Nat.succ.inj hlength, hxs, by simp, hm'⟩

/-! ## Parts of a transaction -/

theorem input_spells : input.Spells TxIn.IsBare TxIn.encode fun _ ↦ () := by
  intro c u c'
  simp only [input, bind_eq_ok_iff, take_eq_ok_iff, sized_eq_ok_iff, pure_eq_ok_iff, TxIn.encode,
    Cursor.passes_append_iff]
  constructor
  · rintro ⟨key, m, ⟨hkey, hm⟩, script, m', ⟨hscript, hm'⟩, sequence, m'', ⟨hsequence, hm''⟩, hu⟩
    obtain ⟨prevout, rfl⟩ := exists_key_eq hkey
    obtain ⟨sequence, rfl⟩ := exists_word32Bytes_eq hsequence
    obtain ⟨-, rfl⟩ := Prod.mk.inj hu
    exact ⟨⟨prevout, script, sequence, []⟩, ⟨⟨hscript, rfl⟩, trivial⟩, m', ⟨m, hm, hm'⟩, hm''⟩
  · rintro ⟨i, ⟨⟨hscript, -⟩, -⟩, m', ⟨m, hm, hm'⟩, hm''⟩
    exact ⟨i.prevout.key, m, ⟨i.prevout.length_key, hm⟩, i.script, m', ⟨hscript, hm'⟩,
      word32Bytes i.sequence, c', ⟨Bytes.length_littleEndian .., hm''⟩, rfl⟩

end Walk

def TxOut.view (o : TxOut) : Walk.Output := ⟨o.value, o.script⟩

def Tx.view (tx : Tx) : Walk.Transaction := ⟨tx.txid, tx.inputs.length, tx.outputs.map TxOut.view⟩

/-- The number of elements and their lengths fit compact sizes. -/
def Witness.Countable (w : List Bytes) : Prop :=
  w.length < UInt64.size ∧ ∀ e ∈ w, e.length < UInt64.size

theorem Witness.countable_nil : Witness.Countable [] := by
  constructor
  · decide
  · simp

namespace Walk

theorem output_spells :
    output.Spells (fun o ↦ o.script.length < UInt64.size) TxOut.encode TxOut.view := by
  intro c b c'
  simp only [output, bind_eq_ok_iff, take_eq_ok_iff, sized_eq_ok_iff, pure_eq_ok_iff, TxOut.encode,
    Cursor.passes_append_iff]
  constructor
  · rintro ⟨value, m, ⟨hvalue, hm⟩, script, m', ⟨hscript, hm'⟩, hb⟩
    obtain ⟨value, rfl⟩ := exists_word64Bytes_eq hvalue
    obtain ⟨rfl, rfl⟩ := Prod.mk.inj hb
    rw [ofNat_littleEndianValue_word64Bytes]
    exact ⟨⟨value, script⟩, ⟨hscript, rfl⟩, m, hm, hm'⟩
  · rintro ⟨o, ⟨hscript, rfl⟩, m, hm, hm'⟩
    refine ⟨word64Bytes o.value, m, ⟨Bytes.length_littleEndian .., hm⟩, o.script, c',
      ⟨hscript, hm'⟩, ?_⟩
    rw [ofNat_littleEndianValue_word64Bytes]
    rfl

theorem inputs_spells :
    inputs.Spells (fun xs ↦ xs.length < UInt64.size ∧ ∀ x ∈ xs, x.IsBare)
      (countedBytes TxIn.encode) List.length := by
  intro c n c'
  simp only [inputs, bind_eq_ok_iff, compactSize_eq_ok_iff, repeatStep_eq_ok_iff input_spells,
    pure_eq_ok_iff, Prod.mk.injEq, countedBytes, Cursor.passes_append_iff]
  constructor
  · rintro ⟨_, m, ⟨hn, hm⟩, _, _, ⟨xs, rfl, hxs, -, hm'⟩, rfl, rfl⟩
    exact ⟨xs, ⟨⟨hn, hxs⟩, rfl⟩, m, hm, hm'⟩
  · rintro ⟨xs, ⟨⟨hn, hxs⟩, rfl⟩, m, hm, hm'⟩
    exact ⟨xs.length, m, ⟨hn, hm⟩, _, c', ⟨xs, rfl, hxs, rfl, hm'⟩, rfl, rfl⟩

theorem outputs_spells :
    outputs.Spells (fun xs ↦ xs.length < UInt64.size ∧ ∀ x ∈ xs, x.script.length < UInt64.size)
      (countedBytes TxOut.encode) (List.map TxOut.view) := by
  intro c ys c'
  simp only [outputs, bind_eq_ok_iff, compactSize_eq_ok_iff, repeatStep_eq_ok_iff output_spells,
    countedBytes, Cursor.passes_append_iff]
  constructor
  · rintro ⟨_, m, ⟨hn, hm⟩, xs, rfl, hxs, rfl, hm'⟩
    exact ⟨xs, ⟨⟨hn, hxs⟩, rfl⟩, m, hm, hm'⟩
  · rintro ⟨xs, ⟨⟨hn, hxs⟩, rfl⟩, m, hm, hm'⟩
    exact ⟨xs.length, m, ⟨hn, hm⟩, xs, rfl, hxs, rfl, hm'⟩

theorem witness_spells : witness.Spells Witness.Countable Witness.encode List.isEmpty := by
  intro c b c'
  simp only [witness, bind_eq_ok_iff, compactSize_eq_ok_iff, repeatStep_eq_ok_iff sized_spells,
    pure_eq_ok_iff, Prod.mk.injEq, Witness.encode, countedBytes, Cursor.passes_append_iff]
  constructor
  · rintro ⟨_, m, ⟨hn, hm⟩, _, _, ⟨xs, rfl, hxs, -, hm'⟩, rfl, rfl⟩
    exact ⟨xs, ⟨⟨hn, hxs⟩, by cases xs <;> rfl⟩, m, hm, hm'⟩
  · rintro ⟨xs, ⟨⟨hn, hxs⟩, rfl⟩, m, hm, hm'⟩
    exact ⟨xs.length, m, ⟨hn, hm⟩, _, c', ⟨xs, rfl, hxs, rfl, hm'⟩, by cases xs <;> rfl, rfl⟩

/-! ## Transactions and blocks -/

/-- The rest of a transaction whose first count is zero. -/
def witnessForm (version : Bytes) : Walk Transaction := do
  let flag ← take 1
  if flag ≠ [1] then throw (.unknownSegwitFlag (flag.headD 0))
  let body ← get
  let count ← inputs
  let outs ← outputs
  let body := body.upTo (← get)
  let empties ← repeatStep witness count []
  if count ≠ 0 ∧ empties.all id then throw .segwitFlagWithoutWitnesses
  let lockTime ← take 4
  return ⟨Hash.double (version ++ body ++ lockTime), count, outs⟩

/-- The rest of a transaction behind its inputs, which start at a position. -/
def plainForm (version : Bytes) (body : Cursor) (count : Nat) : Walk Transaction := do
  let outs ← outputs
  let body := body.upTo (← get)
  let lockTime ← take 4
  return ⟨Hash.double (version ++ body ++ lockTime), count, outs⟩

theorem transaction_eq :
    transaction = (do
      let version ← take 4
      let body ← get
      let count ← inputs
      if count = 0 then witnessForm version else plainForm version body count) := rfl

theorem witnesses_all_empty_iff (inputs : List TxIn) :
    ((inputs.map TxIn.bare).length ≠ 0 ∧
        ([].reverse ++ (inputs.map TxIn.witness).map List.isEmpty).all id = true) ↔
      ¬ (inputs.isEmpty || inputs.any fun i ↦ !i.witness.isEmpty) = true := by
  rw [Bool.not_eq_true, ← Bool.not_eq_true', ← Tx.noWitnesses_iff]
  simp

theorem witnessForm_eq_ok_iff {version : UInt32} {c c' : Cursor} {b : Transaction} :
    witnessForm (word32Bytes version) c = .ok (b, c') ↔
      ∃ tx : Tx, ((tx.Within Witness.Countable ∧ tx.hasWitnessForm ∧ tx.version = version) ∧
        b = tx.view) ∧ c.Passes c' ([1] ++ tx.encodeBody ++ tx.inputs.flatMap TxIn.encodeWitness ++
          word32Bytes tx.lockTime) := by
  simp only [witnessForm, bind_eq_ok_iff, take_eq_ok_iff, get_eq_ok_iff, inputs_spells.iff,
    outputs_spells.iff, repeatStep_eq_ok_iff witness_spells, check_eq_ok_iff, pure_eq_ok_iff, ne_eq,
    Decidable.not_not]
  constructor
  · rintro ⟨_, m, ⟨-, hm⟩, rfl, _, _, hget₁, _, m₂, ⟨xs, ⟨hxs, rfl⟩, hm₂⟩, _, m₃,
      ⟨ys, ⟨hys, rfl⟩, hm₃⟩, _, _, hget₃, _, m₄, ⟨ws, hws, hcountable, rfl, hm₄⟩, hform, lockTime,
      m₅, ⟨hlockTime, hm₅⟩, hb⟩
    obtain ⟨rfl, rfl⟩ := Prod.mk.inj hget₁
    obtain ⟨rfl, rfl⟩ := Prod.mk.inj hget₃
    obtain ⟨lockTime, rfl⟩ := exists_word32Bytes_eq hlockTime
    obtain ⟨xs, rfl, rfl⟩ := exists_of_bare_of_witnesses hws fun i hi ↦ (hxs.2 i hi).2
    rw [witnesses_all_empty_iff, Decidable.not_not] at hform
    -- What is hashed is cut out from before the inputs to behind the outputs.
    rw [(hm₂.append hm₃).upTo] at hb
    simp only [countedBytes_map, TxIn.encode_bare, List.flatMap_map] at hb hm₂ hm₄
    obtain ⟨rfl, rfl⟩ := Prod.mk.inj hb
    have hwithin : (Tx.mk version xs ys lockTime).Within Witness.Countable :=
      Tx.within_iff_bare.2 ⟨hxs, hys, hcountable⟩
    refine ⟨⟨version, xs, ys, lockTime⟩, ⟨⟨hwithin, hform, rfl⟩, ?_⟩, ?_⟩
    · rw [List.length_map]
      rfl
    · exact ((hm.append (hm₂.append hm₃)).append hm₄).append hm₅
  · rintro ⟨tx, ⟨⟨hwithin, hform, rfl⟩, rfl⟩, hpasses⟩
    obtain ⟨hinputs, houtputs, hcountable⟩ := Tx.within_iff_bare.1 hwithin
    obtain ⟨m₄, hpasses, hm₅⟩ := Cursor.passes_append_iff.1 hpasses
    obtain ⟨m₃, hpasses, hm₄⟩ := Cursor.passes_append_iff.1 hpasses
    obtain ⟨m, hm, hbody⟩ := Cursor.passes_append_iff.1 hpasses
    obtain ⟨m₂, hm₂, hm₃⟩ := Cursor.passes_append_iff.1 hbody
    refine ⟨[1], m, ⟨rfl, hm⟩, rfl, m, m, rfl, (tx.inputs.map TxIn.bare).length, m₂,
      ⟨tx.inputs.map TxIn.bare, ⟨hinputs, rfl⟩, ?_⟩, tx.outputs.map TxOut.view, m₃,
      ⟨tx.outputs, ⟨houtputs, rfl⟩, hm₃⟩, m₃, m₃, rfl, _, m₄,
      ⟨tx.inputs.map TxIn.witness, by simp, hcountable, rfl, ?_⟩, ?_, word32Bytes tx.lockTime, c',
      ⟨Bytes.length_littleEndian .., hm₅⟩, ?_⟩
    · simpa only [countedBytes_map, TxIn.encode_bare] using hm₂
    · rwa [List.flatMap_map]
    · exact mt (witnesses_all_empty_iff tx.inputs).1 (not_not_intro hform)
    · rw [hbody.upTo, List.length_map]
      rfl

theorem plainForm_eq_ok_iff {version : UInt32} {inputs : List TxIn} {body c c' : Cursor}
    {b : Transaction} (hbody : body.Passes c (countedBytes TxIn.encode inputs)) :
    plainForm (word32Bytes version) body inputs.length c = .ok (b, c') ↔
      ∃ tx : Tx, ((tx.version = version ∧ tx.inputs = inputs ∧ tx.outputs.length < UInt64.size ∧
        ∀ o ∈ tx.outputs, o.script.length < UInt64.size) ∧ b = tx.view) ∧
        c.Passes c' (countedBytes TxOut.encode tx.outputs ++ word32Bytes tx.lockTime) := by
  simp only [plainForm, bind_eq_ok_iff, get_eq_ok_iff, outputs_spells.iff, take_eq_ok_iff,
    pure_eq_ok_iff]
  constructor
  · rintro ⟨_, m, ⟨ys, ⟨⟨hys, hscripts⟩, rfl⟩, hm⟩, _, _, hget, lockTime, m₁, ⟨hlockTime, hm₁⟩, h⟩
    obtain ⟨rfl, rfl⟩ := Prod.mk.inj hget
    obtain ⟨lockTime, rfl⟩ := exists_word32Bytes_eq hlockTime
    rw [(hbody.append hm).upTo] at h
    obtain ⟨rfl, rfl⟩ := Prod.mk.inj h
    exact ⟨⟨version, inputs, ys, lockTime⟩, ⟨⟨rfl, rfl, hys, hscripts⟩, rfl⟩, hm.append hm₁⟩
  · rintro ⟨tx, ⟨⟨rfl, rfl, houtputs, hscripts⟩, rfl⟩, hpasses⟩
    obtain ⟨m, hm, hm₁⟩ := Cursor.passes_append_iff.1 hpasses
    refine ⟨_, m, ⟨tx.outputs, ⟨⟨houtputs, hscripts⟩, rfl⟩, hm⟩, m, m, rfl, word32Bytes tx.lockTime,
      c', ⟨Bytes.length_littleEndian .., hm₁⟩, ?_⟩
    rw [(hbody.append hm).upTo]
    rfl

theorem transaction_spells :
    transaction.Spells (Tx.Within Witness.Countable) Tx.encode Tx.view := by
  intro c b c'
  simp only [transaction_eq, bind_eq_ok_iff, take_eq_ok_iff, get_eq_ok_iff, inputs_spells.iff]
  constructor
  · rintro ⟨version, m, ⟨hversion, hm⟩, _, _, hget, count, m', ⟨xs, ⟨hxs, rfl⟩, hm'⟩, h⟩
    obtain ⟨version, rfl⟩ := exists_word32Bytes_eq hversion
    obtain ⟨rfl, rfl⟩ := Prod.mk.inj hget
    split at h
    · next hempty =>
      obtain rfl := List.length_eq_zero_iff.1 hempty
      obtain ⟨tx, ⟨⟨hwithin, hform, rfl⟩, rfl⟩, hpasses⟩ := witnessForm_eq_ok_iff.1 h
      refine ⟨tx, ⟨hwithin, rfl⟩, ?_⟩
      rw [Tx.encode_eq_of_hasWitnessForm hform]
      exact hm.append (hm'.append hpasses)
    · next hne =>
      obtain ⟨tx, ⟨⟨rfl, rfl, houtputs⟩, rfl⟩, hpasses⟩ := (plainForm_eq_ok_iff hm').1 h
      have hbare : ∀ i ∈ tx.inputs, i.witness = [] := fun i hi ↦ (hxs.2 i hi).2
      have hform := Tx.hasWitnessForm_eq_false_of_bare (mt List.length_eq_zero_iff.2 hne) hbare
      have hwithin := (Tx.within_iff_of_bare Witness.countable_nil hbare).2 ⟨hxs, houtputs⟩
      refine ⟨tx, ⟨hwithin, rfl⟩, ?_⟩
      rw [Tx.encode_eq_of_not_hasWitnessForm hform]
      exact hm.append (hm'.append hpasses)
  · rintro ⟨tx, ⟨hwithin, rfl⟩, hpasses⟩
    cases hform : tx.hasWitnessForm with
    | true =>
      rw [Tx.encode_eq_of_hasWitnessForm hform] at hpasses
      obtain ⟨m, hm, hpasses⟩ := Cursor.passes_append_iff.1 hpasses
      obtain ⟨m', hm', hpasses⟩ := Cursor.passes_append_iff.1 hpasses
      refine ⟨word32Bytes tx.version, m, ⟨Bytes.length_littleEndian .., hm⟩, m, m, rfl, 0, m',
        ⟨[], ⟨⟨by decide, by simp⟩, rfl⟩, hm'⟩, ?_⟩
      exact witnessForm_eq_ok_iff.2 ⟨tx, ⟨⟨hwithin, hform, rfl⟩, rfl⟩, hpasses⟩
    | false =>
      obtain ⟨hne, hbare⟩ := Tx.bare_of_hasWitnessForm_eq_false hform
      rw [Tx.encode_eq_of_not_hasWitnessForm hform] at hpasses
      obtain ⟨m, hm, hpasses⟩ := Cursor.passes_append_iff.1 hpasses
      obtain ⟨m', hm', hpasses⟩ := Cursor.passes_append_iff.1 hpasses
      obtain ⟨hinputs, houtputs⟩ := (Tx.within_iff_of_bare Witness.countable_nil hbare).1 hwithin
      refine ⟨word32Bytes tx.version, m, ⟨Bytes.length_littleEndian .., hm⟩, m, m, rfl,
        tx.inputs.length, m', ⟨tx.inputs, ⟨hinputs, rfl⟩, hm'⟩, ?_⟩
      rw [if_neg (mt List.length_eq_zero_iff.1 hne)]
      exact (plainForm_eq_ok_iff hm').2 ⟨tx, ⟨⟨rfl, rfl, houtputs⟩, rfl⟩, hpasses⟩

theorem block_spells :
    block.Spells (Block.Within Witness.Countable) Block.encode fun b ↦ b.txs.map Tx.view := by
  intro c ys c'
  simp only [block, bind_eq_ok_iff, take_eq_ok_iff, compactSize_eq_ok_iff,
    repeatStep_eq_ok_iff transaction_spells]
  constructor
  · rintro ⟨front, m, ⟨hfront, hm⟩, _, m', ⟨hn, hm'⟩, xs, rfl, hxs, rfl, hm''⟩
    obtain ⟨header, rfl⟩ := exists_header_encode_eq hfront
    exact ⟨⟨header, xs⟩, ⟨⟨hn, hxs⟩, rfl⟩, hm.append (hm'.append hm'')⟩
  · rintro ⟨b, ⟨⟨hn, hxs⟩, rfl⟩, hpasses⟩
    obtain ⟨m, hm, hpasses⟩ := Cursor.passes_append_iff.1 hpasses
    obtain ⟨m', hm', hm''⟩ := Cursor.passes_append_iff.1 hpasses
    exact ⟨b.header.encode, m, ⟨b.header.length_encode, hm⟩, b.txs.length, m', ⟨hn, hm'⟩, b.txs,
      rfl, hxs, rfl, hm''⟩

/-- Exactly the encodings of blocks are walked over as a whole. -/
theorem ofBlockBytes_eq_ok_iff {bs : Bytes} {ys : List Transaction} :
    ofBlockBytes bs = .ok ys ↔
      ∃ b : Block, b.Within Witness.Countable ∧ bs = b.encode ∧ ys = b.txs.map Tx.view := by
  have hok : ofBlockBytes bs = .ok ys ↔ ∃ c', block (.start bs) = .ok (ys, c') ∧ c'.ahead = [] := by
    unfold ofBlockBytes
    cases block (.start bs) with
    | error e => simp
    | ok r =>
      obtain ⟨xs, c⟩ := r
      simp only [List.isEmpty_iff, Except.ok.injEq, Prod.mk.injEq]
      constructor
      · intro h
        split at h
        · next hc => exact ⟨c, ⟨Except.ok.inj h, rfl⟩, hc⟩
        · simp at h
      · rintro ⟨_, ⟨rfl, rfl⟩, hc⟩
        rw [if_pos hc]
  simp only [hok, block_spells.iff]
  constructor
  · rintro ⟨c', ⟨b, ⟨hwithin, rfl⟩, hahead, -⟩, hc'⟩
    rw [hc', List.append_nil] at hahead
    exact ⟨b, hwithin, hahead, rfl⟩
  · rintro ⟨b, hwithin, rfl, rfl⟩
    have hpasses : (Cursor.start b.encode).Passes ⟨[], b.encode.length⟩ b.encode := by
      simp [Cursor.Passes, Cursor.start]
    exact ⟨⟨[], b.encode.length⟩, ⟨b, ⟨hwithin, rfl⟩, hpasses⟩, rfl⟩

end Walk

end TxoIndex

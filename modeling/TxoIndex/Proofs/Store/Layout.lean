import TxoIndex.Proofs.Block.Truncation
import TxoIndex.Proofs.Block.Walking
import TxoIndex.Proofs.Store.Record

/-!
# The layout of records

A record is nothing but its four fields in a row, and each field may be any bytes. So the length of
a byte string alone decides whether it is a record, and it is told how many bytes are missing or too
many. Two fields have a value that stands for its own absence; outputs with these values are the
only ones that are not read back as they were written, while every record is written back as it was
read.
-/

namespace TxoIndex.Txo

open Decoder

/-- A record that ends too early is refused for this alone. -/
theorem runsOut_decoder (t : Txo) : RunsOut Txo.decoder t.encode := by
  simp only [encode, List.append_assoc]
  apply (Outpoint.runsOut_decoder t.outpoint).append (Outpoint.decoder_spells.takes trivial)
  apply (runsOut_word32 _).append (word32_spells.takes trivial)
  apply (runsOut_word64 t.value).append (word64_spells.takes trivial)
  exact (Outpoint.runsOut_decoder _).bind _

/-- Any eighty-four bytes are a record. -/
theorem exists_encode_eq {bs : Bytes} (h : bs.length = size) :
    ∃ t : Txo, t.IsStored ∧ t.encode = bs := by
  obtain ⟨outpoint, fields, houtpoint, hfields, rfl⟩ := exists_append_eq 36 48 h
  obtain ⟨height, rest, hheight, hrest, rfl⟩ := exists_append_eq 4 44 hfields
  obtain ⟨value, spentBy, hvalue, hspentBy, rfl⟩ := exists_append_eq 8 36 hrest
  obtain ⟨outpoint, rfl⟩ := exists_key_eq houtpoint
  obtain ⟨height, rfl⟩ := exists_word32Bytes_eq hheight
  obtain ⟨value, rfl⟩ := exists_word64Bytes_eq hvalue
  obtain ⟨spentBy, rfl⟩ := exists_key_eq hspentBy
  let t : Txo := ⟨outpoint, some height, value, some spentBy⟩
  refine ⟨t.stored, t.isStored_stored, ?_⟩
  rw [encode_stored]
  simp only [t, encode, Option.getD_some, List.append_assoc]

theorem decode_of_length_lt {bs : Bytes} (h : bs.length < size) :
    Txo.decode bs = .error (.malformed .endOfInput) := by
  -- The bytes are the front of some record: it does not matter how they go on.
  have hpadded : (bs ++ List.replicate (size - bs.length) 0).length = size := by
    rw [List.length_append, List.length_replicate]
    omega
  obtain ⟨t, -, ht⟩ := exists_encode_eq hpadded
  have hfront : bs <+: t.encode := ht ▸ List.prefix_append _ _
  have hne : bs ≠ t.encode := by
    rintro rfl
    exact absurd t.length_encode (Nat.ne_of_lt h)
  exact exactly_of_isPrefix t.runsOut_decoder hfront hne

theorem decode_of_lt_length {bs : Bytes} (h : size < bs.length) :
    Txo.decode bs = .error (.leftover (bs.length - size)) := by
  have hfront : (bs.take size).length = size := by
    rw [List.length_take]
    omega
  have hmore : bs.drop size ≠ [] := by
    rw [Ne, List.drop_eq_nil_iff]
    omega
  obtain ⟨t, hstored, ht⟩ := exists_encode_eq hfront
  calc
    Txo.decode bs = Txo.decode (t.encode ++ bs.drop size) := by rw [ht, List.take_append_drop]
    _ = .error (.leftover (bs.drop size).length) := exactly_append decoder_spells hstored hmore
    _ = .error (.leftover (bs.length - size)) := by rw [List.length_drop]

theorem decode_of_length_eq {bs : Bytes} (h : bs.length = size) :
    ∃ t, Txo.decode bs = .ok t ∧ t.encode = bs := by
  obtain ⟨t, hstored, rfl⟩ := exists_encode_eq h
  exact ⟨t, decode_eq_ok_iff.2 ⟨hstored, rfl⟩, rfl⟩

theorem stored_eq_iff {t : Txo} : t.stored = t ↔ t.IsStored :=
  ⟨fun h ↦ h ▸ t.isStored_stored, IsStored.stored_eq⟩

/-- The records of different outpoints are ordered by the keys of these, and never equal. -/
theorem compare_encode {t u : Txo} (h : t.outpoint ≠ u.outpoint) :
    compare t.encode u.encode = compare t.outpoint.key u.outpoint.key ∧
      compare t.encode u.encode ≠ .eq := by
  have horder := Outpoint.compare_key h.symm t.key_prefix_encode u.key_prefix_encode
  refine ⟨horder, fun heq ↦ h ?_⟩
  rw [horder] at heq
  exact Outpoint.key_inj.1 (Std.LawfulEqCmp.eq_of_compare heq)

/-- The byte strings of eighty-four bytes, and no others, are records: each is the record of what is
read from it, a shorter one ends too early, and of a longer one the rest is counted. What is read
from the record of an output is this output, without a height or a spender that stands for none. A
record starts with the key of its outpoint, which takes thirty-six bytes, so different outpoints
have their records in the order of their keys. -/
theorem record_exact :
    (∀ bs : Bytes, (∃ t, Txo.decode bs = .ok t) ↔ bs.length = 84) ∧
    (∀ bs : Bytes, bs.length < 84 → Txo.decode bs = .error (.malformed .endOfInput)) ∧
    (∀ bs : Bytes, 84 < bs.length → Txo.decode bs = .error (.leftover (bs.length - 84))) ∧
    (∀ (bs : Bytes) (t : Txo), Txo.decode bs = .ok t → t.encode = bs) ∧
    (∀ t : Txo, t.encode.length = 84 ∧ t.outpoint.key.length = 36 ∧
      t.encode.take 36 = t.outpoint.key ∧
      Txo.decode t.encode = .ok
        { t with
          height := if t.height = some 0xffffffff then none else t.height
          spentBy := if t.spentBy = some Outpoint.null then none else t.spentBy } ∧
      (Txo.decode t.encode = .ok t ↔
        t.height ≠ some 0xffffffff ∧ t.spentBy ≠ some Outpoint.null)) ∧
    ∀ t u : Txo, t.outpoint ≠ u.outpoint →
      compare t.encode u.encode = compare t.outpoint.key u.outpoint.key ∧
        compare t.encode u.encode ≠ .eq := by
  refine ⟨fun bs ↦ ⟨?_, fun h ↦ ?_⟩, fun bs ↦ decode_of_length_lt, fun bs ↦ decode_of_lt_length,
    fun bs t h ↦ (decode_eq_ok_iff.1 h).2.symm, fun t ↦ ?_, fun t u ↦ compare_encode⟩
  · rintro ⟨t, ht⟩
    rw [(decode_eq_ok_iff.1 ht).2]
    exact t.length_encode
  · obtain ⟨t, ht, -⟩ := decode_of_length_eq h
    exact ⟨t, ht⟩
  · refine ⟨t.length_encode, t.outpoint.length_key, t.take_encode, decode_encode t, ?_⟩
    rw [decode_encode, Except.ok.injEq]
    exact stored_eq_iff

/-- All bits of a record set: the height is unknown, and the spender is not the null outpoint. -/
example :
    Txo.decode (List.replicate 84 0xff) =
      .ok ⟨⟨⟨List.replicate 32 0xff, rfl⟩, 0xffffffff⟩, none, 0xffffffffffffffff,
        some ⟨⟨List.replicate 32 0xff, rfl⟩, 0xffffffff⟩⟩ := by
  decide +kernel

end TxoIndex.Txo

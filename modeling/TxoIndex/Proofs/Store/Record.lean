import TxoIndex.Proofs.Block.Spelling
import TxoIndex.Store.Tables

/-!
# Records

A record spells the output that can be read back from it. That is the output itself, except that a
height or a spender which stands for its own absence is absent. What is spelled is unique, and the
record is the only spelling.

The key of the outpoint comes first in a record, and all keys have the same length. So the byte
order of the records of different outpoints is the order of their keys, and the first record that
does not come before a key is the record of that outpoint.
-/

namespace TxoIndex

open Decoder

/-! ## Keys -/

theorem Hash.bytes_inj {g h : Hash} : g.bytes = h.bytes ↔ g = h :=
  Hash.ext_iff.symm

theorem Hash.ofBytes?_bytes (h : Hash) : Hash.ofBytes? h.bytes = some h :=
  Hash.ofBytes?_eq_some_iff.2 rfl

namespace Outpoint

/-- A byte string starts with one key at most. -/
theorem eq_of_key_isPrefix {o p : Outpoint} {record : Bytes} (ho : o.key <+: record)
    (hp : p.key <+: record) : o = p := by
  obtain ⟨x, rfl⟩ := ho
  obtain ⟨y, hy⟩ := hp
  exact (Outpoint.decoder_spells.append_inj trivial trivial hy.symm).1

theorem key_inj {o p : Outpoint} : o.key = p.key ↔ o = p := by
  constructor
  · intro h
    have hprefix : p.key <+: o.key := ⟨[], by rw [List.append_nil, h]⟩
    exact eq_of_key_isPrefix (List.prefix_refl o.key) hprefix
  · rintro rfl
    rfl

end Outpoint

/-! ## Absent values -/

section ReadBack

variable {α : Type} [DecidableEq α] {absent : α} {x : Option α}

/-- What is read back of a value where `absent` is written for no value. -/
def readBack (absent : α) (x : Option α) : Option α :=
  if x = some absent then none else x

theorem readBack_ne_some (absent : α) (x : Option α) : readBack absent x ≠ some absent := by
  unfold readBack
  split
  · simp
  · assumption

theorem readBack_of_ne (h : x ≠ some absent) : readBack absent x = x := by
  unfold readBack
  rw [if_neg h]

theorem getD_readBack (absent : α) (x : Option α) :
    (readBack absent x).getD absent = x.getD absent := by
  unfold readBack
  split
  · next h => rw [h, Option.getD_none, Option.getD_some]
  · rfl

theorem readBack_some_getD (h : x ≠ some absent) : readBack absent (some (x.getD absent)) = x := by
  cases x with
  | none => exact if_pos rfl
  | some y => exact readBack_of_ne h

theorem ite_eq_readBack (absent b : α) :
    (if b = absent then none else some b) = readBack absent (some b) := by
  unfold readBack
  simp only [Option.some.injEq]

end ReadBack

/-! ## What a record spells -/

namespace Txo

/-- Whether the height and the spender, if there are any, can be told from absent ones. -/
def IsStored (t : Txo) : Prop :=
  t.height ≠ some unknownHeight ∧ t.spentBy ≠ some Outpoint.null

def stored (t : Txo) : Txo :=
  { t with
    height := readBack unknownHeight t.height
    spentBy := readBack Outpoint.null t.spentBy }

@[simp]
theorem isStored_stored (t : Txo) : t.stored.IsStored :=
  ⟨readBack_ne_some unknownHeight t.height, readBack_ne_some Outpoint.null t.spentBy⟩

theorem IsStored.stored_eq {t : Txo} (h : t.IsStored) : t.stored = t := by
  unfold stored
  rw [readBack_of_ne h.1, readBack_of_ne h.2]

@[simp]
theorem encode_stored (t : Txo) : t.stored.encode = t.encode := by
  unfold encode stored
  rw [getD_readBack, getD_readBack]

theorem key_prefix_encode (t : Txo) : t.outpoint.key <+: t.encode := by
  simp only [encode, List.append_assoc]
  exact List.prefix_append _ _

theorem take_encode (t : Txo) : t.encode.take 36 = t.outpoint.key := by
  obtain ⟨rest, hrest⟩ := t.key_prefix_encode
  rw [← hrest, List.take_left' t.outpoint.length_key]

theorem decoder_spells : Txo.decoder.Spells IsStored Txo.encode := by
  intro bs t rest
  simp only [Txo.decoder, bind_eq_ok_iff, Outpoint.decoder_spells.iff, word32_spells.iff,
    word64_spells.iff, pure_eq_ok_iff, true_and, Prod.mk.injEq, ite_eq_readBack]
  constructor
  · rintro ⟨o, _, rfl, height, _, rfl, value, _, rfl, spentBy, _, rfl, rfl, rfl⟩
    refine ⟨⟨readBack_ne_some _ _, readBack_ne_some _ _⟩, ?_⟩
    unfold encode
    rw [getD_readBack, getD_readBack, Option.getD_some, Option.getD_some]
    simp only [List.append_assoc]
  · rintro ⟨ht, rfl⟩
    refine ⟨t.outpoint, _, ?_, t.height.getD unknownHeight, _, rfl, t.value, _, rfl,
      t.spentBy.getD Outpoint.null, rest, rfl, ?_, rfl⟩
    · unfold encode
      simp only [List.append_assoc]
    · rw [readBack_some_getD ht.1, readBack_some_getD ht.2]

/-- Every stored output has one record, and every record is that of one stored output. -/
theorem decode_eq_ok_iff {bs : Bytes} {t : Txo} :
    Txo.decode bs = .ok t ↔ t.IsStored ∧ bs = t.encode :=
  exactly_eq_ok_iff_of_spells decoder_spells

theorem decode_encode (t : Txo) : Txo.decode t.encode = .ok t.stored :=
  decode_eq_ok_iff.2 ⟨t.isStored_stored, t.encode_stored.symm⟩

theorem IsStored.encode_inj {t u : Txo} (ht : t.IsStored) (hu : u.IsStored) :
    t.encode = u.encode ↔ t = u := by
  constructor
  · intro h
    have hdecode := decode_encode t
    rw [h, decode_encode, ht.stored_eq, hu.stored_eq, Except.ok.injEq] at hdecode
    exact hdecode.symm
  · rintro rfl
    rfl

end Txo

/-! ## Order of records -/

theorem Bytes.compare_self (a : Bytes) : compare a a = .eq :=
  Std.ReflCmp.compare_self

/-- Byte strings with different fronts of one length are ordered by their fronts. -/
theorem Bytes.compare_append {a b : Bytes} (hlength : a.length = b.length) (x y : Bytes) :
    compare (a ++ x) (b ++ y) = (compare a b).then (compare x y) := by
  induction a generalizing b with
  | nil =>
    obtain rfl : b = [] := List.length_eq_zero_iff.1 hlength.symm
    rfl
  | cons u a ih =>
    cases b with
    | nil => exact absurd hlength (by simp)
    | cons v b =>
      have ih := ih (b := b) (by simpa using hlength)
      simp only [List.cons_append, List.compare_cons_cons, ih, Ordering.then_assoc]

/-- The key comes before whatever starts with it. -/
theorem Outpoint.isLE_compare_key {o : Outpoint} {record : Bytes} (h : o.key <+: record) :
    (compare o.key record).isLE := by
  obtain ⟨rest, rfl⟩ := h
  have horder : compare o.key (o.key ++ rest) = compare [] rest :=
    calc
      compare o.key (o.key ++ rest) = compare (o.key ++ []) (o.key ++ rest) := by
        rw [List.append_nil]
      _ = (compare o.key o.key).then (compare [] rest) := Bytes.compare_append rfl [] rest
      _ = compare [] rest := by rw [Bytes.compare_self, Ordering.eq_then]
  rw [horder]
  exact List.isLE_compare_nil_left

/-- A byte string that starts with another key is ordered by that key. -/
theorem Outpoint.compare_key {o p : Outpoint} (hne : p ≠ o) {x y : Bytes} (hx : o.key <+: x)
    (hy : p.key <+: y) : compare x y = compare o.key p.key := by
  obtain ⟨x, rfl⟩ := hx
  obtain ⟨y, rfl⟩ := hy
  rw [Bytes.compare_append (by simp)]
  cases hkey : compare o.key p.key with
  | lt => rfl
  | eq =>
    have hop : o = p := Outpoint.key_inj.1 (Std.LawfulEqCmp.eq_of_compare hkey)
    exact absurd hop.symm hne
  | gt => rfl

/-- The record of an outpoint is found from its key on, if no other record in the bucket is that of
the same outpoint. -/
theorem Bucket.firstAtLeast?_key {b : Bucket} {o : Outpoint} {record : Bytes}
    (hmem : record ∈ b.records) (hkey : o.key <+: record)
    (hkeyed : ∀ r ∈ b.records, ∃ p : Outpoint, p.key <+: r ∧ (p = o → r = record)) :
    b.firstAtLeast? o.key = some record := by
  obtain ⟨front, back, hrecords⟩ := List.append_of_mem hmem
  have hascending := b.ascending_records
  rw [hrecords, List.pairwise_append] at hascending
  rw [firstAtLeast?_eq_find?, List.find?_eq_some_iff_append]
  refine ⟨Outpoint.isLE_compare_key hkey, front, back, hrecords, fun r hr ↦ ?_⟩
  -- A record before that of the outpoint has a smaller key.
  have hlt : compare r record = .lt := hascending.2.2 r hr record List.mem_cons_self
  obtain ⟨p, hp, hunique⟩ := hkeyed r (by
    rw [hrecords]
    exact List.mem_append_left _ hr)
  have hne : p ≠ o := by
    intro hpo
    rw [hunique hpo, Bytes.compare_self] at hlt
    exact Ordering.noConfusion hlt
  have hback : compare o.key r = .gt :=
    calc
      compare o.key r = compare o.key p.key := Outpoint.compare_key hne (List.prefix_refl _) hp
      _ = compare record r := (Outpoint.compare_key hne hkey hp).symm
      _ = .gt := Std.OrientedCmp.gt_of_lt hlt
  rw [hback]
  rfl

end TxoIndex

import TxoIndex.Proofs.Store.Index

/-!
# Tables and what they say

Tables represent an index if the outpoint, headers and stage tables spell its functions, and the
script table holds the record of every row under its script hash, and nothing else. Tables that
represent the same index are equal. Every operation on tables that represent an index succeeds, with
the result that the index gives, and leaves tables that represent the index after the operation. So
whatever a unit does can be read off the index.
-/

namespace TxoIndex

/-! ## Tables with one value for each key -/

section Entries

variable {β : Type} (table : Std.ExtTreeMap Bytes β)

theorem getElem?_insert_eq_ite (k : Bytes) (v : β) (x : Bytes) :
    (table.insert k v)[x]? = if x = k then some v else table[x]? := by
  simp only [Std.ExtTreeMap.getElem?_insert, Std.LawfulEqCmp.compare_eq_iff_eq, @eq_comm _ k x]

theorem getElem?_erase_eq_ite (k x : Bytes) :
    (table.erase k)[x]? = if x = k then none else table[x]? := by
  simp only [Std.ExtTreeMap.getElem?_erase, Std.LawfulEqCmp.compare_eq_iff_eq, @eq_comm _ k x]

end Entries

/-- The table has the entries of a partial function and no other, keys and values spelled. -/
structure Table.Spells {α β : Type} (table : Table) (key : α → Bytes) (value : β → Bytes)
    (f : α → Option β) : Prop where
  get (a : α) : table[key a]? = (f a).map value
  exists_key {k v : Bytes} (h : table[k]? = some v) : ∃ a, k = key a

namespace Table.Spells

variable {α β : Type} {table table' : Table} {key : α → Bytes} {value : β → Bytes}
  {f g : α → Option β}

theorem empty : Table.Spells (∅ : Table) key value fun _ ↦ none where
  get a := by simp
  exists_key h := by simp at h

theorem congr (h : Table.Spells table key value f) (hfg : ∀ a, (f a).map value = (g a).map value) :
    Table.Spells table key value g where
  get a := by rw [h.get, hfg]
  exists_key := h.exists_key

theorem insert [DecidableEq α] (h : Table.Spells table key value f)
    (hkey : ∀ {a b}, key a = key b ↔ a = b) (a : α) (b : β) :
    Table.Spells (table.insert (key a) (value b)) key value
      fun x ↦ if x = a then some b else f x where
  get x := by
    rw [getElem?_insert_eq_ite]
    by_cases hx : x = a
    · rw [if_pos (hkey.2 hx), if_pos hx, Option.map_some]
    · rw [if_neg fun heq ↦ hx (hkey.1 heq), if_neg hx, h.get]
  exists_key {k v} hk := by
    rw [getElem?_insert_eq_ite] at hk
    split at hk
    · next heq => exact ⟨a, heq⟩
    · exact h.exists_key hk

theorem mem_iff (h : Table.Spells table key value f) {k : Bytes} :
    k ∈ table ↔ ∃ a, k = key a ∧ (f a).isSome := by
  rw [Std.ExtTreeMap.mem_iff_isSome_getElem?]
  constructor
  · intro hk
    obtain ⟨v, hv⟩ := Option.isSome_iff_exists.1 hk
    obtain ⟨a, rfl⟩ := h.exists_key hv
    refine ⟨a, rfl, ?_⟩
    rwa [h.get, Option.isSome_map] at hk
  · rintro ⟨a, rfl, ha⟩
    rwa [h.get, Option.isSome_map]

theorem unique (h : Table.Spells table key value f) (h' : Table.Spells table' key value f) :
    table = table' := by
  apply Std.ExtTreeMap.ext_getElem?
  intro k
  by_cases hk : ∃ a, k = key a
  · obtain ⟨a, rfl⟩ := hk
    rw [h.get, h'.get]
  · have hnone {t : Table} (ht : Table.Spells t key value f) : t[k]? = none := by
      cases hv : t[k]? with
      | none => rfl
      | some v => exact absurd (ht.exists_key hv) hk
    rw [hnone h, hnone h']

end Table.Spells

/-! ## The script table -/

theorem Bucket.nodup_records (b : Bucket) : b.records.Nodup :=
  b.ascending_records.imp fun h heq ↦ by
    rw [heq, Bytes.compare_self] at h
    exact Ordering.noConfusion h

theorem Bucket.mem_records_erase (b : Bucket) (record r : Bytes) :
    r ∈ ((b.erase record).map Bucket.records).getD [] ↔ r ≠ record ∧ r ∈ b.records := by
  rw [b.records_erase]
  exact b.nodup_records.mem_erase_iff

namespace Tables

def Holds (t : Tables) (key record : Bytes) : Prop :=
  ∃ bucket, t.scripts[key]? = some bucket ∧ record ∈ bucket.records

theorem not_holds_of_getElem?_eq_none {t : Tables} {key : Bytes} (h : t.scripts[key]? = none)
    (record : Bytes) : ¬ t.Holds key record := by
  rintro ⟨bucket, hbucket, -⟩
  rw [h] at hbucket
  cases hbucket

theorem holds_iff_of_getElem? {t : Tables} {key : Bytes} {bucket : Bucket}
    (h : t.scripts[key]? = some bucket) {record : Bytes} :
    t.Holds key record ↔ record ∈ bucket.records := by
  constructor
  · rintro ⟨bucket', hbucket', hmem⟩
    rw [h, Option.some.injEq] at hbucket'
    rwa [hbucket']
  · exact fun hmem ↦ ⟨bucket, h, hmem⟩

/-- No bucket is empty. -/
theorem exists_holds_of_getElem? {t : Tables} {key : Bytes} {bucket : Bucket}
    (h : t.scripts[key]? = some bucket) : ∃ record, t.Holds key record := by
  obtain ⟨record, hrecord⟩ := List.exists_mem_of_ne_nil _ bucket.records_ne_nil
  exact ⟨record, bucket, h, hrecord⟩

/-- Buckets that hold the same records are equal. -/
theorem getElem?_scripts_eq_of_holds_iff {t t' : Tables} {key : Bytes}
    (h : ∀ record, t.Holds key record ↔ t'.Holds key record) :
    t.scripts[key]? = t'.scripts[key]? := by
  have hsome {u u' : Tables} {bucket : Bucket} (hu : ∀ record, u.Holds key record →
      u'.Holds key record) (hb : u.scripts[key]? = some bucket) : u'.scripts[key]? ≠ none := by
    intro hnone
    obtain ⟨record, hrecord⟩ := exists_holds_of_getElem? hb
    exact not_holds_of_getElem?_eq_none hnone record (hu _ hrecord)
  cases ht : t.scripts[key]? with
  | none =>
    cases ht' : t'.scripts[key]? with
    | none => rfl
    | some b' => exact absurd ht (hsome (fun r ↦ (h r).2) ht')
  | some b =>
    cases ht' : t'.scripts[key]? with
    | none => exact absurd ht' (hsome (fun r ↦ (h r).1) ht)
    | some b' =>
      have hrecords : b.records = b'.records :=
        Bucket.eq_of_ascending b.ascending_records b'.ascending_records fun record ↦ by
          rw [← holds_iff_of_getElem? ht, ← holds_iff_of_getElem? ht', h]
      rw [Bucket.records_inj.1 hrecords]

/-- Script tables that hold the same records are equal. -/
theorem scripts_eq_of_holds_iff {t t' : Tables}
    (h : ∀ key record, t.Holds key record ↔ t'.Holds key record) : t.scripts = t'.scripts := by
  apply Std.ExtTreeMap.ext_getElem?
  intro key
  exact getElem?_scripts_eq_of_holds_iff (h key)

theorem holds_insert (t : Tables) (key : Bytes) (bucket : Bucket) (k r : Bytes) :
    Holds { t with scripts := t.scripts.insert key bucket } k r ↔
      if k = key then r ∈ bucket.records else t.Holds k r := by
  simp only [Holds, getElem?_insert_eq_ite]
  split
  · simp only [Option.some.injEq, exists_eq_left']
  · exact Iff.rfl

theorem holds_erase (t : Tables) (key k r : Bytes) :
    Holds { t with scripts := t.scripts.erase key } k r ↔ k ≠ key ∧ t.Holds k r := by
  simp only [Holds, getElem?_erase_eq_ite]
  split
  · next h => simp [h]
  · next h => simp [h]

/-- A record that is not there is put, and all others stay. -/
theorem putRecord?_spec {t : Tables} {scriptHash : ScriptHash} {record : Bytes}
    (h : ¬ t.Holds scriptHash.bytes record) :
    ∃ scripts, t.putRecord? scriptHash record = some { t with scripts } ∧
      ∀ k r, Holds { t with scripts } k r ↔ (k = scriptHash.bytes ∧ r = record) ∨ t.Holds k r := by
  cases hbucket : t.scripts[scriptHash.bytes]? with
  | none =>
    refine ⟨t.scripts.insert scriptHash.bytes (.singleton record), ?_, fun k r ↦ ?_⟩
    · rw [putRecord?, hbucket]
    rw [holds_insert, Bucket.records_singleton, List.mem_singleton]
    split
    · next hk =>
      have hnot := not_holds_of_getElem?_eq_none hbucket r
      simp only [hk, hnot, true_and, or_false]
    · next hk => simp only [hk, false_and, false_or]
  | some bucket =>
    have hnot : record ∉ bucket.records := mt (holds_iff_of_getElem? hbucket).2 h
    refine ⟨t.scripts.insert scriptHash.bytes (bucket.insert record), ?_, fun k r ↦ ?_⟩
    · rw [putRecord?, hbucket]
      simp [hnot]
    rw [holds_insert, Bucket.records_insert, Bucket.mem_insertRecord]
    split
    · next hk => simp only [hk, true_and, holds_iff_of_getElem? hbucket]
    · next hk => simp only [hk, false_and, false_or]

/-- An erased record is gone, and all others are still there. -/
theorem eraseRecord_spec (t : Tables) (scriptHash : ScriptHash) (record : Bytes) :
    ∃ scripts, t.eraseRecord scriptHash record = { t with scripts } ∧
      ∀ k r, Holds { t with scripts } k r ↔
        t.Holds k r ∧ ¬ (k = scriptHash.bytes ∧ r = record) := by
  cases hbucket : t.scripts[scriptHash.bytes]? with
  | none =>
    refine ⟨t.scripts, by rw [eraseRecord, hbucket], fun k r ↦ ?_⟩
    constructor
    · intro hholds
      refine ⟨hholds, ?_⟩
      rintro ⟨rfl, rfl⟩
      exact not_holds_of_getElem?_eq_none hbucket r hholds
    · exact And.left
  | some bucket =>
    have hmem := bucket.mem_records_erase record
    cases hrest : bucket.erase record with
    | none =>
      have hgone : ∀ r ∈ bucket.records, r = record := by
        intro r hr
        by_contra hne
        have hleft := (hmem r).2 ⟨hne, hr⟩
        rw [hrest, Option.map_none, Option.getD_none] at hleft
        exact List.not_mem_nil hleft
      refine ⟨t.scripts.erase scriptHash.bytes, ?_, fun k r ↦ ?_⟩
      · rw [eraseRecord, hbucket]
        simp only [hrest]
      rw [holds_erase]
      by_cases hk : k = scriptHash.bytes
      · subst hk
        constructor
        · rintro ⟨hne, -⟩
          exact absurd rfl hne
        · rintro ⟨hholds, hother⟩
          have hr := hgone r ((holds_iff_of_getElem? hbucket).1 hholds)
          exact absurd ⟨rfl, hr⟩ hother
      · simp only [hk, false_and, not_false_iff, and_true, true_and, ne_eq]
    | some rest =>
      rw [hrest, Option.map_some, Option.getD_some] at hmem
      refine ⟨t.scripts.insert scriptHash.bytes rest, ?_, fun k r ↦ ?_⟩
      · rw [eraseRecord, hbucket]
        simp only [hrest]
      rw [holds_insert, hmem]
      split
      · next hk => simp only [hk, true_and, holds_iff_of_getElem? hbucket, and_comm, ne_eq]
      · next hk => simp only [hk, false_and, not_false_iff, and_true]

/-! ## The tables of an index -/

/-- The tables say what the index says, and nothing else. -/
structure Represents (t : Tables) (m : Index) : Prop where
  outpoints : Table.Spells t.outpoints Outpoint.key (fun row ↦ row.scriptHash.bytes) m.rows
  holds_iff (key record : Bytes) : t.Holds key record ↔ m.Recorded key record
  headers : Table.Spells t.headers Hash.bytes Header.encode m.headers
  marks : Table.Spells t.marks (fun _ : Unit ↦ stageKey) (fun stage ↦ [UInt8.ofNat stage.rank])
    fun _ ↦ m.stage

namespace Represents

variable {t t' : Tables} {m : Index}

theorem empty : Tables.empty.Represents Index.empty where
  outpoints := Table.Spells.empty
  holds_iff key record := by
    have hnone : Tables.empty.scripts[key]? = none := Std.ExtTreeMap.getElem?_empty
    simp [not_holds_of_getElem?_eq_none hnone, Index.Recorded, Index.empty]
  headers := Table.Spells.empty
  marks := Table.Spells.empty

/-- An index is represented in one way only. -/
theorem unique (h : t.Represents m) (h' : t'.Represents m) : t = t' := by
  refine Tables.ext ?_ (h.outpoints.unique h'.outpoints) (h.headers.unique h'.headers)
    (h.marks.unique h'.marks)
  exact scripts_eq_of_holds_iff fun key record ↦ by rw [h.holds_iff, h'.holds_iff]

/-! ### Rows and records -/

theorem holds (h : t.Represents m) {o : Outpoint} {row : FundingRow} (hrow : m.rows o = some row) :
    t.Holds row.scriptHash.bytes row.txo.encode :=
  (h.holds_iff _ _).2 ⟨o, row, hrow, rfl, rfl⟩

/-- A record that starts with the key of an outpoint is the record of its row. -/
theorem exists_row_of_holds (h : t.Represents m) {key record : Bytes} {o : Outpoint}
    (hkey : o.key <+: record) (hholds : t.Holds key record) :
    ∃ row, m.rows o = some row ∧ key = row.scriptHash.bytes ∧ record = row.txo.encode := by
  obtain ⟨p, row, hrow, hscript, hrecord⟩ := (h.holds_iff _ _).1 hholds
  have hp : row.txo.outpoint.key <+: record := hrecord ▸ row.txo.key_prefix_encode
  have hop : o = row.txo.outpoint := Outpoint.eq_of_key_isPrefix hkey hp
  rw [(m.valid hrow).1] at hop
  subst hop
  exact ⟨row, hrow, hscript, hrecord⟩

theorem contains_outpoint (h : t.Represents m) (o : Outpoint) :
    t.outpoints.contains o.key = (m.rows o).isSome := by
  rw [Std.ExtTreeMap.contains_eq_isSome_getElem?, h.outpoints.get, Option.isSome_map]

theorem scriptHashOf?_eq (h : t.Represents m) (o : Outpoint) :
    t.scriptHashOf? o = .ok ((m.rows o).map FundingRow.scriptHash) := by
  rw [scriptHashOf?, h.outpoints.get]
  cases m.rows o with
  | none => rfl
  | some row =>
    simp only [Option.map_some, decodeScriptHash, Hash.ofBytes?_bytes]
    rfl

/-- The record of a row is found by its outpoint. -/
theorem record?_eq (h : t.Represents m) {o : Outpoint} {row : FundingRow}
    (hrow : m.rows o = some row) : t.record? row.scriptHash o = some row.txo.encode := by
  obtain ⟨bucket, hbucket, hmem⟩ := h.holds hrow
  have hkey : o.key <+: row.txo.encode := Index.key_prefix_of_rows hrow
  have hfirst : bucket.firstAtLeast? o.key = some row.txo.encode := by
    -- A record that starts with another key cannot lie between the key and the record of the row.
    apply Bucket.firstAtLeast?_key hmem hkey
    intro record hrecord
    have hholds := (holds_iff_of_getElem? hbucket).2 hrecord
    obtain ⟨p, row', hrow', -, rfl⟩ := (h.holds_iff _ _).1 hholds
    refine ⟨p, Index.key_prefix_of_rows hrow', ?_⟩
    rintro rfl
    rw [hrow, Option.some.injEq] at hrow'
    rw [hrow']
  rw [record?, hbucket]
  change (bucket.firstAtLeast? o.key).bind _ = _
  rw [hfirst, Option.bind_some, if_pos (List.isPrefixOf_iff_prefix.2 hkey)]

theorem decodeTxo_encode {scriptHash : ScriptHash} {txo : Txo} (h : txo.IsStored) :
    decodeTxo scriptHash txo.encode = .ok txo := by
  rw [decodeTxo, Txo.decode_encode, h.stored_eq]

/-! ### Operations -/

theorem putHeader (h : t.Represents m) (hash : BlockHash) (header : Header) :
    (t.putHeader hash header).Represents (m.putHeader hash header) where
  outpoints := h.outpoints
  holds_iff := h.holds_iff
  headers := h.headers.insert Hash.bytes_inj hash header
  marks := h.marks

theorem setStage (h : t.Represents m) (stage : Stage) :
    (t.setStage stage).Represents (m.setStage stage) where
  outpoints := h.outpoints
  holds_iff := h.holds_iff
  headers := h.headers
  marks := by
    have hmarks := h.marks.insert (by simp) () stage
    simp only [if_true] at hmarks
    exact hmarks

/-- A new outpoint has no record anywhere. -/
theorem not_holds_of_eq_none (h : t.Represents m) {txo : Txo} (hnone : m.rows txo.outpoint = none)
    (key : Bytes) : ¬ t.Holds key txo.encode := by
  intro hholds
  obtain ⟨row, hrow, -⟩ := h.exists_row_of_holds txo.key_prefix_encode hholds
  rw [hnone] at hrow
  cases hrow

/-- A new outpoint is put into the outpoint table. -/
theorem outpoints_addTxo (h : t.Represents m) {txo : Txo} (hnone : m.rows txo.outpoint = none)
    {scriptHash : ScriptHash} :
    Table.Spells (t.outpoints.insert txo.outpoint.key scriptHash.bytes) Outpoint.key
      (fun row ↦ row.scriptHash.bytes) (m.addTxo scriptHash txo).rows := by
  apply (h.outpoints.insert Outpoint.key_inj txo.outpoint ⟨scriptHash, txo⟩).congr
  intro o
  simp only [Index.addTxo]
  split
  · next ho => rw [ho, hnone, Option.none_or, Option.map_some, Option.map_some]
  · rfl

theorem addTxo (h : t.Represents m) (scriptHash : ScriptHash) (txo : Txo) :
    (t.addTxo scriptHash txo).1 = m.added txo ∧
      (t.addTxo scriptHash txo).2.Represents (m.addTxo scriptHash txo) := by
  rw [Tables.addTxo, h.contains_outpoint, Index.added]
  cases hrow : m.rows txo.outpoint with
  | some row =>
    have hsome : (m.rows txo.outpoint).isSome := by rw [hrow, Option.isSome_some]
    rw [Index.addTxo_of_isSome hsome]
    exact ⟨rfl, h⟩
  | none =>
    have hfresh := h.not_holds_of_eq_none hrow scriptHash.bytes
    obtain ⟨scripts, hput, hholds⟩ := putRecord?_spec
      (t := { t with outpoints := t.outpoints.insert txo.outpoint.key scriptHash.bytes }) hfresh
    simp only [Option.isSome_none, Bool.false_eq_true, if_false, hput]
    refine ⟨trivial, h.outpoints_addTxo hrow, fun key record ↦ (hholds key record).trans ?_,
      h.headers, h.marks⟩
    change _ ∨ t.Holds key record ↔ _
    rw [h.holds_iff, Index.recorded_addTxo hrow]

/-- The record of an unspent row is replaced by that of the spent one. -/
theorem spend_unspent (h : t.Represents m) {prevout : Outpoint} {row : FundingRow}
    (hrow : m.rows prevout = some row) (hspent : row.txo.spentBy = none) (spender : Outpoint) :
    ∃ t', (t.eraseRecord row.scriptHash row.txo.encode).putRecord? row.scriptHash
        { row.txo with spentBy := some spender }.encode = some t' ∧
      t'.Represents (m.spend prevout spender) := by
  have hencode : (row.spendBy spender).txo.encode =
      { row.txo with spentBy := some spender }.encode := by
    rw [FundingRow.spendBy_of_not_isSpent hspent, Txo.encode_stored]
  obtain ⟨erased, herased, hholds⟩ := t.eraseRecord_spec row.scriptHash row.txo.encode
  have hfresh : ¬ Holds { t with scripts := erased } row.scriptHash.bytes
      { row.txo with spentBy := some spender }.encode := by
    rw [hholds, not_and_not_right]
    intro hthere
    have hkey : prevout.key <+: { row.txo with spentBy := some spender }.encode := by
      rw [← (m.valid hrow).1]
      exact Txo.key_prefix_encode { row.txo with spentBy := some spender }
    obtain ⟨row', hrow', -, hrecord⟩ := h.exists_row_of_holds hkey hthere
    rw [hrow, Option.some.injEq] at hrow'
    rw [hrecord, hrow']
    exact ⟨rfl, rfl⟩
  obtain ⟨scripts, hput, hholds'⟩ := putRecord?_spec hfresh
  rw [herased]
  refine ⟨_, hput, ?_, fun key record ↦ (hholds' key record).trans ?_, h.headers, h.marks⟩
  · apply h.outpoints.congr
    intro o
    exact (m.map_scriptHash_bytes_spend prevout spender o).symm
  · rw [hholds, h.holds_iff, ← hencode, Index.recorded_spend hrow]

theorem spend (h : t.Represents m) (prevout spender : Outpoint) :
    ∃ t', t.spend prevout spender = .ok (m.spent prevout spender, t') ∧
      t'.Represents (m.spend prevout spender) := by
  rw [Tables.spend, h.scriptHashOf?_eq, Index.spent]
  cases hrow : m.rows prevout with
  | none =>
    rw [Index.spend_of_eq_none hrow]
    exact ⟨t, rfl, h⟩
  | some row =>
    simp only [Option.map_some, h.record?_eq hrow, decodeTxo_encode (m.valid hrow).2]
    cases hspent : row.txo.spentBy with
    | some existing =>
      rw [Index.spend_of_isSpent hrow (by rw [Txo.isSpent, hspent, Option.isSome_some])]
      refine ⟨t, ?_, h⟩
      by_cases hsame : existing = spender
      · simp only [if_pos hsame]
      · simp only [if_neg hsame]
    | none =>
      obtain ⟨t', hput, hrepresents⟩ := h.spend_unspent hrow hspent spender
      refine ⟨t', ?_, hrepresents⟩
      simp only [hput]

/-- Spending an output leaves the outpoint table alone. -/
theorem outpoints_spend (h : t.Represents m) {prevout spender : Outpoint}
    (h' : t'.Represents (m.spend prevout spender)) : t'.outpoints = t.outpoints :=
  (h'.outpoints.congr (m.map_scriptHash_bytes_spend prevout spender)).unique h.outpoints

/-- Every operation succeeds, and does to the tables what it does to the index. -/
theorem exec (h : t.Represents m) (op : Op) :
    ∃ t', op.exec t = .ok ((m.exec op).1, t') ∧ t'.Represents (m.exec op).2 := by
  cases op with
  | putHeader hash header => exact ⟨_, rfl, h.putHeader hash header⟩
  | addTxo scriptHash txo =>
    obtain ⟨hadded, hrepresents⟩ := h.addTxo scriptHash txo
    refine ⟨(t.addTxo scriptHash txo).2, ?_, hrepresents⟩
    rw [Op.exec, Index.exec, ← hadded]
    rfl
  | spend prevout spender => exact h.spend prevout spender
  | setStage stage => exact ⟨_, rfl, h.setStage stage⟩

theorem of_exec (h : t.Represents m) {op : Op} {r : op.Result} (hexec : op.exec t = .ok (r, t')) :
    r = (m.exec op).1 ∧ t'.Represents (m.exec op).2 := by
  obtain ⟨after, hexec', hafter⟩ := h.exec op
  rw [hexec, Except.ok.injEq, Prod.mk.injEq] at hexec'
  obtain ⟨rfl, rfl⟩ := hexec'
  exact ⟨rfl, hafter⟩

end Represents

end Tables

end TxoIndex

import Mathlib.Data.List.Nodup
import TxoIndex.Proofs.Store.Transactions

/-!
# Consistency of the tables

The outpoint table and the script table are written one after the other, and marking an output as
spent takes its record out of the script table and puts another one in. Whatever a store went
through since it was empty, the two tables agree: the outpoint table maps an outpoint to a script
hash if and only if there is a record for it under that script hash, and there is no other record
for it. Every entry can be read, so nothing that is read or written finds the tables corrupt.
-/

namespace TxoIndex

/-- The two tables of outputs agree, and everything in the tables can be read. -/
structure Tables.Consistent (t : Tables) : Prop where
  /-- The outpoint table names the script hash under which there is a record. -/
  scriptHashOf?_iff (o : Outpoint) (s : ScriptHash) : t.scriptHashOf? o = .ok (some s) ↔
    ∃ record, o.key <+: record ∧ t.Holds s.bytes record
  /-- There is one record at most for an outpoint. -/
  record_unique {o : Outpoint} {key record key' record' : Bytes} :
    t.Holds key record → o.key <+: record → t.Holds key' record' → o.key <+: record' →
      key = key' ∧ record = record'
  /-- Every record is that of an outpoint under a script hash, and can be read. -/
  record_decodes {key record : Bytes} : t.Holds key record →
    ∃ (s : ScriptHash) (txo : Txo), key = s.bytes ∧ Txo.decode record = .ok txo ∧
      txo.encode = record
  /-- Every entry of the outpoint table can be read. -/
  outpoint_decodes {key value : Bytes} : t.outpoints[key]? = some value →
    ∃ (o : Outpoint) (s : ScriptHash), key = o.key ∧ t.scriptHashOf? o = .ok (some s)
  /-- The outputs of a script hash are its records, in order and each outpoint once. -/
  txos?_eq (s : ScriptHash) :
    (t.txos? s = .ok none ∧ ∀ record, ¬ t.Holds s.bytes record) ∨
      ∃ txos, t.txos? s = .ok (some txos) ∧ txos ≠ [] ∧
        (∀ record, t.Holds s.bytes record ↔ record ∈ txos.map Txo.encode) ∧
        (txos.Pairwise fun x y ↦ compare x.encode y.encode = .lt) ∧
        (txos.map Txo.outpoint).Nodup
  txoCount_eq : t.txoCount = t.outpoints.size
  /-- The script table has a bucket for every script hash that has outputs, and no other. -/
  exists_scriptHashes : ∃ hashes : List ScriptHash, hashes.Nodup ∧
    hashes.length = t.scripts.size ∧
    ∀ s, s ∈ hashes ↔ ∃ txos, t.txos? s = .ok (some txos)
  scriptHashOf?_isOk (o : Outpoint) : ∃ s, t.scriptHashOf? o = .ok s
  header?_isOk (hash : BlockHash) : ∃ header, t.header? hash = .ok header
  listHeaders_error {e : StoreError} : t.listHeaders = .error e → e = .noHeaders
  stage_isOk : ∃ stage, t.stage = .ok stage
  spend_isOk (prevout spender : Outpoint) : ∃ r, t.spend prevout spender = .ok r
  /-- There is no record yet for an output that is not in the outpoint table. -/
  putRecord?_isSome {txo : Txo} (s : ScriptHash) :
    t.outpoints.contains txo.outpoint.key = false →
      ({ t with outpoints := t.outpoints.insert txo.outpoint.key s.bytes }.putRecord? s
        txo.encode).isSome

/-! ## Reading lists -/

section Lists

variable {α β ε : Type} {f : α → Except ε β}

theorem mapM_eq_ok_iff {xs : List α} {ys : List β} :
    xs.mapM f = .ok ys ↔ List.Forall₂ (fun x y ↦ f x = .ok y) xs ys := by
  induction xs generalizing ys with
  | nil =>
    rw [List.mapM_nil, List.forall₂_nil_left_iff]
    exact ⟨fun h ↦ (Except.ok.inj h).symm, fun h ↦ congrArg Except.ok h.symm⟩
  | cons x xs ih =>
    rw [List.mapM_cons, List.forall₂_cons_left_iff]
    cases hx : f x with
    | error e =>
      constructor
      · intro h
        cases h
      · rintro ⟨y, ys, hy, -⟩
        cases hy
    | ok y =>
      cases hxs : xs.mapM f with
      | error e =>
        constructor
        · intro h
          cases h
        · rintro ⟨y, ys, -, hys, -⟩
          rw [← ih, hxs] at hys
          cases hys
      | ok ys =>
        constructor
        · intro h
          cases h
          exact ⟨y, ys, rfl, ih.1 hxs, rfl⟩
        · rintro ⟨y, ys', hy, hys', rfl⟩
          cases hy
          rw [← ih, hxs] at hys'
          cases hys'
          rfl

theorem exists_mapM_eq_ok {xs : List α} (h : ∀ x ∈ xs, ∃ y, f x = .ok y) :
    ∃ ys, xs.mapM f = .ok ys := by
  simp only [mapM_eq_ok_iff]
  induction xs with
  | nil => exact ⟨[], .nil⟩
  | cons x xs ih =>
    obtain ⟨y, hy⟩ := h x List.mem_cons_self
    obtain ⟨ys, hys⟩ := ih fun x hx ↦ h x (List.mem_cons_of_mem _ hx)
    exact ⟨y :: ys, .cons hy hys⟩

/-- A list of values of a function is the image of a list. -/
theorem exists_map_eq {g : β → α} {xs : List α} (h : ∀ x ∈ xs, ∃ y, x = g y) :
    ∃ ys : List β, ys.map g = xs := by
  induction xs with
  | nil => exact ⟨[], rfl⟩
  | cons x xs ih =>
    obtain ⟨y, rfl⟩ := h x List.mem_cons_self
    obtain ⟨ys, rfl⟩ := ih fun x hx ↦ h x (List.mem_cons_of_mem _ hx)
    exact ⟨y :: ys, rfl⟩

end Lists

namespace Tables

def records (t : Tables) : List Bytes :=
  t.scripts.toList.flatMap fun entry ↦ entry.2.records

theorem mem_records_iff {t : Tables} {record : Bytes} :
    record ∈ t.records ↔ ∃ key, t.Holds key record := by
  simp only [records, List.mem_flatMap, Prod.exists, Holds,
    Std.ExtTreeMap.mem_toList_iff_getElem?_eq_some]

theorem length_records (t : Tables) : t.records.length = t.txoCount := by
  have hsum (entries : List (Bytes × Bucket)) (n : Nat) :
      entries.foldl (fun n entry ↦ n + entry.2.size) n =
        n + (entries.flatMap fun entry ↦ entry.2.records).length := by
    induction entries generalizing n with
    | nil => rfl
    | cons entry entries ih =>
      rw [List.foldl_cons, ih, List.flatMap_cons, List.length_append, Bucket.length_records,
        Nat.add_assoc]
  rw [txoCount, Std.ExtTreeMap.foldl_eq_foldl_toList, hsum, Nat.zero_add, records]

theorem decodeTxo_eq_ok_iff {scriptHash : ScriptHash} {record : Bytes} {txo : Txo} :
    decodeTxo scriptHash record = .ok txo ↔ txo.IsStored ∧ record = txo.encode := by
  rw [← Txo.decode_eq_ok_iff, decodeTxo]
  cases Txo.decode record with
  | ok txo' => simp only [Except.ok.injEq]
  | error e => simp only [reduceCtorEq]

theorem records_eq_of_mapM {scriptHash : ScriptHash} {records : List Bytes} {txos : List Txo}
    (h : records.mapM (decodeTxo scriptHash) = .ok txos) : records = txos.map Txo.encode := by
  rw [← List.forall₂_eq_eq_eq, List.forall₂_map_right_iff]
  exact (mapM_eq_ok_iff.1 h).imp fun _ _ hdecode ↦ (decodeTxo_eq_ok_iff.1 hdecode).2

theorem isStored_of_mapM {scriptHash : ScriptHash} {records : List Bytes} {txos : List Txo}
    (h : records.mapM (decodeTxo scriptHash) = .ok txos) : ∀ txo ∈ txos, txo.IsStored := by
  have hread := mapM_eq_ok_iff.1 h
  clear h
  induction hread with
  | nil => simp
  | cons hdecode _ ih => exact List.forall_mem_cons.2 ⟨(decodeTxo_eq_ok_iff.1 hdecode).1, ih⟩

/-- What is read under a script hash are its records. -/
theorem holds_iff_of_txos? {t : Tables} {s : ScriptHash} {txos : List Txo}
    (h : t.txos? s = .ok (some txos)) :
    (∀ record, t.Holds s.bytes record ↔ record ∈ txos.map Txo.encode) ∧
      ∀ txo ∈ txos, txo.IsStored := by
  unfold txos? at h
  split at h
  · cases h
  · next bucket hbucket =>
    cases hread : bucket.records.mapM (decodeTxo s) with
    | error e =>
      rw [hread] at h
      cases h
    | ok txos' =>
      rw [hread] at h
      cases h
      refine ⟨fun record ↦ ?_, isStored_of_mapM hread⟩
      rw [holds_iff_of_getElem? hbucket, records_eq_of_mapM hread]

namespace Represents

variable {t : Tables} {m : Index}

/-! ## Records -/

theorem record_unique (h : t.Represents m) {o : Outpoint} {key record key' record' : Bytes}
    (hholds : t.Holds key record) (hkey : o.key <+: record) (hholds' : t.Holds key' record')
    (hkey' : o.key <+: record') : key = key' ∧ record = record' := by
  obtain ⟨row, hrow, rfl, rfl⟩ := h.exists_row_of_holds hkey hholds
  obtain ⟨row', hrow', rfl, rfl⟩ := h.exists_row_of_holds hkey' hholds'
  rw [hrow, Option.some.injEq] at hrow'
  rw [hrow']
  exact ⟨rfl, rfl⟩

/-- No record is in two buckets. -/
theorem nodup_records (h : t.Represents m) : t.records.Nodup := by
  rw [records, List.nodup_flatMap]
  refine ⟨fun entry _ ↦ entry.2.nodup_records, ?_⟩
  apply Std.ExtTreeMap.distinct_keys_toList.imp_of_mem
  intro x y hx hy hne
  change List.Disjoint x.2.records y.2.records
  rw [List.disjoint_left]
  intro record hxrecord hyrecord
  have hxholds : t.Holds x.1 record :=
    ⟨x.2, Std.ExtTreeMap.mem_toList_iff_getElem?_eq_some.1 hx, hxrecord⟩
  have hyholds : t.Holds y.1 record :=
    ⟨y.2, Std.ExtTreeMap.mem_toList_iff_getElem?_eq_some.1 hy, hyrecord⟩
  obtain ⟨o, row, -, -, rfl⟩ := (h.holds_iff _ _).1 hxholds
  have hkeys := (h.record_unique hxholds row.txo.key_prefix_encode hyholds
    row.txo.key_prefix_encode).1
  rw [hkeys, Bytes.compare_self] at hne
  exact hne rfl

theorem exists_key_of_holds (h : t.Represents m) {key record : Bytes}
    (hholds : t.Holds key record) : ∃ o : Outpoint, o.key <+: record ∧ record.take 36 = o.key := by
  obtain ⟨o, row, -, -, rfl⟩ := (h.holds_iff _ _).1 hholds
  exact ⟨row.txo.outpoint, row.txo.key_prefix_encode, row.txo.take_encode⟩

/-- There are as many records as outpoints: the front of a record is the key of its outpoint. -/
theorem txoCount_eq (h : t.Represents m) : t.txoCount = t.outpoints.size := by
  have hnodup : (t.records.map (·.take 36)).Nodup := by
    apply h.nodup_records.map_on
    intro record hrecord record' hrecord' heq
    obtain ⟨key, hholds⟩ := mem_records_iff.1 hrecord
    obtain ⟨key', hholds'⟩ := mem_records_iff.1 hrecord'
    obtain ⟨o, hkey, htake⟩ := h.exists_key_of_holds hholds
    obtain ⟨o', hkey', htake'⟩ := h.exists_key_of_holds hholds'
    obtain rfl : o = o' := Outpoint.key_inj.1 (htake.symm.trans (heq.trans htake'))
    exact (h.record_unique hholds hkey hholds' hkey').2
  have hperm : (t.records.map (·.take 36)).Perm t.outpoints.keys := by
    rw [List.perm_ext_iff_of_nodup hnodup Std.ExtTreeMap.nodup_keys]
    intro key
    rw [Std.ExtTreeMap.mem_keys, h.outpoints.mem_iff, List.mem_map]
    constructor
    · rintro ⟨record, hrecord, rfl⟩
      obtain ⟨key, hholds⟩ := mem_records_iff.1 hrecord
      obtain ⟨o, hkey, htake⟩ := h.exists_key_of_holds hholds
      obtain ⟨row, hrow, -⟩ := h.exists_row_of_holds hkey hholds
      exact ⟨o, htake, by rw [hrow, Option.isSome_some]⟩
    · rintro ⟨o, rfl, hsome⟩
      obtain ⟨row, hrow⟩ := Option.isSome_iff_exists.1 hsome
      refine ⟨row.txo.encode, mem_records_iff.2 ⟨_, h.holds hrow⟩, ?_⟩
      rw [row.txo.take_encode, (m.valid hrow).1]
  calc
    t.txoCount = t.records.length := t.length_records.symm
    _ = (t.records.map (·.take 36)).length := by rw [List.length_map]
    _ = t.outpoints.keys.length := hperm.length_eq
    _ = t.outpoints.size := Std.ExtTreeMap.length_keys

/-! ## Script hashes -/

theorem txos?_eq (h : t.Represents m) (s : ScriptHash) :
    (t.txos? s = .ok none ∧ ∀ record, ¬ t.Holds s.bytes record) ∨
      ∃ txos, t.txos? s = .ok (some txos) ∧ txos ≠ [] ∧
        (∀ record, t.Holds s.bytes record ↔ record ∈ txos.map Txo.encode) ∧
        (txos.Pairwise fun x y ↦ compare x.encode y.encode = .lt) ∧
        (txos.map Txo.outpoint).Nodup := by
  cases hbucket : t.scripts[s.bytes]? with
  | none =>
    left
    exact ⟨by rw [txos?, hbucket], not_holds_of_getElem?_eq_none hbucket⟩
  | some bucket =>
    right
    have hread : ∀ record ∈ bucket.records, ∃ txo, decodeTxo s record = .ok txo := by
      intro record hrecord
      have hholds := (holds_iff_of_getElem? hbucket).2 hrecord
      obtain ⟨o, row, hrow, -, rfl⟩ := (h.holds_iff _ _).1 hholds
      exact ⟨row.txo, decodeTxo_encode (m.valid hrow).2⟩
    obtain ⟨txos, htxos⟩ := exists_mapM_eq_ok hread
    have hsome : t.txos? s = .ok (some txos) := by
      rw [txos?, hbucket]
      simp only [htxos]
      rfl
    obtain ⟨hholds, -⟩ := holds_iff_of_txos? hsome
    have hmap := records_eq_of_mapM htxos
    have hnodup : (txos.map Txo.encode).Nodup := hmap ▸ bucket.nodup_records
    refine ⟨txos, hsome, ?_, hholds, ?_, ?_⟩
    · rintro rfl
      exact bucket.records_ne_nil hmap
    · have hascending := bucket.ascending_records
      rw [hmap, List.pairwise_map] at hascending
      exact hascending
    · apply (List.Nodup.of_map _ hnodup).map_on
      intro x hx y hy heq
      apply List.inj_on_of_nodup_map hnodup hx hy
      have hxkey := x.key_prefix_encode
      rw [heq] at hxkey
      exact (h.record_unique ((hholds _).2 (List.mem_map_of_mem hx)) hxkey
        ((hholds _).2 (List.mem_map_of_mem hy)) y.key_prefix_encode).2

/-- The outputs of a script hash are those of the rows with this script hash. -/
theorem mem_txos_iff (h : t.Represents m) {s : ScriptHash} {txos : List Txo}
    (htxos : t.txos? s = .ok (some txos)) {txo : Txo} :
    txo ∈ txos ↔ m.rows txo.outpoint = some ⟨s, txo⟩ := by
  obtain ⟨hholds, hstored⟩ := holds_iff_of_txos? htxos
  constructor
  · intro hmem
    have hrecord := (hholds _).2 (List.mem_map_of_mem hmem)
    obtain ⟨row, hrow, hscript, hencode⟩ := h.exists_row_of_holds txo.key_prefix_encode hrecord
    rw [(hstored txo hmem).encode_inj (m.valid hrow).2] at hencode
    rw [hrow, hencode, Hash.bytes_inj.1 hscript]
  · intro hrow
    obtain ⟨txo', hmem, hencode⟩ := List.mem_map.1 ((hholds _).1 (h.holds hrow))
    have hsame : txo' = txo := ((hstored txo' hmem).encode_inj (m.valid hrow).2).1 hencode
    rwa [← hsame]

theorem exists_scriptHashes (h : t.Represents m) : ∃ hashes : List ScriptHash, hashes.Nodup ∧
    hashes.length = t.scripts.size ∧
    ∀ s, s ∈ hashes ↔ ∃ txos, t.txos? s = .ok (some txos) := by
  obtain ⟨hashes, hhashes⟩ : ∃ hashes : List ScriptHash,
      hashes.map Hash.bytes = t.scripts.keys := by
    apply exists_map_eq
    intro key hkey
    rw [Std.ExtTreeMap.mem_keys, Std.ExtTreeMap.mem_iff_isSome_getElem?] at hkey
    obtain ⟨bucket, hbucket⟩ := Option.isSome_iff_exists.1 hkey
    obtain ⟨record, hholds⟩ := exists_holds_of_getElem? hbucket
    obtain ⟨o, row, -, hscript, -⟩ := (h.holds_iff _ _).1 hholds
    exact ⟨row.scriptHash, hscript⟩
  refine ⟨hashes, ?_, ?_, fun s ↦ ?_⟩
  · apply List.Nodup.of_map Hash.bytes
    rw [hhashes]
    exact Std.ExtTreeMap.nodup_keys
  · calc
      hashes.length = (hashes.map Hash.bytes).length := by rw [List.length_map]
      _ = t.scripts.keys.length := by rw [hhashes]
      _ = t.scripts.size := Std.ExtTreeMap.length_keys
  have hmem : s ∈ hashes ↔ s.bytes ∈ t.scripts.keys := by
    rw [← hhashes, List.mem_map]
    constructor
    · exact fun hs ↦ ⟨s, hs, rfl⟩
    · rintro ⟨s', hs', hbytes⟩
      rwa [← Hash.bytes_inj.1 hbytes]
  rw [hmem, Std.ExtTreeMap.mem_keys, Std.ExtTreeMap.mem_iff_isSome_getElem?]
  cases hbucket : t.scripts[s.bytes]? with
  | none =>
    simp only [txos?, hbucket]
    simp
  | some bucket =>
    rcases h.txos?_eq s with ⟨-, hnone⟩ | ⟨txos, htxos, -⟩
    · obtain ⟨record, hholds⟩ := exists_holds_of_getElem? hbucket
      exact absurd hholds (hnone record)
    · simp only [htxos, Option.isSome_some, true_iff]
      exact ⟨txos, rfl⟩

/-! ## Headers and stage -/

theorem decodeHeader_encode (key : Bytes) (header : Header) :
    decodeHeader key header.encode = .ok header := by
  rw [decodeHeader, (Decoder.exactly_eq_ok_iff_of_spells Header.decoder_spells).2 ⟨trivial, rfl⟩]

theorem header?_eq (h : t.Represents m) (hash : BlockHash) :
    t.header? hash = .ok (m.headers hash) := by
  rw [header?, h.headers.get]
  cases m.headers hash with
  | none => rfl
  | some header =>
    simp only [Option.map_some, decodeHeader_encode]
    rfl

theorem stage_eq (h : t.Represents m) : t.stage = .ok (m.stage.getD .empty) := by
  rw [stage, h.marks.get ()]
  cases m.stage with
  | none => rfl
  | some stage => cases stage <;> rfl

theorem mem_toList_headers_iff (h : t.Represents m) {entry : Bytes × Bytes} :
    entry ∈ t.headers.toList ↔
      ∃ hash header, m.headers hash = some header ∧ entry = (hash.bytes, header.encode) := by
  obtain ⟨key, value⟩ := entry
  rw [Std.ExtTreeMap.mem_toList_iff_getElem?_eq_some]
  constructor
  · intro hvalue
    obtain ⟨hash, rfl⟩ := h.headers.exists_key hvalue
    rw [h.headers.get] at hvalue
    obtain ⟨header, hheader, rfl⟩ := Option.map_eq_some_iff.1 hvalue
    exact ⟨hash, header, hheader, rfl⟩
  · rintro ⟨hash, header, hheader, heq⟩
    obtain ⟨rfl, rfl⟩ := Prod.mk.inj heq
    rw [h.headers.get, hheader, Option.map_some]

theorem exists_mapM_decodeHeader (h : t.Represents m) : ∃ headers,
    t.headers.toList.mapM (fun (key, value) ↦ decodeHeader key value) = .ok headers := by
  apply exists_mapM_eq_ok
  intro entry hentry
  obtain ⟨hash, header, -, rfl⟩ := h.mem_toList_headers_iff.1 hentry
  exact ⟨header, decodeHeader_encode _ _⟩

theorem listHeaders_error (h : t.Represents m) {e : StoreError}
    (herror : t.listHeaders = .error e) : e = .noHeaders := by
  unfold listHeaders at herror
  split at herror
  · cases herror
    rfl
  · obtain ⟨headers, hheaders⟩ := h.exists_mapM_decodeHeader
    rw [hheaders] at herror
    cases herror

theorem consistent (h : t.Represents m) : t.Consistent where
  scriptHashOf?_iff o s := by
    rw [h.scriptHashOf?_eq, Except.ok.injEq, Option.map_eq_some_iff]
    constructor
    · rintro ⟨row, hrow, rfl⟩
      exact ⟨row.txo.encode, Index.key_prefix_of_rows hrow, h.holds hrow⟩
    · rintro ⟨record, hkey, hholds⟩
      obtain ⟨row, hrow, hscript, -⟩ := h.exists_row_of_holds hkey hholds
      exact ⟨row, hrow, (Hash.bytes_inj.1 hscript).symm⟩
  record_unique := h.record_unique
  record_decodes hholds := by
    obtain ⟨o, row, hrow, rfl, rfl⟩ := (h.holds_iff _ _).1 hholds
    exact ⟨row.scriptHash, row.txo, rfl, Txo.decode_eq_ok_iff.2 ⟨(m.valid hrow).2, rfl⟩, rfl⟩
  outpoint_decodes {key value} hvalue := by
    obtain ⟨o, rfl⟩ := h.outpoints.exists_key hvalue
    rw [h.outpoints.get] at hvalue
    obtain ⟨row, hrow, -⟩ := Option.map_eq_some_iff.1 hvalue
    refine ⟨o, row.scriptHash, rfl, ?_⟩
    rw [h.scriptHashOf?_eq, hrow, Option.map_some]
  txos?_eq := h.txos?_eq
  txoCount_eq := h.txoCount_eq
  exists_scriptHashes := h.exists_scriptHashes
  scriptHashOf?_isOk o := ⟨_, h.scriptHashOf?_eq o⟩
  header?_isOk hash := ⟨_, h.header?_eq hash⟩
  listHeaders_error := h.listHeaders_error
  stage_isOk := ⟨_, h.stage_eq⟩
  spend_isOk prevout spender := by
    obtain ⟨t', hspend, -⟩ := h.spend prevout spender
    exact ⟨_, hspend⟩
  putRecord?_isSome {txo} s hnew := by
    rw [h.contains_outpoint, Option.isSome_eq_false_iff, Option.isNone_iff_eq_none] at hnew
    obtain ⟨scripts, hput, -⟩ := putRecord?_spec
      (t := { t with outpoints := t.outpoints.insert txo.outpoint.key s.bytes })
      (h.not_holds_of_eq_none hnew s.bytes)
    rw [hput, Option.isSome_some]

end Represents

end Tables

/-- Whatever units were run on a store since it was empty, its tables are consistent, and so are all
tables that the next unit has in view. -/
theorem Store.consistent_of_reachable {s : Store} (h : s.Reachable) :
    (∀ t, Op.Reaches s.tables t → t.Consistent) ∧
      s.stats.txos = s.stats.outpoints ∧
      ∃ hashes : List ScriptHash, hashes.Nodup ∧ hashes.length = s.stats.scriptHashes ∧
        ∀ scriptHash, scriptHash ∈ hashes ↔
          ∃ txos, s.tables.txos? scriptHash = .ok (some txos) := by
  obtain ⟨m, hm⟩ := h.represents
  have hview (t : Tables) (ht : Op.Reaches s.tables t) : t.Consistent := by
    obtain ⟨m', hm'⟩ := ht.represents hm
    exact hm'.consistent
  have hconsistent := hview s.tables .start
  exact ⟨hview, hconsistent.txoCount_eq, hconsistent.exists_scriptHashes⟩

def Medium.boundless : Medium where
  answer _ _ _ _ := .fits
  accepts _ := true
  flush := .ok ()

/-- A store into which an output was put under two script hashes, and then marked as spent. -/
def Store.ofOneOutput : Store :=
  let txo : Txo := ⟨⟨Hash.zero, 7⟩, some Txo.unknownHeight, 50, some Outpoint.null⟩
  let unit : WriteUnit Spent := do
    let _ ← WriteUnit.addTxo Hash.zero txo
    let _ ← WriteUnit.addTxo (Hash.single []) txo
    WriteUnit.spend txo.outpoint ⟨Hash.zero, 3⟩
  (Store.write .boundless unit ⟨Tables.empty, 0, 0, .fresh 0, default⟩).2

theorem Store.consistent_ofOneOutput :
    Store.ofOneOutput.Reachable ∧ Store.ofOneOutput.stats.txos = 1 ∧
      Store.ofOneOutput.stats.outpoints = 1 ∧ Store.ofOneOutput.tables.Consistent := by
  have hreachable : Store.ofOneOutput.Reachable := .write .boundless _ (.fresh rfl)
  obtain ⟨hview, htxos, -⟩ := Store.consistent_of_reachable hreachable
  have houtpoints : Store.ofOneOutput.stats.outpoints = 1 := by decide +kernel
  exact ⟨hreachable, htxos.trans houtpoints, houtpoints, hview _ .start⟩

end TxoIndex

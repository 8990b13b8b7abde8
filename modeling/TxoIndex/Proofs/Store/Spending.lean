import TxoIndex.Proofs.Store.History

/-!
# Spending in place

Marking an output as spent takes its record out of a bucket and puts another one in. Both start with
the key of the outpoint and no other record does. So the record is found among all those of the
bucket, whatever their bytes are, and the new one takes its place: what is listed under the script
hash stays in its order and only the spender of this output changes. Of the other buckets and tables
nothing changes, and no count does.
-/

namespace TxoIndex

theorem Spent.ofSpender_iff (spentBy : Option Outpoint) (spender : Outpoint) :
    (ofSpender spentBy spender = .spent ↔ spentBy = none) ∧
      (ofSpender spentBy spender = .alreadySpent ↔ spentBy = some spender) ∧
      (∀ existing, ofSpender spentBy spender = .conflict existing ↔
        spentBy = some existing ∧ existing ≠ spender) ∧
      ofSpender spentBy spender ≠ .missing := by
  cases spentBy with
  | none => simp [ofSpender]
  | some existing =>
    by_cases hsame : existing = spender <;> simp [ofSpender, hsame]

def Txo.markAt (prevout spender : Outpoint) (txo : Txo) : Txo :=
  if txo.outpoint = prevout then { txo with spentBy := some spender } else txo

theorem Txo.markAt_of_ne {prevout : Outpoint} {txo : Txo} (h : txo.outpoint ≠ prevout)
    (spender : Outpoint) : txo.markAt prevout spender = txo :=
  if_neg h

/-- Spending an unspent row marks it, unless the null outpoint is the spender. -/
theorem Index.rows_spend_eq_map {m : Index} {prevout spender : Outpoint} {row : FundingRow}
    (hrow : m.rows prevout = some row) (hunspent : row.txo.spentBy = none)
    (hspender : spender ≠ Outpoint.null) (o : Outpoint) :
    (m.spend prevout spender).rows o =
      (m.rows o).map fun row ↦ { row with txo := row.txo.markAt prevout spender } := by
  simp only [spend]
  split
  · next ho =>
    have hnull : some spender ≠ some Outpoint.null := mt Option.some.inj hspender
    rw [ho, hrow, Option.map_some, Option.map_some,
      FundingRow.spendBy_of_isStored (m.valid hrow).2 hunspent, readBack_of_ne hnull,
      Txo.markAt, if_pos (m.valid hrow).1]
  · next ho =>
    cases hother : m.rows o with
    | none => rfl
    | some other =>
      have hne : other.txo.outpoint ≠ prevout := (m.valid hother).1 ▸ ho
      rw [Option.map_some, Txo.markAt_of_ne hne]

theorem size_eq_of_mem_iff {β : Type} {table table' : Std.ExtTreeMap Bytes β}
    (h : ∀ key, key ∈ table ↔ key ∈ table') : table.size = table'.size := by
  have hkeys : table.keys.Perm table'.keys := by
    rw [List.perm_ext_iff_of_nodup Std.ExtTreeMap.nodup_keys Std.ExtTreeMap.nodup_keys]
    intro key
    rw [Std.ExtTreeMap.mem_keys, Std.ExtTreeMap.mem_keys, h]
  rw [← Std.ExtTreeMap.length_keys, hkeys.length_eq, Std.ExtTreeMap.length_keys]

namespace Tables

/-- The tables differ under one script hash at most, and not in the number of any entries. -/
structure SameBesides (t t' : Tables) (scriptHash : ScriptHash) : Prop where
  scripts_eq : ∀ key ≠ scriptHash.bytes, t'.scripts[key]? = t.scripts[key]?
  outpoints_eq : t'.outpoints = t.outpoints
  headers_eq : t'.headers = t.headers
  marks_eq : t'.marks = t.marks
  size_scripts_eq : t'.scripts.size = t.scripts.size
  txoCount_eq : t'.txoCount = t.txoCount

namespace Represents

variable {t t' : Tables} {m : Index} {prevout spender : Outpoint} {scriptHash : ScriptHash}
  {txo : Txo} {before after : List Txo}

/-- Spending a row changes its bucket only. -/
theorem sameBesides (h : t.Represents m) (h' : t'.Represents (m.spend prevout spender))
    (hrow : m.rows prevout = some ⟨scriptHash, txo⟩) : t.SameBesides t' scriptHash := by
  have hscripts (key : Bytes) (hkey : key ≠ scriptHash.bytes) :
      t'.scripts[key]? = t.scripts[key]? := by
    apply getElem?_scripts_eq_of_holds_iff
    intro record
    rw [h'.holds_iff, Index.recorded_spend hrow, h.holds_iff]
    simp only [hkey, false_and, false_or, not_false_iff, and_true]
  have houtpoints : t'.outpoints = t.outpoints := h.outpoints_spend h'
  -- The bucket of the row has a record before and after.
  have hbucket {u : Tables} {n : Index} {row : FundingRow} (hu : u.Represents n)
      (hrow : n.rows prevout = some row) : row.scriptHash.bytes ∈ u.scripts := by
    obtain ⟨bucket, hbucket, -⟩ := hu.holds hrow
    rw [Std.ExtTreeMap.mem_iff_isSome_getElem?, hbucket, Option.isSome_some]
  have hspent : (m.spend prevout spender).rows prevout =
      some (FundingRow.spendBy ⟨scriptHash, txo⟩ spender) := by
    simp only [Index.spend, if_true, hrow, Option.map_some]
  refine ⟨hscripts, houtpoints, h'.headers.unique h.headers, h'.marks.unique h.marks, ?_, ?_⟩
  · apply size_eq_of_mem_iff
    intro key
    by_cases hkey : key = scriptHash.bytes
    · rw [hkey]
      have hmem' := hbucket h' hspent
      rw [FundingRow.scriptHash_spendBy] at hmem'
      exact iff_of_true hmem' (hbucket h hrow)
    · rw [Std.ExtTreeMap.mem_iff_isSome_getElem?, Std.ExtTreeMap.mem_iff_isSome_getElem?,
        hscripts key hkey]
  · rw [h'.txoCount_eq, h.txoCount_eq, houtpoints]

/-- A row is listed at one place under its script hash. -/
theorem exists_place (h : t.Represents m) (hrow : m.rows prevout = some ⟨scriptHash, txo⟩) :
    ∃ before after, t.txos? scriptHash = .ok (some (before ++ txo :: after)) ∧
      IsListing m scriptHash (before ++ txo :: after) ∧
      ∀ other ∈ before ++ after, other.outpoint ≠ prevout := by
  obtain rfl : txo.outpoint = prevout := (m.valid hrow).1
  obtain ⟨txos, htxos, hlisting⟩ := h.exists_isListing scriptHash
  obtain ⟨before, after, rfl⟩ := List.append_of_mem (hlisting.mem_iff.2 hrow)
  refine ⟨before, after, ?_, hlisting, fun other hother ↦ ?_⟩
  · rw [htxos, listed, if_neg (by simp)]
  · have hnodup := hlisting.nodup_outpoints
    rw [List.map_append, List.map_cons, List.nodup_middle, ← List.map_append] at hnodup
    exact fun heq ↦ (List.nodup_cons.1 hnodup).1 (heq ▸ List.mem_map_of_mem hother)

/-- The marked output stands where the unspent one was. -/
theorem txos?_spend (h' : t'.Represents (m.spend prevout spender))
    (hrow : m.rows prevout = some ⟨scriptHash, txo⟩) (hunspent : txo.spentBy = none)
    (hspender : spender ≠ Outpoint.null)
    (hlisting : IsListing m scriptHash (before ++ txo :: after))
    (hothers : ∀ other ∈ before ++ after, other.outpoint ≠ prevout) :
    t'.txos? scriptHash =
      .ok (some (before ++ { txo with spentBy := some spender } :: after)) := by
  obtain ⟨txos, htxos, hlisting'⟩ := h'.exists_isListing scriptHash
  have hmap : (before ++ txo :: after).map (Txo.markAt prevout spender) = txos.map id := by
    apply hlisting.map_eq hlisting'
    intro o
    rw [Index.rows_spend_eq_map hrow hunspent hspender, Option.map_map]
    rfl
  have hsame {others : List Txo} (hothers : ∀ other ∈ others, other.outpoint ≠ prevout) :
      others.map (Txo.markAt prevout spender) = others :=
    calc
      others.map (Txo.markAt prevout spender) = others.map id :=
        List.map_congr_left fun other hother ↦ Txo.markAt_of_ne (hothers other hother) spender
      _ = others := List.map_id others
  obtain ⟨hbefore, hafter⟩ := List.forall_mem_append.1 hothers
  have hmarked : txo.markAt prevout spender = { txo with spentBy := some spender } :=
    if_pos (m.valid hrow).1
  rw [List.map_append, List.map_cons, hsame hbefore, hsame hafter, hmarked, List.map_id] at hmap
  rw [htxos, ← hmap, listed, if_neg (by simp)]

end Represents

end Tables

/-- What spending an output does to the tables that a transaction on a reachable store has in view.
An output that is not indexed is missing. Of an indexed one the record is found, and the spender in
it tells the result; if there is none, it is set in its place of the list. Other results change
nothing, and this one nothing else. -/
theorem Store.spends_in_place {s : Store} (hreachable : s.Reachable) {t : Tables}
    (hview : Op.Reaches s.tables t) (prevout : Outpoint) {spender : Outpoint}
    (hspender : spender ≠ Outpoint.null) :
    ∃ entry result t', t.scriptHashOf? prevout = .ok entry ∧
      t.spend prevout spender = .ok (result, t') ∧
      (result = .missing ↔ entry = none) ∧
      (result ≠ .spent → t' = t) ∧
      ∀ scriptHash, entry = some scriptHash →
        t.SameBesides t' scriptHash ∧
        ∃ before txo after, t.txos? scriptHash = .ok (some (before ++ txo :: after)) ∧
          txo.outpoint = prevout ∧ (∀ other ∈ before ++ after, other.outpoint ≠ prevout) ∧
          t.record? scriptHash prevout = some txo.encode ∧
          (result = .spent ↔ txo.spentBy = none) ∧
          (result = .alreadySpent ↔ txo.spentBy = some spender) ∧
          (∀ existing, result = .conflict existing ↔
            txo.spentBy = some existing ∧ existing ≠ spender) ∧
          (result = .spent → t'.txos? scriptHash =
            .ok (some (before ++ { txo with spentBy := some spender } :: after))) := by
  obtain ⟨m₀, hm₀⟩ := hreachable.represents
  obtain ⟨m, ht⟩ := hview.represents hm₀
  obtain ⟨t', hspend, ht'⟩ := ht.spend prevout spender
  refine ⟨_, m.spent prevout spender, t', ht.scriptHashOf?_eq prevout, hspend, ?_⟩
  cases hrow : m.rows prevout with
  | none =>
    have hmissing : m.spent prevout spender = .missing := by rw [Index.spent, hrow]
    rw [Index.spend_of_eq_none hrow] at ht'
    refine ⟨iff_of_true hmissing rfl, fun _ ↦ ht'.unique ht, fun scriptHash hsome ↦ ?_⟩
    cases hsome
  | some row =>
    obtain ⟨scriptHash, txo⟩ := row
    have hresult : m.spent prevout spender = Spent.ofSpender txo.spentBy spender :=
      Index.spent_of_some hrow spender
    obtain ⟨hspent, halready, hconflict, hmissing⟩ := Spent.ofSpender_iff txo.spentBy spender
    rw [hresult]
    refine ⟨iff_of_false hmissing (Option.some_ne_none _), fun hne ↦ ?_, ?_⟩
    · have hisSpent : txo.isSpent := Option.isSome_iff_ne_none.2 (mt hspent.2 hne)
      rw [Index.spend_of_isSpent hrow hisSpent] at ht'
      exact ht'.unique ht
    rintro _ ⟨rfl⟩
    obtain ⟨before, after, htxos, hlisting, hothers⟩ := ht.exists_place hrow
    refine ⟨ht.sameBesides ht' hrow, before, txo, after, htxos, (m.valid hrow).1, hothers,
      ht.record?_eq hrow, hspent, halready, hconflict, fun hset ↦ ?_⟩
    exact ht'.txos?_spend hrow (hspent.1 hset) hspender hlisting hothers

/-- The second of three outputs under one script hash is spent. -/
theorem Store.spends_in_place_ofThreeOutputs :
    let txo (vout : UInt32) (value : UInt64) : Txo := ⟨⟨Hash.zero, vout⟩, none, value, none⟩
    let fund : WriteUnit Unit := do
      let _ ← WriteUnit.addTxo Hash.zero (txo 2 70)
      let _ ← WriteUnit.addTxo Hash.zero (txo 1 90)
      let _ ← WriteUnit.addTxo (Hash.single []) (txo 4 10)
      let _ ← WriteUnit.addTxo Hash.zero (txo 3 60)
    let s := (Store.write .boundless fund ⟨Tables.empty, 0, 0, .fresh 0, default⟩).2
    let spender : Outpoint := ⟨Hash.zero, 9⟩
    s.Reachable ∧ spender ≠ Outpoint.null ∧
      ∃ t', s.tables.spend ⟨Hash.zero, 2⟩ spender = .ok (.spent, t') ∧
        t'.txos? Hash.zero =
          .ok (some [txo 1 90, { txo 2 70 with spentBy := some spender }, txo 3 60]) ∧
        s.tables.SameBesides t' Hash.zero := by
  intro txo fund s spender
  have hreachable : s.Reachable := .write .boundless fund (.fresh rfl)
  have hspender : spender ≠ Outpoint.null := by decide +kernel
  have hscript : s.tables.scriptHashOf? ⟨Hash.zero, 2⟩ = .ok (some Hash.zero) := by
    decide +kernel
  have hlisted : s.tables.txos? Hash.zero = .ok (some [txo 1 90, txo 2 70, txo 3 60]) := by
    decide +kernel
  obtain ⟨entry, result, t', hentry, hspend, -, -, hindexed⟩ :=
    spends_in_place hreachable .start ⟨Hash.zero, 2⟩ hspender
  obtain rfl : entry = some Hash.zero := Except.ok.inj (hentry.symm.trans hscript)
  obtain ⟨hsame, before, found, after, htxos, houtpoint, hothers, -, hspent, -, -, hplace⟩ :=
    hindexed Hash.zero rfl
  -- No other output of the list has the outpoint, so there is one way to split the list at it.
  have hbefore : txo 2 70 ∉ before := fun hmem ↦ hothers _ (List.mem_append_left _ hmem) rfl
  have hafter : txo 2 70 ∉ after := fun hmem ↦ hothers _ (List.mem_append_right _ hmem) rfl
  have hsplit : before ++ found :: after = [txo 1 90] ++ txo 2 70 :: [txo 3 60] := by
    rw [hlisted] at htxos
    exact (Option.some.inj (Except.ok.inj htxos)).symm
  obtain ⟨rfl, rfl, rfl⟩ := (List.append_cons_inj_of_notMem hbefore hafter).1 hsplit
  obtain rfl : result = .spent := hspent.2 rfl
  exact ⟨hreachable, hspender, t', hspend, hplace rfl, hsame⟩

end TxoIndex

import TxoIndex.Proofs.Chain.Heights
import TxoIndex.Proofs.Preload.Resumption

/-!
# A preload of an empty store

The index that a preload makes of an empty store is what the block files say. An outpoint is indexed
if and only if some well-formed block creates it, under the script hash of the first output that
does. The outputs of a script hash have the values of these first outputs, the heights that the
chain of all headers gives to their blocks, and the first inputs that spend them, whether these come
before or after the outputs in the files.
-/

namespace TxoIndex.Preload

variable {preload : Preload}

/-! ## Heights -/

/-- The chain of fewer headers than heights. -/
def FitsHeights (preload : Preload) : Prop := preload.headers.length < 2 ^ 32 - 1

theorem storedHeight?_ne_some_unknownHeight (hfits : preload.FitsHeights) (block : BlockHash) :
    preload.storedHeight? block ≠ some Txo.unknownHeight := by
  intro h
  obtain ⟨height, hheight, hunknown⟩ := Option.map_eq_some_iff.1 h
  have hlt : height < preload.headers.length := Chain.height?_lt hheight
  unfold FitsHeights at hfits
  have hnat : (UInt32.ofNat height).toNat = height := UInt32.toNat_ofNat_of_lt' (by
    rw [UInt32.size]
    omega)
  rw [hunknown, show Txo.unknownHeight.toNat = 2 ^ 32 - 1 from rfl] at hnat
  omega

theorem map_toNat_storedHeight? (hfits : preload.FitsHeights) (block : BlockHash) :
    (preload.storedHeight? block).map UInt32.toNat = preload.chain.height? block := by
  rw [storedHeight?, Option.map_map]
  cases hheight : preload.chain.height? block with
  | none => rfl
  | some height =>
    have hlt : height < preload.headers.length := Chain.height?_lt hheight
    unfold FitsHeights at hfits
    apply congrArg some
    apply UInt32.toNat_ofNat_of_lt'
    rw [UInt32.size]
    omega

/-! ## Rows -/

/-- What the first output of an outpoint becomes in the index. -/
def indexedRow (preload : Preload) (c : CreatedOutput) : FundingRow :=
  ⟨Hash.single c.output.script,
    ⟨c.outpoint, preload.storedHeight? c.block, c.output.value, preload.spender? c.outpoint⟩⟩

theorem allFunding_eq_map (preload : Preload) :
    preload.allFunding = (preload.accepted.flatMap Block.created).map preload.rowOf := by
  rw [allFunding, outputBatches_eq_map, List.flatMap_map, List.map_flatMap]
  apply congrArg (List.flatMap · preload.accepted)
  funext b
  exact preload.fundingRows_eq_map b

theorem firstRow?_allFunding (preload : Preload) (o : Outpoint) :
    Index.firstRow? preload.allFunding o = (preload.creation? o).map fun c ↦
      ⟨(preload.rowOf c).scriptHash, (preload.rowOf c).txo.stored⟩ := by
  rw [Index.firstRow?, allFunding_eq_map, List.find?_map, Option.map_map]
  rfl

theorem firstSpender?_allSpending {o : Outpoint} (ho : o ≠ Outpoint.null) :
    Index.firstSpender? preload.allSpending o = preload.spender? o := by
  have hfilter : preload.allSpending =
      (preload.accepted.flatMap Block.inputs).filter fun row ↦ row.prevout ≠ Outpoint.null := by
    rw [allSpending, spendBatches_eq_map, List.flatMap_map, List.filter_flatMap]
    apply congrArg (List.flatMap · preload.accepted)
    funext b
    exact b.spendingRows_eq_filter
  rw [Index.firstSpender?, hfilter, List.find?_filter, spender?]
  apply congrArg fun p ↦ Option.map _ (List.find? p _)
  funext row
  by_cases hrow : row.prevout = o
  · simp [hrow, ho]
  · simp [hrow]

theorem isStored_indexedRow (hfits : preload.FitsHeights) (c : CreatedOutput) :
    (preload.indexedRow c).txo.IsStored :=
  ⟨preload.storedHeight?_ne_some_unknownHeight hfits c.block,
    fun h ↦ ne_null_of_spender? h rfl⟩

/-- The index of an empty store after a preload. -/
theorem rows_complete_empty (hfits : preload.FitsHeights) (o : Outpoint) :
    (preload.complete Index.empty).rows o = (preload.creation? o).map preload.indexedRow := by
  rw [rows_complete, firstRow?_allFunding]
  change Option.map _ (Option.map _ _) = _
  rw [Option.map_map]
  cases hcreation : preload.creation? o with
  | none => rfl
  | some c =>
    have ho := outpoint_of_creation? hcreation
    have hrow : (preload.rowOf c).txo.stored = (preload.rowOf c).txo :=
      Txo.IsStored.stored_eq ⟨preload.storedHeight?_ne_some_unknownHeight hfits c.block, by
        simp [rowOf]⟩
    have hindexed := (preload.isStored_indexedRow hfits c).stored_eq
    apply congrArg some
    rw [Function.comp_apply, hrow, firstSpender?_allSpending (ne_null_of_creation? hcreation)]
    rw [indexedRow, ho] at hindexed ⊢
    cases hspender : preload.spender? o with
    | none =>
      rw [rowOf, ho]
      rfl
    | some spender =>
      rw [hspender] at hindexed
      rw [FundingRow.spendByFirst, FundingRow.spendBy_of_not_isSpent rfl, rowOf, ho]
      exact congrArg (FundingRow.mk _) hindexed

theorem map_toNat_eq_iff {x y : Option UInt32} : x.map UInt32.toNat = y.map UInt32.toNat ↔ x = y :=
  (Option.map_injective fun _ _ ↦ UInt32.toNat_inj.1).eq_iff

/-- An output of the index, by its fields. -/
theorem indexedRow_eq_iff (preload : Preload) (hfits : preload.FitsHeights) {c : CreatedOutput}
    {s : ScriptHash} {txo : Txo} (ho : c.outpoint = txo.outpoint) :
    preload.indexedRow c = ⟨s, txo⟩ ↔ Hash.single c.output.script = s ∧
      txo.value = c.output.value ∧
      txo.height.map UInt32.toNat = preload.chain.height? c.block ∧
      txo.spentBy = preload.spender? txo.outpoint := by
  rw [← map_toNat_storedHeight? hfits, map_toNat_eq_iff, indexedRow, ho]
  cases txo with
  | mk outpoint height value spentBy =>
    simp only [FundingRow.mk.injEq, Txo.mk.injEq, true_and]
    constructor
    · rintro ⟨hscript, hheight, hvalue, hspentBy⟩
      exact ⟨hscript, hvalue.symm, hheight.symm, hspentBy.symm⟩
    · rintro ⟨hscript, hvalue, hheight, hspentBy⟩
      exact ⟨hscript, hheight.symm, hvalue.symm, hspentBy.symm⟩

/-! ## The index of the files -/

/-- The tables say what the block files say. -/
structure Indexed (preload : Preload) (t : Tables) : Prop where
  /-- An outpoint is under the script hash of the first output that creates it. -/
  scriptHashOf?_eq (o : Outpoint) : t.scriptHashOf? o =
    .ok ((preload.creation? o).map fun c ↦ Hash.single c.output.script)
  /-- A script hash has one output for each of its outpoints, and no other. -/
  txos?_cases (s : ScriptHash) :
    (t.txos? s = .ok none ∧
        ∀ o c, preload.creation? o = some c → Hash.single c.output.script ≠ s) ∨
      ∃ txos, t.txos? s = .ok (some txos) ∧ txos ≠ [] ∧ (txos.map Txo.outpoint).Nodup ∧
        ∀ txo, txo ∈ txos ↔ ∃ c, preload.creation? txo.outpoint = some c ∧
          Hash.single c.output.script = s ∧ txo.value = c.output.value ∧
          txo.height.map UInt32.toNat = preload.chain.height? c.block ∧
          txo.spentBy = preload.spender? txo.outpoint
  /-- The headers table has the headers of the well-formed blocks, and no other. -/
  headers_spell : Table.Spells t.headers Hash.bytes Header.encode preload.lastHeader?
  header?_eq (hash : BlockHash) : t.header? hash = .ok (preload.lastHeader? hash)
  stage_eq : t.stage = .ok .spendsIndexed

/-- The last header of a name replaces the one that was there. -/
theorem headers_complete_eq_or (preload : Preload) (m : Index) (hash : BlockHash) :
    (preload.complete m).headers hash = (preload.lastHeader? hash).or (m.headers hash) := by
  rw [headers_complete, outputBatches_eq_map, ← List.map_reverse, List.find?_map, Option.map_map]
  rfl

theorem headers_complete_empty (preload : Preload) :
    (preload.complete Index.empty).headers = preload.lastHeader? := by
  funext hash
  rw [headers_complete_eq_or]
  exact Option.or_none

/-- What the tables say after a complete preload is what the block files say. -/
theorem indexed_of_represents (hfits : preload.FitsHeights) {t : Tables}
    (h : t.Represents (preload.complete Index.empty)) : preload.Indexed t where
  scriptHashOf?_eq o := by
    rw [h.scriptHashOf?_eq, rows_complete_empty hfits, Option.map_map]
    rfl
  txos?_cases s := by
    rcases h.txos?_eq s with ⟨hnone, hempty⟩ | ⟨txos, htxos, hne, -, -, hnodup⟩
    · left
      refine ⟨hnone, fun o c hcreation hscript ↦ ?_⟩
      have hrow : (preload.complete Index.empty).rows o = some (preload.indexedRow c) := by
        rw [rows_complete_empty hfits, hcreation, Option.map_some]
      have hholds := h.holds hrow
      rw [indexedRow, hscript] at hholds
      exact hempty _ hholds
    · right
      refine ⟨txos, htxos, hne, hnodup, fun txo ↦ ?_⟩
      rw [h.mem_txos_iff htxos, rows_complete_empty hfits, Option.map_eq_some_iff]
      apply exists_congr
      intro c
      apply and_congr_right
      intro hcreation
      exact preload.indexedRow_eq_iff hfits (outpoint_of_creation? hcreation)
  headers_spell := by
    rw [← headers_complete_empty]
    exact h.headers
  header?_eq hash := by rw [h.header?_eq, headers_complete_empty]
  stage_eq := h.stage_eq

/-- If a preload of an empty store goes through, its tables say what the block files say. The blocks
are the records in which the outputs are found. -/
theorem fresh_run_indexes_files (hone : preload.workerCount = 1)
    (hheaders : preload.headers.length < 2 ^ 32 - 1) {media : Media} {p p' : Progress}
    {summary : Summary} (hfresh : p.store.tables = Tables.empty)
    (hrun : preload.run media p = (.ok summary, p')) :
    preload.accepted.map Block.encode =
        preload.blocks.filter (fun block ↦ (Batch.outputs block none).isOk) ∧
      preload.Indexed p'.store.tables := by
  have hempty : p.store.tables.Represents Index.empty := hfresh ▸ Tables.Represents.empty
  obtain ⟨hcomplete, -⟩ := represents_of_run_ok hone hempty hrun
  exact ⟨preload.map_encode_accepted, indexed_of_represents hheaders hcomplete⟩

theorem fresh_run_indexes_files_ofTwoBlocks :
    ofTwoBlocks.headers.length < 2 ^ 32 - 1 ∧
      ofTwoBlocks.accepted = [Block.ofSpend, Block.ofEachForm] ∧
      ∃ summary p', ofTwoBlocks.run (fun _ ↦ .boundless) .fresh = (.ok summary, p') ∧
        ofTwoBlocks.Indexed p'.store.tables := by
  have hheaders : ofTwoBlocks.headers.length < 2 ^ 32 - 1 := by decide +kernel
  have haccepted : ofTwoBlocks.accepted = [Block.ofSpend, Block.ofEachForm] := by decide +kernel
  have hone : ofTwoBlocks.workerCount = 1 := rfl
  have hempty : Progress.fresh.store.tables.Represents Index.empty := Tables.Represents.empty
  obtain ⟨summary, p', hrun⟩ := exists_run_ok hone Media.ample_boundless hempty
  obtain ⟨-, hindexed⟩ := fresh_run_indexes_files hone hheaders rfl hrun
  exact ⟨hheaders, haccepted, summary, p', hrun, hindexed⟩

end TxoIndex.Preload

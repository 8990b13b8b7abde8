import TxoIndex.Proofs.Preload.Reference

/-!
# Resuming a preload

A preload that fails leaves an index in which every row is the first row of its outpoint, unspent or
spent by the first spender. Adding outputs again does not touch such rows, and marking the spends
again marks them with the same spenders. So whatever was done before, the preload that goes through
makes of it what a single preload makes of an empty index, and another one finds nothing to do.
-/

namespace TxoIndex.Preload

def allFunding (preload : Preload) : List FundingRow :=
  (preload.outputBatches preload.blocks).flatMap Batch.funding

def allSpending (preload : Preload) : List SpendingRow :=
  (spendBatches preload.blocks).flatMap Batch.spending

theorem spender_ne_null_of_mem_allSpending {preload : Preload} {row : SpendingRow}
    (h : row ∈ preload.allSpending) : row.spender ≠ Outpoint.null := by
  rw [allSpending, spendBatches_eq_map, List.flatMap_map] at h
  obtain ⟨b, hb, hrow⟩ := List.mem_flatMap.1 h
  have hinput : row ∈ b.inputs := by
    change row ∈ b.spendingRows at hrow
    rw [Block.spendingRows_eq_filter] at hrow
    exact List.mem_of_mem_filter hrow
  exact Block.spender_ne_null (length_encode_le_of_mem_accepted hb) hinput

theorem ne_null_of_firstSpender? {preload : Preload} {o spender : Outpoint}
    (h : Index.firstSpender? preload.allSpending o = some spender) : spender ≠ Outpoint.null := by
  obtain ⟨row, hrow, rfl⟩ := Option.map_eq_some_iff.1 h
  exact spender_ne_null_of_mem_allSpending (List.mem_of_find?_eq_some hrow)

/-- The row of an outpoint after a preload: the first one, spent by the first spender. -/
def finalRow? (preload : Preload) (o : Outpoint) : Option FundingRow :=
  (Index.firstRow? preload.allFunding o).map
    (·.spendByFirst (Index.firstSpender? preload.allSpending o))

theorem rows_complete (preload : Preload) (m : Index) (o : Outpoint) :
    (preload.complete m).rows o =
      ((m.rows o).or (Index.firstRow? preload.allFunding o)).map
        (·.spendByFirst (Index.firstSpender? preload.allSpending o)) := by
  have hspenders : ∀ row ∈ preload.allSpending, row.spender ≠ Outpoint.null :=
    fun _ ↦ spender_ne_null_of_mem_allSpending
  unfold complete
  change (Index.spendAll _ _).rows o = _
  rw [Index.spendAll_eq_spendRows, ← allSpending, Index.rows_spendRows _ hspenders,
    Index.rows_fundAll, ← allFunding]

theorem headers_complete (preload : Preload) (m : Index) (hash : BlockHash) :
    (preload.complete m).headers hash =
      (((preload.outputBatches preload.blocks).reverse.find? fun b ↦ b.hash = hash).map
        Batch.header).or (m.headers hash) := by
  unfold complete
  change (Index.spendAll _ _).headers hash = _
  rw [Index.spendAll_eq_spendRows, Index.headers_spendRows, Index.headers_fundAll]

/-! ## Initial parts -/

/-- What is first in an initial part is first in the whole. -/
theorem firstRow?_of_isPrefix {preload : Preload} {done : List Bytes} (h : done <+: preload.blocks)
    {o : Outpoint} {row : FundingRow}
    (hrow : Index.firstRow? ((preload.outputBatches done).flatMap Batch.funding) o = some row) :
    Index.firstRow? preload.allFunding o = some row := by
  obtain ⟨rest, hrest⟩ := successes_isPrefix (f := outputRows preload.chain) h
  rw [allFunding, outputBatches, ← hrest, List.flatMap_append, Index.firstRow?_append]
  change (Index.firstRow? ((preload.outputBatches done).flatMap Batch.funding) o).or _ = _
  rw [hrow, Option.some_or]

theorem firstSpender?_of_isPrefix {preload : Preload} {done : List Bytes}
    (h : done <+: preload.blocks) {o spender : Outpoint}
    (hspender : Index.firstSpender? ((spendBatches done).flatMap Batch.spending) o = some spender) :
    Index.firstSpender? preload.allSpending o = some spender := by
  obtain ⟨rest, hrest⟩ := successes_isPrefix (f := Batch.spends) h
  rw [allSpending, spendBatches, ← hrest, List.flatMap_append, Index.firstSpender?_append]
  change (Index.firstSpender? ((spendBatches done).flatMap Batch.spending) o).or _ = _
  rw [hspender, Option.some_or]

/-! ## Partial indexes -/

/-- Nothing in the index differs from what a complete preload makes, except that spends may be
missing. -/
structure Partial (preload : Preload) (m : Index) : Prop where
  rows {o : Outpoint} {row : FundingRow} : m.rows o = some row →
    Index.firstRow? preload.allFunding o = some row ∨ preload.finalRow? o = some row
  headers {hash : BlockHash} {header : Header} : m.headers hash = some header →
    ∃ b ∈ preload.outputBatches preload.blocks, b.hash = hash

namespace Partial

variable {preload : Preload} {m : Index}

theorem empty (preload : Preload) : preload.Partial Index.empty where
  rows h := by cases h
  headers h := by cases h

theorem setStage (h : preload.Partial m) (stage : Stage) : preload.Partial (m.setStage stage) where
  rows := h.rows
  headers := h.headers

theorem fundAll (h : preload.Partial m) {done : List Bytes} (hdone : done <+: preload.blocks) :
    preload.Partial (m.fundAll (preload.outputBatches done)) where
  rows := by
    intro o row hrow
    rw [Index.rows_fundAll] at hrow
    rcases Option.or_eq_some_iff.1 hrow with hrow | ⟨-, hrow⟩
    · exact h.rows hrow
    · exact .inl (firstRow?_of_isPrefix hdone hrow)
  headers := by
    intro hash header hheader
    rw [Index.headers_fundAll] at hheader
    rcases Option.or_eq_some_iff.1 hheader with hheader | ⟨-, hheader⟩
    · obtain ⟨b, hb, -⟩ := Option.map_eq_some_iff.1 hheader
      have hmem : b ∈ preload.outputBatches done :=
        List.mem_reverse.1 (List.mem_of_find?_eq_some hb)
      have hhash := List.find?_some hb
      exact ⟨b, (successes_isPrefix hdone).subset hmem, of_decide_eq_true hhash⟩
    · exact h.headers hheader

theorem spendAll (h : preload.Partial m) {done : List Bytes} (hdone : done <+: preload.blocks) :
    preload.Partial (m.spendAll (spendBatches done)) where
  rows := by
    intro o row hrow
    have hspenders : ∀ r ∈ (spendBatches done).flatMap Batch.spending,
        r.spender ≠ Outpoint.null := by
      intro r hr
      obtain ⟨b, hb, hr⟩ := List.mem_flatMap.1 hr
      exact spender_ne_null_of_mem_allSpending
        (List.mem_flatMap.2 ⟨b, (successes_isPrefix hdone).subset hb, hr⟩)
    rw [Index.spendAll_eq_spendRows, Index.rows_spendRows _ hspenders] at hrow
    obtain ⟨before, hbefore, rfl⟩ := Option.map_eq_some_iff.1 hrow
    cases hfirst : Index.firstSpender? ((spendBatches done).flatMap Batch.spending) o with
    | none => exact h.rows hbefore
    | some spender =>
      have hspender := firstSpender?_of_isPrefix hdone hfirst
      right
      rcases h.rows hbefore with hunspent | hfinal
      · rw [finalRow?, hunspent, hspender, Option.map_some]
      · rw [hfinal]
        obtain ⟨first, -, rfl⟩ := Option.map_eq_some_iff.1 hfinal
        rw [hspender]
        exact congrArg some (first.spendByFirst_spendBy (ne_null_of_firstSpender? hspender) _).symm
  headers := by
    intro hash header hheader
    rw [Index.spendAll_eq_spendRows, Index.headers_spendRows] at hheader
    exact h.headers hheader

/-- A preload that fails leaves a partial index. -/
theorem partway (h : preload.Partial m) {m' : Index} (hpart : preload.Partway m m') :
    preload.Partial m' := by
  cases hpart with
  | start => exact h
  | outputs stage hdone => exact (h.fundAll hdone).setStage stage
  | spends stage hdone =>
    exact ((h.fundAll (List.prefix_refl _)).spendAll hdone).setStage stage

/-- What was done before makes no difference. -/
theorem complete_eq (h : preload.Partial m) :
    preload.complete m = preload.complete Index.empty := by
  apply Index.ext
  · funext o
    rw [rows_complete, rows_complete]
    cases hrow : m.rows o with
    | none => rfl
    | some row =>
      rcases h.rows hrow with hfirst | hfinal
      · rw [hfirst]
        rfl
      · obtain ⟨first, hfirst, rfl⟩ := Option.map_eq_some_iff.1 hfinal
        rw [hfirst]
        exact congrArg some (first.spendByFirst_spendByFirst fun _ ↦ ne_null_of_firstSpender?)
  · funext hash
    rw [headers_complete, headers_complete]
    cases hlast : (preload.outputBatches preload.blocks).reverse.find? fun b ↦ b.hash = hash with
    | some b => rfl
    | none =>
      cases hheader : m.headers hash with
      | none => rfl
      | some header =>
        -- The header came from a block of the files, so one of these blocks is the last one.
        obtain ⟨b, hb, hhash⟩ := h.headers hheader
        rw [List.find?_eq_none] at hlast
        exact absurd (decide_eq_true hhash) (hlast b (List.mem_reverse.2 hb))
  · rfl

/-- A complete index is a partial one. -/
theorem complete (h : preload.Partial m) : preload.Partial (preload.complete m) :=
  h.partway (.spends .spendsIndexed (List.prefix_refl _))

end Partial

/-- All outputs are there after a preload. -/
theorem hasOutputs_complete (preload : Preload) (m : Index) :
    HasOutputs (preload.complete m) (preload.outputBatches preload.blocks) := by
  intro b hb row hrow
  have hmem : row ∈ preload.allFunding := List.mem_flatMap.2 ⟨b, hb, hrow⟩
  obtain ⟨first, hfirst⟩ := Index.exists_firstRow?_of_mem hmem
  rw [rows_complete, hfirst, Option.isSome_map, Option.isSome_or, Option.isSome_some, Bool.or_true]

/-- All spends are marked after a preload. -/
theorem hasSpends_complete (preload : Preload) (m : Index) :
    HasSpends (preload.complete m) (spendBatches preload.blocks) := by
  intro b hb row hrow r hr
  have hmem : row ∈ preload.allSpending := List.mem_flatMap.2 ⟨b, hb, hrow⟩
  obtain ⟨spender, hspender⟩ := Index.exists_firstSpender?_of_mem hmem
  rw [rows_complete, hspender] at hr
  obtain ⟨before, -, rfl⟩ := Option.map_eq_some_iff.1 hr
  exact before.isSpent_spendBy (ne_null_of_firstSpender? hspender)

/-! ## Runs -/

/-- The tables that any number of failed preloads leave that started with an empty store. -/
inductive Interrupted (preload : Preload) : Tables → Prop where
  | fresh : Interrupted preload Tables.empty
  | run {p p' : Progress} (media : Media) {e : PreloadError} :
    Interrupted preload p.store.tables → preload.run media p = (.error e, p') →
      Interrupted preload p'.store.tables

theorem Interrupted.exists_partial {preload : Preload} (hone : preload.workerCount = 1) {t : Tables}
    (h : preload.Interrupted t) : ∃ m, t.Represents m ∧ preload.Partial m := by
  induction h with
  | fresh => exact ⟨Index.empty, .empty, .empty preload⟩
  | @run p p' media e _ hrun ih =>
    obtain ⟨m, hm, hpartial⟩ := ih
    rcases run_cases hone media hm with ⟨_, _, hok, -⟩ | ⟨_, _, herror, ⟨m', hm', hpart⟩, -⟩
    · rw [hrun, Prod.mk.injEq] at hok
      cases hok.1
    · rw [hrun, Prod.mk.injEq] at herror
      obtain ⟨-, rfl⟩ := herror
      exact ⟨m', hm', hpartial.partway hpart⟩

theorem represents_of_run_ok {preload : Preload} (hone : preload.workerCount = 1) {media : Media}
    {p p' : Progress} {summary : Summary} {m : Index} (hm : p.store.tables.Represents m)
    (hrun : preload.run media p = (.ok summary, p')) :
    p'.store.tables.Represents (preload.complete m) ∧
      (HasOutputs m (preload.outputBatches preload.blocks) →
        HasSpends m (spendBatches preload.blocks) → SameCounts p.counters summary.counters) := by
  rcases run_cases hone media hm with ⟨_, _, hok, hm', hcounts⟩ | ⟨_, _, herror, -⟩
  · rw [hrun, Prod.mk.injEq, Except.ok.injEq] at hok
    obtain ⟨rfl, rfl⟩ := hok
    exact ⟨hm', hcounts⟩
  · rw [hrun, Prod.mk.injEq] at herror
    cases herror.1

/-- A preload goes through if there always is room. -/
theorem exists_run_ok {preload : Preload} (hone : preload.workerCount = 1) {media : Media}
    (hample : media.Ample) {p : Progress} {m : Index} (hm : p.store.tables.Represents m) :
    ∃ summary p', preload.run media p = (.ok summary, p') := by
  rcases run_cases hone media hm with ⟨summary, p', hok, -⟩ | ⟨_, _, -, -, hscarce⟩
  · exact ⟨summary, p', hok⟩
  · exact absurd hample hscarce

/-- However often a preload over the same files failed before, and wherever it did: the one that
goes through leaves the tables that a single one leaves in an empty store, and there is such a
single one. Another one after it changes no table and reports nothing new. -/
theorem resumed_run_eq_single_run {preload : Preload} (hone : preload.workerCount = 1)
    {media : Media} {p p' : Progress} {summary : Summary}
    (hinterrupted : preload.Interrupted p.store.tables)
    (hrun : preload.run media p = (.ok summary, p')) :
    (∀ media₀ p₀ summary₀ p₀', p₀.store.tables = Tables.empty →
        preload.run media₀ p₀ = (.ok summary₀, p₀') → p'.store.tables = p₀'.store.tables) ∧
      (∃ media₀ p₀ summary₀ p₀', p₀.store.tables = Tables.empty ∧
        preload.run media₀ p₀ = (.ok summary₀, p₀')) ∧
      ∀ media₁ p₁ summary₁ p₁', p₁.store.tables = p'.store.tables →
        p₁.counters = Counters.zero → preload.run media₁ p₁ = (.ok summary₁, p₁') →
        p₁'.store.tables = p'.store.tables ∧ summary₁.counters.outputs = 0 ∧
          summary₁.counters.spends = 0 := by
  obtain ⟨m, hm, hpartial⟩ := hinterrupted.exists_partial hone
  obtain ⟨hm', -⟩ := represents_of_run_ok hone hm hrun
  refine ⟨fun media₀ p₀ summary₀ p₀' hfresh hsingle ↦ ?_, ?_,
    fun media₁ p₁ summary₁ p₁' hsame hzero hagain ↦ ?_⟩
  · have hempty : p₀.store.tables.Represents Index.empty := hfresh ▸ Tables.Represents.empty
    obtain ⟨hm₀, -⟩ := represents_of_run_ok hone hempty hsingle
    rw [hpartial.complete_eq] at hm'
    exact hm'.unique hm₀
  · let p₀ : Progress := { p with store := { p.store with tables := Tables.empty } }
    have hempty : p₀.store.tables.Represents Index.empty := Tables.Represents.empty
    obtain ⟨summary₀, p₀', hsingle⟩ := exists_run_ok hone Media.ample_boundless hempty
    exact ⟨_, p₀, summary₀, p₀', rfl, hsingle⟩
  · rw [← hsame] at hm'
    obtain ⟨hm₁, hcounts⟩ := represents_of_run_ok hone hm' hagain
    rw [hpartial.complete.complete_eq, ← hpartial.complete_eq] at hm₁
    obtain ⟨houtputs, hspends⟩ := hcounts (preload.hasOutputs_complete m)
      (preload.hasSpends_complete m)
    rw [hzero] at houtputs hspends
    exact ⟨(hm₁.unique hm').trans hsame, houtputs, hspends⟩

def mediaFailingAt (number : Nat) : Media := fun access ↦
  if access = number then
    { answer _ _ _ _ := .failed (.full 0)
      accepts _ := true
      flush := .error .corrupted }
  else .boundless

theorem resumed_run_eq_single_run_ofTwoBlocks :
    ∃ e p, ofTwoBlocks.run (mediaFailingAt 2) .fresh = (.error e, p) ∧
      p.store.tables.outpoints.size = 1 ∧
      ∃ summary p' summary₀ p₀', ofTwoBlocks.run (fun _ ↦ .boundless) p = (.ok summary, p') ∧
        ofTwoBlocks.run (fun _ ↦ .boundless) .fresh = (.ok summary₀, p₀') ∧
        p'.store.tables = p₀'.store.tables := by
  have hfailed : (ofTwoBlocks.run (mediaFailingAt 2) .fresh).1.isOk = false := by decide +kernel
  have hsize : (ofTwoBlocks.run (mediaFailingAt 2) .fresh).2.store.tables.outpoints.size = 1 := by
    decide +kernel
  have hone : ofTwoBlocks.workerCount = 1 := rfl
  have hempty : Progress.fresh.store.tables.Represents Index.empty := Tables.Represents.empty
  cases hrun : ofTwoBlocks.run (mediaFailingAt 2) .fresh with
  | mk result p =>
    rw [hrun] at hfailed hsize
    cases result with
    | ok summary => cases hfailed
    | error e =>
      have hinterrupted : ofTwoBlocks.Interrupted p.store.tables :=
        .run (p := .fresh) (mediaFailingAt 2) .fresh hrun
      obtain ⟨m, hm, -⟩ := hinterrupted.exists_partial hone
      obtain ⟨summary, p', hok⟩ := exists_run_ok hone Media.ample_boundless hm
      obtain ⟨summary₀, p₀', hok₀⟩ := exists_run_ok hone Media.ample_boundless hempty
      obtain ⟨hsingle, -⟩ := resumed_run_eq_single_run hone hinterrupted hok
      exact ⟨e, p, rfl, hsize, summary, p', summary₀, p₀', hok, hok₀,
        hsingle _ _ _ _ rfl hok₀⟩

end TxoIndex.Preload

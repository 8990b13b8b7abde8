import TxoIndex.Preload
import TxoIndex.Proofs.Store.Transactions

/-!
# What a block does to an index

In the outputs pass a block adds its header and its rows, in the spends pass it marks what it
spends. On an index neither can fail. Since an output is added once and a spender is set once, the
effect of any number of blocks is read off the list of all their rows: the first row of an outpoint
is the one that is kept, and so is the first spender.
-/

namespace TxoIndex

namespace FundingRow

/-- The row after the first input that spends it, if there is one. -/
def spendByFirst (row : FundingRow) (spender : Option Outpoint) : FundingRow :=
  match spender with
  | none => row
  | some spender => row.spendBy spender

@[simp]
theorem scriptHash_spendByFirst (row : FundingRow) (spender : Option Outpoint) :
    (row.spendByFirst spender).scriptHash = row.scriptHash := by
  cases spender with
  | none => rfl
  | some spender => exact row.scriptHash_spendBy spender

@[simp]
theorem outpoint_spendByFirst (row : FundingRow) (spender : Option Outpoint) :
    (row.spendByFirst spender).txo.outpoint = row.txo.outpoint := by
  cases spender with
  | none => rfl
  | some spender => exact row.outpoint_spendBy spender

@[simp]
theorem value_spendByFirst (row : FundingRow) (spender : Option Outpoint) :
    (row.spendByFirst spender).txo.value = row.txo.value := by
  cases spender with
  | none => rfl
  | some spender =>
    simp only [spendByFirst, spendBy]
    split <;> rfl

theorem isSpent_spendBy (row : FundingRow) {spender : Outpoint}
    (hspender : spender ≠ Outpoint.null) : (row.spendBy spender).txo.isSpent := by
  have hkept : some spender ≠ some Outpoint.null := mt Option.some.inj hspender
  unfold spendBy
  split
  · assumption
  · rw [Txo.isSpent, Txo.stored]
    simp only [readBack_of_ne hkept, Option.isSome_some]

theorem isSpent_spendByFirst (row : FundingRow) {spender : Option Outpoint}
    (hspender : spender ≠ some Outpoint.null) :
    (row.spendByFirst spender).txo.isSpent = (row.txo.isSpent || spender.isSome) := by
  cases spender with
  | none => exact (Bool.or_false _).symm
  | some spender =>
    rw [Option.isSome_some, Bool.or_true]
    exact row.isSpent_spendBy (mt (congrArg some) hspender)

/-- A row that is spent stays so, whatever comes later. -/
theorem spendByFirst_spendBy (row : FundingRow) {first : Outpoint} (hfirst : first ≠ Outpoint.null)
    (later : Option Outpoint) : (row.spendBy first).spendByFirst later = row.spendBy first := by
  cases later with
  | none => rfl
  | some spender => exact spendBy_of_isSpent (row.isSpent_spendBy hfirst) spender

theorem spendByFirst_spendByFirst (row : FundingRow) {first : Option Outpoint}
    (hfirst : ∀ spender, first = some spender → spender ≠ Outpoint.null) :
    (row.spendByFirst first).spendByFirst first = row.spendByFirst first := by
  cases first with
  | none => rfl
  | some spender => exact row.spendByFirst_spendBy (hfirst spender rfl) _

end FundingRow

namespace Index

/-! ## Rows -/

def addRows (m : Index) (rows : List FundingRow) : Index :=
  rows.foldl (fun m row ↦ m.addTxo row.scriptHash row.txo) m

def spendRows (m : Index) (rows : List SpendingRow) : Index :=
  rows.foldl (fun m row ↦ m.spend row.prevout row.spender) m

/-- The first row of an outpoint, as it is read back. -/
def firstRow? (rows : List FundingRow) (o : Outpoint) : Option FundingRow :=
  (rows.find? fun row ↦ row.txo.outpoint = o).map fun row ↦ ⟨row.scriptHash, row.txo.stored⟩

def firstSpender? (rows : List SpendingRow) (o : Outpoint) : Option Outpoint :=
  (rows.find? fun row ↦ row.prevout = o).map SpendingRow.spender

@[simp]
theorem headers_addRows (m : Index) (rows : List FundingRow) :
    (m.addRows rows).headers = m.headers := by
  induction rows generalizing m with
  | nil => rfl
  | cons row rows ih => exact ih _

@[simp]
theorem headers_spendRows (m : Index) (rows : List SpendingRow) :
    (m.spendRows rows).headers = m.headers := by
  induction rows generalizing m with
  | nil => rfl
  | cons row rows ih => exact ih _

theorem firstRow?_cons (row : FundingRow) (rows : List FundingRow) (o : Outpoint) :
    firstRow? (row :: rows) o =
      if o = row.txo.outpoint then some ⟨row.scriptHash, row.txo.stored⟩ else firstRow? rows o := by
  simp only [firstRow?, List.find?_cons]
  by_cases ho : o = row.txo.outpoint
  · subst ho
    simp
  · simp [ho, Ne.symm ho]

theorem firstSpender?_cons (row : SpendingRow) (rows : List SpendingRow) (o : Outpoint) :
    firstSpender? (row :: rows) o =
      if o = row.prevout then some row.spender else firstSpender? rows o := by
  simp only [firstSpender?, List.find?_cons]
  by_cases ho : o = row.prevout
  · subst ho
    simp
  · simp [ho, Ne.symm ho]

theorem firstRow?_append (rows rows' : List FundingRow) (o : Outpoint) :
    firstRow? (rows ++ rows') o = (firstRow? rows o).or (firstRow? rows' o) := by
  rw [firstRow?, List.find?_append, Option.map_or]
  rfl

theorem firstSpender?_append (rows rows' : List SpendingRow) (o : Outpoint) :
    firstSpender? (rows ++ rows') o = (firstSpender? rows o).or (firstSpender? rows' o) := by
  rw [firstSpender?, List.find?_append, Option.map_or]
  rfl

theorem exists_firstRow?_of_mem {rows : List FundingRow} {row : FundingRow} (h : row ∈ rows) :
    ∃ first, firstRow? rows row.txo.outpoint = some first := by
  rw [← Option.isSome_iff_exists, firstRow?, Option.isSome_map, List.find?_isSome]
  exact ⟨row, h, decide_eq_true rfl⟩

theorem exists_firstSpender?_of_mem {rows : List SpendingRow} {row : SpendingRow}
    (h : row ∈ rows) : ∃ first, firstSpender? rows row.prevout = some first := by
  rw [← Option.isSome_iff_exists, firstSpender?, Option.isSome_map, List.find?_isSome]
  exact ⟨row, h, decide_eq_true rfl⟩

/-- The first row of an outpoint is kept, unless there was one before. -/
theorem rows_addRows (m : Index) (rows : List FundingRow) (o : Outpoint) :
    (m.addRows rows).rows o = (m.rows o).or (firstRow? rows o) := by
  induction rows generalizing m with
  | nil => exact (Option.or_none).symm
  | cons row rows ih =>
    change ((m.addTxo row.scriptHash row.txo).addRows rows).rows o = _
    rw [ih, firstRow?_cons]
    simp only [addTxo]
    split
    · rw [Option.or_assoc, Option.some_or]
    · rfl

/-- The first spender of an outpoint is kept. -/
theorem rows_spendRows (m : Index) {rows : List SpendingRow}
    (hrows : ∀ row ∈ rows, row.spender ≠ Outpoint.null) (o : Outpoint) :
    (m.spendRows rows).rows o = (m.rows o).map (·.spendByFirst (firstSpender? rows o)) := by
  induction rows generalizing m with
  | nil => exact Option.map_id'.symm
  | cons row rows ih =>
    obtain ⟨hrow, hrest⟩ := List.forall_mem_cons.1 hrows
    change ((m.spend row.prevout row.spender).spendRows rows).rows o = _
    rw [ih _ hrest, firstSpender?_cons]
    simp only [spend]
    split
    · rw [Option.map_map]
      apply congrArg (Option.map · (m.rows o))
      funext row'
      exact FundingRow.spendByFirst_spendBy row' hrow _
    · rfl

/-! ## Blocks -/

def fund (m : Index) (b : Batch) : Index := (m.putHeader b.hash b.header).addRows b.funding

def fundAll (m : Index) (bs : List Batch) : Index := bs.foldl fund m

def spendAll (m : Index) (bs : List Batch) : Index :=
  bs.foldl (fun m b ↦ m.spendRows b.spending) m

theorem rows_fundAll (m : Index) (bs : List Batch) (o : Outpoint) :
    (m.fundAll bs).rows o = (m.rows o).or (firstRow? (bs.flatMap Batch.funding) o) := by
  induction bs generalizing m with
  | nil => exact Option.or_none.symm
  | cons b bs ih =>
    change ((m.fund b).fundAll bs).rows o = _
    rw [ih, fund, rows_addRows, List.flatMap_cons, firstRow?_append, Option.or_assoc]
    rfl

/-- The last header of a name is kept. -/
theorem headers_fundAll (m : Index) (bs : List Batch) (hash : BlockHash) :
    (m.fundAll bs).headers hash =
      ((bs.reverse.find? fun b ↦ b.hash = hash).map Batch.header).or (m.headers hash) := by
  induction bs generalizing m with
  | nil => rfl
  | cons b bs ih =>
    change ((m.fund b).fundAll bs).headers hash = _
    rw [ih, fund, headers_addRows, List.reverse_cons, List.find?_append, Option.map_or,
      Option.or_assoc]
    congr 1
    simp only [putHeader, List.find?_cons, List.find?_nil]
    by_cases hb : hash = b.hash
    · simp [hb]
    · simp [hb, Ne.symm hb]

theorem spendAll_eq_spendRows (m : Index) (bs : List Batch) :
    m.spendAll bs = m.spendRows (bs.flatMap Batch.spending) := by
  rw [spendAll, spendRows, List.foldl_flatMap]
  rfl

/-- Nothing changes where an outpoint is not indexed or spent already. -/
theorem spend_of_settled {m : Index} {prevout : Outpoint}
    (h : ∀ r, m.rows prevout = some r → r.txo.isSpent) (spender : Outpoint) :
    m.spend prevout spender = m := by
  cases hrow : m.rows prevout with
  | none => exact spend_of_eq_none hrow spender
  | some row => exact spend_of_isSpent hrow (h row hrow) spender

theorem spendRows_of_settled {m : Index} {rows : List SpendingRow}
    (h : ∀ row ∈ rows, ∀ r, m.rows row.prevout = some r → r.txo.isSpent) :
    m.spendRows rows = m := by
  induction rows with
  | nil => rfl
  | cons row rows ih =>
    obtain ⟨hrow, hrows⟩ := List.forall_mem_cons.1 h
    change (m.spend row.prevout row.spender).spendRows rows = m
    rw [spend_of_settled hrow, ih hrows]

/-! ### The stage

It plays no part in what blocks do. -/

theorem stage_addRows (m : Index) (rows : List FundingRow) : (m.addRows rows).stage = m.stage := by
  induction rows generalizing m with
  | nil => rfl
  | cons row rows ih => exact ih _

theorem stage_fundAll (m : Index) (bs : List Batch) : (m.fundAll bs).stage = m.stage := by
  induction bs generalizing m with
  | nil => rfl
  | cons b bs ih => exact (ih _).trans (stage_addRows _ b.funding)

theorem stage_spendRows (m : Index) (rows : List SpendingRow) :
    (m.spendRows rows).stage = m.stage := by
  induction rows generalizing m with
  | nil => rfl
  | cons row rows ih => exact ih _

theorem addRows_setStage (m : Index) (rows : List FundingRow) (stage : Stage) :
    (m.setStage stage).addRows rows = (m.addRows rows).setStage stage := by
  induction rows generalizing m with
  | nil => rfl
  | cons row rows ih => exact ih (m.addTxo row.scriptHash row.txo)

theorem fundAll_setStage (m : Index) (bs : List Batch) (stage : Stage) :
    (m.setStage stage).fundAll bs = (m.fundAll bs).setStage stage := by
  induction bs generalizing m with
  | nil => rfl
  | cons b bs ih =>
    have hfund : (m.setStage stage).fund b = (m.fund b).setStage stage :=
      addRows_setStage (m.putHeader b.hash b.header) b.funding stage
    change ((m.setStage stage).fund b).fundAll bs = ((m.fund b).fundAll bs).setStage stage
    rw [hfund, ih]

theorem spendRows_setStage (m : Index) (rows : List SpendingRow) (stage : Stage) :
    (m.setStage stage).spendRows rows = (m.spendRows rows).setStage stage := by
  induction rows generalizing m with
  | nil => rfl
  | cons row rows ih => exact ih (m.spend row.prevout row.spender)

theorem spendAll_setStage (m : Index) (bs : List Batch) (stage : Stage) :
    (m.setStage stage).spendAll bs = (m.spendAll bs).setStage stage := by
  rw [spendAll_eq_spendRows, spendAll_eq_spendRows, spendRows_setStage]

end Index

theorem SpendTally.spent_add_of_settled (tally : SpendTally) {m : Index} {prevout : Outpoint}
    (h : ∀ r, m.rows prevout = some r → r.txo.isSpent) (spender : Outpoint) :
    (tally.add (m.spent prevout spender)).spent = tally.spent := by
  unfold Index.spent
  cases hrow : m.rows prevout with
  | none => rfl
  | some row =>
    obtain ⟨existing, hexisting⟩ := Option.isSome_iff_exists.1 (h row hrow)
    simp only [hexisting]
    split <;> rfl

/-! ## Units -/

section Units

variable {α β : Type}

theorem runOn_bind_of_ok {unit : WriteUnit α} {f : α → WriteUnit β} {m m' : Index} {a : α}
    (h : unit.runOn m = .ok (a, m')) : (unit >>= f).runOn m = (f a).runOn m' := by
  change (unit.bind f).runOn m = _
  rw [WriteUnit.runOn_bind, h]

theorem runOn_pure (a : α) (m : Index) : (pure a : WriteUnit α).runOn m = .ok (a, m) := rfl

theorem runOn_foldlM_cons_of_ok {f : β → α → WriteUnit β} {b b' : β} {a : α} {as : List α}
    {m m' : Index} (h : (f b a).runOn m = .ok (b', m')) :
    ((a :: as).foldlM f b).runOn m = (as.foldlM f b').runOn m' := by
  rw [List.foldlM_cons, runOn_bind_of_ok h]

end Units

namespace Batch

/-- Rows that are all there already are counted as duplicates. -/
theorem runOn_foldlM_addTxo {f : Nat → FundingRow → WriteUnit Nat}
    (hf : ∀ duplicates row m, (f duplicates row).runOn m =
      .ok (if (m.rows row.txo.outpoint).isSome then duplicates + 1 else duplicates,
        m.addTxo row.scriptHash row.txo))
    (rows : List FundingRow) (before : Nat) (m : Index) :
    ∃ duplicates, (rows.foldlM f before).runOn m = .ok (duplicates, m.addRows rows) ∧
      ((∀ row ∈ rows, (m.rows row.txo.outpoint).isSome) → duplicates = before + rows.length) := by
  induction rows generalizing before m with
  | nil => exact ⟨before, rfl, fun _ ↦ rfl⟩
  | cons row rows ih =>
    obtain ⟨duplicates, hrun, hduplicates⟩ := ih
      (if (m.rows row.txo.outpoint).isSome then before + 1 else before)
      (m.addTxo row.scriptHash row.txo)
    refine ⟨duplicates, ?_, fun hall ↦ ?_⟩
    · rw [runOn_foldlM_cons_of_ok (hf before row m), hrun]
      rfl
    · obtain ⟨hrow, hrows⟩ := List.forall_mem_cons.1 hall
      rw [Index.addTxo_of_isSome hrow] at hduplicates
      rw [hduplicates hrows, if_pos hrow, List.length_cons]
      omega

theorem runOn_fund (b : Batch) (m : Index) :
    ∃ duplicates, b.fund.runOn m = .ok (duplicates, m.fund b) ∧
      ((∀ row ∈ b.funding, (m.rows row.txo.outpoint).isSome) → duplicates = b.funding.length) := by
  have hheader : (WriteUnit.putHeader b.hash b.header).runOn m =
      .ok ((), m.putHeader b.hash b.header) := rfl
  rw [Batch.fund, runOn_bind_of_ok hheader, ← Nat.zero_add b.funding.length]
  refine runOn_foldlM_addTxo (fun duplicates row m ↦ ?_) b.funding 0 (m.putHeader b.hash b.header)
  have hadd : (WriteUnit.addTxo row.scriptHash row.txo).runOn m =
      .ok (m.added row.txo, m.addTxo row.scriptHash row.txo) := rfl
  rw [runOn_bind_of_ok hadd, Index.added]
  cases (m.rows row.txo.outpoint).isSome <;> rfl

/-- Nothing is marked where everything that is there is spent. -/
theorem runOn_foldlM_spend {f : SpendTally → SpendingRow → WriteUnit SpendTally}
    (hf : ∀ tally row m, (f tally row).runOn m =
      .ok (tally.add (m.spent row.prevout row.spender), m.spend row.prevout row.spender))
    (rows : List SpendingRow) (before : SpendTally) (m : Index) :
    ∃ tally, (rows.foldlM f before).runOn m = .ok (tally, m.spendRows rows) ∧
      ((∀ row ∈ rows, ∀ r, m.rows row.prevout = some r → r.txo.isSpent) →
        tally.spent = before.spent) := by
  induction rows generalizing before m with
  | nil => exact ⟨before, rfl, fun _ ↦ rfl⟩
  | cons row rows ih =>
    obtain ⟨tally, hrun, htally⟩ := ih (before.add (m.spent row.prevout row.spender))
      (m.spend row.prevout row.spender)
    refine ⟨tally, ?_, fun hall ↦ ?_⟩
    · rw [runOn_foldlM_cons_of_ok (hf before row m), hrun]
      rfl
    · obtain ⟨hrow, hrows⟩ := List.forall_mem_cons.1 hall
      rw [Index.spend_of_settled hrow] at htally
      rw [htally hrows]
      exact SpendTally.spent_add_of_settled before hrow row.spender

theorem runOn_spendAll (b : Batch) (m : Index) :
    ∃ tally, b.spendAll.runOn m = .ok (tally, m.spendRows b.spending) ∧
      ((∀ row ∈ b.spending, ∀ r, m.rows row.prevout = some r → r.txo.isSpent) →
        tally.spent = 0) := by
  refine runOn_foldlM_spend (fun tally row m ↦ ?_) b.spending .zero m
  have hspend : (WriteUnit.spend row.prevout row.spender).runOn m =
      .ok (m.spent row.prevout row.spender, m.spend row.prevout row.spender) := rfl
  rw [runOn_bind_of_ok hspend, runOn_pure]

end Batch

end TxoIndex

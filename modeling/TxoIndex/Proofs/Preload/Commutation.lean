import TxoIndex.Proofs.Preload.Passes
import TxoIndex.Proofs.Preload.Reference
import TxoIndex.Proofs.Store.Listing

/-!
# The order of blocks

Workers write the blocks of a pass in any order. What the passes leave is read off the lists of all
rows by their first rows and spenders, so the order is seen only where several rows have the same
outpoint. If these agree in a part of what they say, the index is the same in this part, whatever
the order is: outputs of one outpoint always agree in their script hash and value, because the
transaction's name commits to them. If they agree in everything, the tables are the same.
-/

namespace TxoIndex

/-! ## Keys that determine values -/

section Determines

variable {α κ β γ : Type} {xs ys : List α} {key : α → κ} {value : α → β}

/-- Elements of the list with the same key have the same value. -/
def Determines (xs : List α) (key : α → κ) (value : α → β) : Prop :=
  ∀ x ∈ xs, ∀ y ∈ xs, key x = key y → value x = value y

instance [DecidableEq κ] [DecidableEq β] (xs : List α) (key : α → κ) (value : α → β) :
    Decidable (Determines xs key value) :=
  inferInstanceAs (Decidable (∀ x ∈ xs, ∀ y ∈ xs, key x = key y → value x = value y))

theorem Determines.perm (h : Determines xs key value) (hperm : xs.Perm ys) :
    Determines ys key value :=
  fun x hx y hy ↦ h x (hperm.mem_iff.2 hx) y (hperm.mem_iff.2 hy)

theorem Determines.filter (h : Determines xs key value) (p : α → Bool) :
    Determines (xs.filter p) key value :=
  fun x hx y hy ↦ h x (List.mem_of_mem_filter hx) y (List.mem_of_mem_filter hy)

/-- The value of the first element with a key does not depend on the order. -/
theorem Determines.map_find?_eq [DecidableEq κ] (h : Determines xs key value)
    (hperm : xs.Perm ys) (k : κ) :
    (xs.find? fun x ↦ key x = k).map value = (ys.find? fun x ↦ key x = k).map value := by
  cases hx : xs.find? fun x ↦ key x = k with
  | none =>
    rw [List.find?_eq_none] at hx
    rw [List.find?_eq_none.2 fun y hy ↦ hx y (hperm.mem_iff.2 hy)]
  | some x =>
    have hkey := List.find?_some hx
    rw [decide_eq_true_eq] at hkey
    have hmem := List.mem_of_find?_eq_some hx
    cases hy : ys.find? fun x ↦ key x = k with
    | none =>
      rw [List.find?_eq_none] at hy
      exact absurd (decide_eq_true hkey) (hy x (hperm.mem_iff.1 hmem))
    | some y =>
      have hkey' := List.find?_some hy
      rw [decide_eq_true_eq] at hkey'
      have hmem' := hperm.mem_iff.2 (List.mem_of_find?_eq_some hy)
      exact congrArg some (h x hmem y hmem' (hkey.trans hkey'.symm))

theorem isSome_find?_eq_of_perm (hperm : xs.Perm ys) (p : α → Bool) :
    (xs.find? p).isSome = (ys.find? p).isSome := by
  rw [Bool.eq_iff_iff, List.find?_isSome, List.find?_isSome]
  simp only [hperm.mem_iff]

end Determines

/-- What an output says apart from its height and its spender. -/
def Txo.view (txo : Txo) : Outpoint × UInt64 × Bool := (txo.outpoint, txo.value, txo.isSpent)

/-! ## Passes over an index -/

namespace Index

/-- Spends by the null outpoint can be left out. -/
theorem spendRows_eq_filter (m : Index) (rows : List SpendingRow) :
    m.spendRows rows = m.spendRows (rows.filter fun row ↦ row.spender ≠ Outpoint.null) := by
  induction rows generalizing m with
  | nil => rfl
  | cons row rows ih =>
    by_cases hnull : row.spender = Outpoint.null
    · rw [List.filter_cons_of_neg (by simp [hnull]), ← ih]
      change (m.spend row.prevout row.spender).spendRows rows = m.spendRows rows
      rw [hnull, spend_null]
    · rw [List.filter_cons_of_pos (by simp [hnull])]
      exact ih (m.spend row.prevout row.spender)

/-- The index of two passes over rows. -/
def ofPasses (funded spent : List Batch) : Index := (empty.fundAll funded).spendAll spent

def marking (spent : List Batch) : List SpendingRow :=
  (spent.flatMap Batch.spending).filter fun row ↦ row.spender ≠ Outpoint.null

theorem firstSpender?_marking_ne_null (spent : List Batch) (o : Outpoint) :
    firstSpender? (marking spent) o ≠ some Outpoint.null := by
  intro h
  obtain ⟨row, hrow, hnull⟩ := Option.map_eq_some_iff.1 h
  have hmem := (List.mem_filter.1 (List.mem_of_find?_eq_some hrow)).2
  exact of_decide_eq_true hmem hnull

theorem rows_ofPasses (funded spent : List Batch) (o : Outpoint) :
    (ofPasses funded spent).rows o = (firstRow? (funded.flatMap Batch.funding) o).map
      (·.spendByFirst (firstSpender? (marking spent) o)) := by
  have hmarking : ∀ row ∈ marking spent, row.spender ≠ Outpoint.null :=
    fun row hrow ↦ of_decide_eq_true (List.mem_filter.1 hrow).2
  rw [ofPasses, spendAll_eq_spendRows, spendRows_eq_filter, ← marking,
    rows_spendRows _ hmarking, rows_fundAll]
  rfl

theorem headers_ofPasses (funded spent : List Batch) (hash : BlockHash) :
    (ofPasses funded spent).headers hash =
      (funded.reverse.find? fun b ↦ b.hash = hash).map Batch.header := by
  rw [ofPasses, spendAll_eq_spendRows, headers_spendRows, headers_fundAll]
  exact Option.or_none

theorem stage_ofPasses (funded spent : List Batch) : (ofPasses funded spent).stage = none := by
  rw [ofPasses, spendAll_eq_spendRows, stage_spendRows, stage_fundAll]
  rfl

section Order

variable {funded funded' spent spent' : List Batch} (hfunded : funded.Perm funded')
  (hspent : spent.Perm spent')

include hfunded in
theorem map_firstRow?_eq {β : Type} {view : FundingRow → β}
    (h : Determines (funded.flatMap Batch.funding) (fun row ↦ row.txo.outpoint)
      fun row ↦ view ⟨row.scriptHash, row.txo.stored⟩) (o : Outpoint) :
    (firstRow? (funded.flatMap Batch.funding) o).map view =
      (firstRow? (funded'.flatMap Batch.funding) o).map view := by
  rw [firstRow?, firstRow?, Option.map_map, Option.map_map]
  exact h.map_find?_eq (hfunded.flatMap_right _) o

include hspent in
theorem marking_perm : (marking spent).Perm (marking spent') :=
  (hspent.flatMap_right _).filter _

include hspent in
theorem isSome_firstSpender?_marking (o : Outpoint) :
    (firstSpender? (marking spent) o).isSome = (firstSpender? (marking spent') o).isSome := by
  rw [firstSpender?, firstSpender?, Option.isSome_map, Option.isSome_map]
  exact isSome_find?_eq_of_perm (marking_perm hspent) _

include hfunded hspent in
/-- Where outputs of one outpoint agree in script hash and value, the index does so in any order,
and in whether they are spent. -/
theorem map_view_rows_ofPasses
    (hunspent : ∀ row ∈ funded.flatMap Batch.funding, row.txo.spentBy = none)
    (hagree : Determines (funded.flatMap Batch.funding) (fun row ↦ row.txo.outpoint)
      fun row ↦ (row.scriptHash, row.txo.value)) (o : Outpoint) :
    ((ofPasses funded spent).rows o).map (fun row ↦ (row.scriptHash, row.txo.view)) =
      ((ofPasses funded' spent').rows o).map fun row ↦ (row.scriptHash, row.txo.view) := by
  have hview (batches : List Batch) (row : FundingRow) :
      (row.spendByFirst (firstSpender? (marking batches) o)).txo.view =
        (row.txo.outpoint, row.txo.value,
          row.txo.isSpent || (firstSpender? (marking batches) o).isSome) := by
    simp only [Txo.view, FundingRow.outpoint_spendByFirst, FundingRow.value_spendByFirst,
      row.isSpent_spendByFirst (firstSpender?_marking_ne_null batches o)]
  rw [rows_ofPasses, rows_ofPasses, Option.map_map, Option.map_map]
  simp only [Function.comp_def, FundingRow.scriptHash_spendByFirst, hview,
    ← isSome_firstSpender?_marking hspent]
  apply map_firstRow?_eq hfunded
  intro row hrow row' hrow' ho
  have hsame := Prod.mk.inj (hagree row hrow row' hrow' ho)
  simp only [Txo.stored, Txo.isSpent, hunspent row hrow, hunspent row' hrow', hsame.1, hsame.2, ho]

include hfunded in
theorem reverse_perm_reverse : funded.reverse.Perm funded'.reverse :=
  (List.reverse_perm funded).trans (hfunded.trans (List.reverse_perm funded').symm)

include hfunded in
theorem isSome_headers_ofPasses (hash : BlockHash) :
    ((ofPasses funded spent).headers hash).isSome =
      ((ofPasses funded' spent').headers hash).isSome := by
  rw [headers_ofPasses, headers_ofPasses, Option.isSome_map, Option.isSome_map]
  exact isSome_find?_eq_of_perm (reverse_perm_reverse hfunded) _

include hfunded hspent in
/-- Where everything of one outpoint or name agrees, the order makes no difference. -/
theorem ofPasses_eq
    (hrows : Determines (funded.flatMap Batch.funding) (fun row ↦ row.txo.outpoint) id)
    (hspenders : Determines (spent.flatMap Batch.spending) SpendingRow.prevout SpendingRow.spender)
    (hheaders : Determines funded Batch.hash Batch.header) :
    ofPasses funded spent = ofPasses funded' spent' := by
  apply Index.ext
  · funext o
    have hstored : Determines (funded.flatMap Batch.funding) (fun row ↦ row.txo.outpoint)
        fun row ↦ id (⟨row.scriptHash, row.txo.stored⟩ : FundingRow) := by
      intro row hmem row' hmem' ho
      rw [show row = row' from hrows row hmem row' hmem' ho]
    have hrow := map_firstRow?_eq hfunded hstored o
    have hspender : firstSpender? (marking spent) o = firstSpender? (marking spent') o :=
      (hspenders.filter _).map_find?_eq (marking_perm hspent) o
    rw [Option.map_id, id, id] at hrow
    rw [rows_ofPasses, rows_ofPasses, hrow, hspender]
  · funext hash
    rw [headers_ofPasses, headers_ofPasses]
    exact (hheaders.perm (List.reverse_perm funded).symm).map_find?_eq
      (reverse_perm_reverse hfunded) hash
  · rw [stage_ofPasses, stage_ofPasses]

end Order

end Index

/-! ## Passes over a store -/

namespace Store

/-- Units that were written one after another, and all committed. -/
inductive Writes {α : Type} : List (WriteUnit α) → Store → Store → Prop where
  | nil (s : Store) : Writes [] s s
  | cons {s s' s'' : Store} (medium : Medium) {unit : WriteUnit α} {units : List (WriteUnit α)}
    {a : α} : s.write medium unit = (.ok a, s') → Writes units s' s'' → Writes (unit :: units) s s''

/-- Units for blocks that do to an index what `f` says. -/
theorem Writes.represents {α : Type} {unit : Batch → WriteUnit α} {f : Index → Batch → Index}
    (hunit : ∀ b m, ∃ a, (unit b).runOn m = .ok (a, f m b)) {bs : List Batch} {s s' : Store}
    {m : Index} (h : Writes (bs.map unit) s s') (hm : s.tables.Represents m) :
    s'.tables.Represents (bs.foldl f m) := by
  induction bs generalizing s m with
  | nil =>
    cases h
    exact hm
  | cons b bs ih =>
    cases h with
    | cons medium hwrite hrest =>
      obtain ⟨a, hrun⟩ := hunit b m
      obtain ⟨t', ht', hm'⟩ := hm.run_of_runOn_ok hrun
      have htables := tables_of_write_ok hwrite
      rw [ht', Except.ok.injEq, Prod.mk.injEq] at htables
      exact ih hrest (htables.2 ▸ hm')

theorem exists_writes {α : Type} {unit : Batch → WriteUnit α} {f : Index → Batch → Index}
    (hunit : ∀ b m, ∃ a, (unit b).runOn m = .ok (a, f m b)) (bs : List Batch) {s : Store}
    {m : Index} (hm : s.tables.Represents m) : ∃ s', Writes (bs.map unit) s s' := by
  induction bs generalizing s m with
  | nil => exact ⟨s, .nil s⟩
  | cons b bs ih =>
    obtain ⟨a, hrun⟩ := hunit b m
    obtain ⟨t', ht', hm'⟩ := hm.run_of_runOn_ok hrun
    obtain ⟨s₁, hwrite⟩ := write_of_fits (fun _ _ _ _ ↦ rfl : ∀ attempt number mapSize t,
      Medium.boundless.answer attempt number mapSize t = .fits) ht'
    have htables := tables_of_write_ok hwrite
    rw [ht', Except.ok.injEq, Prod.mk.injEq] at htables
    obtain ⟨s', hrest⟩ := ih (htables.2 ▸ hm')
    exact ⟨s', .cons .boundless hwrite hrest⟩

end Store

theorem Batch.exists_runOn_fund (b : Batch) (m : Index) :
    ∃ duplicates, b.fund.runOn m = .ok (duplicates, m.fund b) := by
  obtain ⟨duplicates, hrun, -⟩ := b.runOn_fund m
  exact ⟨duplicates, hrun⟩

theorem Batch.exists_runOn_spendAll (b : Batch) (m : Index) :
    ∃ tally, b.spendAll.runOn m = .ok (tally, m.spendRows b.spending) := by
  obtain ⟨tally, hrun, -⟩ := b.runOn_spendAll m
  exact ⟨tally, hrun⟩

/-- The bytes of a block, and the height that it is given. -/
structure PlacedBlock where
  bytes : Bytes
  height : Option UInt32

namespace PlacedBlock

def outputs (blocks : List PlacedBlock) : List Batch :=
  successes (fun b ↦ Batch.outputs b.bytes b.height) blocks

def spends (blocks : List PlacedBlock) : List Batch :=
  successes (fun b ↦ Batch.spends b.bytes) blocks

def fundingRows (blocks : List PlacedBlock) : List FundingRow :=
  (outputs blocks).flatMap Batch.funding

def spendingRows (blocks : List PlacedBlock) : List SpendingRow :=
  (spends blocks).flatMap Batch.spending

theorem successes_perm {ε β : Type} {f : PlacedBlock → Except ε β}
    {blocks blocks' : List PlacedBlock} (h : blocks.Perm blocks') :
    (successes f blocks).Perm (successes f blocks') :=
  h.filterMap _

theorem spentBy_eq_none_of_mem_fundingRows {blocks : List PlacedBlock} {row : FundingRow}
    (h : row ∈ fundingRows blocks) : row.txo.spentBy = none := by
  obtain ⟨batch, hbatch, hrow⟩ := List.mem_flatMap.1 h
  obtain ⟨placed, -, houtputs⟩ := mem_successes.1 hbatch
  obtain ⟨b, -, -, rfl⟩ := Batch.outputs_eq_ok_iff.1 houtputs
  obtain ⟨tx, -, hrow⟩ := List.mem_flatMap.1 hrow
  obtain ⟨output, -, rfl⟩ := List.mem_map.1 hrow
  rfl

/-- Nothing is left in which rows of one outpoint could differ. -/
theorem determines_fundingRows {blocks : List PlacedBlock}
    (hagree : Determines (fundingRows blocks) (fun row ↦ row.txo.outpoint)
      fun row ↦ (row.scriptHash, row.txo.value))
    (hheights : Determines (fundingRows blocks) (fun row ↦ row.txo.outpoint)
      fun row ↦ row.txo.height) :
    Determines (fundingRows blocks) (fun row ↦ row.txo.outpoint) id := by
  intro row hrow row' hrow' ho
  obtain ⟨hscript, hvalue⟩ := Prod.mk.inj (hagree row hrow row' hrow' ho)
  have hheight := hheights row hrow row' hrow' ho
  have hunspent := spentBy_eq_none_of_mem_fundingRows hrow
  rw [← spentBy_eq_none_of_mem_fundingRows hrow'] at hunspent
  obtain ⟨scriptHash, ⟨outpoint, height, value, spentBy⟩⟩ := row
  obtain ⟨scriptHash', ⟨outpoint', height', value', spentBy'⟩⟩ := row'
  simp only at ho hscript hvalue hheight hunspent
  rw [ho, hscript, hvalue, hheight, hunspent]

/-- A store that was empty, after the outputs of blocks were written in one order and what they
spend in another. -/
def Written (funded spent : List PlacedBlock) (s : Store) : Prop :=
  ∃ s₀ s₁, s₀.tables = Tables.empty ∧ Store.Writes ((outputs funded).map Batch.fund) s₀ s₁ ∧
    Store.Writes ((spends spent).map Batch.spendAll) s₁ s

theorem Written.represents {funded spent : List PlacedBlock} {s : Store}
    (h : Written funded spent s) :
    s.tables.Represents (Index.ofPasses (outputs funded) (spends spent)) := by
  obtain ⟨s₀, s₁, hempty, hfund, hspend⟩ := h
  have hm : s₀.tables.Represents Index.empty := hempty ▸ Tables.Represents.empty
  exact hspend.represents Batch.exists_runOn_spendAll
    (hfund.represents Batch.exists_runOn_fund hm)

theorem exists_written (funded spent : List PlacedBlock) : ∃ s, Written funded spent s := by
  have hempty : Progress.fresh.store.tables.Represents Index.empty := Tables.Represents.empty
  obtain ⟨s₁, hfund⟩ := Store.exists_writes Batch.exists_runOn_fund (outputs funded) hempty
  obtain ⟨s, hspend⟩ := Store.exists_writes Batch.exists_runOn_spendAll (spends spent)
    (hfund.represents Batch.exists_runOn_fund hempty)
  exact ⟨s, _, s₁, rfl, hfund, hspend⟩

/-- The passes over the same blocks in other orders. If outputs of one outpoint have the same script
hash and value, the outpoint table and the names of the headers are the same, and the same outputs
are listed under every script hash, with the same values, and the same of them are spent. If they
have the same height as well, no outpoint is spent by two inputs, and no two headers have the same
name, all tables are the same. -/
theorem written_perm {blocks funded funded' spent spent' : List PlacedBlock}
    (hfunded : funded.Perm blocks) (hfunded' : funded'.Perm blocks) (hspent : spent.Perm blocks)
    (hspent' : spent'.Perm blocks) {s s' : Store} (h : Written funded spent s)
    (h' : Written funded' spent' s')
    (hagree : Determines (fundingRows blocks) (fun row ↦ row.txo.outpoint)
      fun row ↦ (row.scriptHash, row.txo.value)) :
    s.tables.outpoints = s'.tables.outpoints ∧
      s.tables.headers.keys = s'.tables.headers.keys ∧
      (∀ scriptHash, (s.tables.txos? scriptHash).map (Option.map (List.map Txo.view)) =
        (s'.tables.txos? scriptHash).map (Option.map (List.map Txo.view))) ∧
      (Determines (fundingRows blocks) (fun row ↦ row.txo.outpoint) (fun row ↦ row.txo.height) →
        Determines (spendingRows blocks) SpendingRow.prevout SpendingRow.spender →
        Determines (outputs blocks) Batch.hash Batch.header → s.tables = s'.tables) := by
  have hm := h.represents
  have hm' := h'.represents
  have houtputs : (outputs funded).Perm (outputs funded') :=
    successes_perm (hfunded.trans hfunded'.symm)
  have hspends : (spends spent).Perm (spends spent') :=
    successes_perm (hspent.trans hspent'.symm)
  have hrows : (fundingRows blocks).Perm (fundingRows funded) :=
    (successes_perm hfunded.symm).flatMap_right _
  have hview := Index.map_view_rows_ofPasses houtputs hspends
    (fun _ ↦ spentBy_eq_none_of_mem_fundingRows) (hagree.perm hrows)
  refine ⟨?_, ?_, fun scriptHash ↦ hm.map_txos?_eq hm' hview scriptHash, ?_⟩
  · apply Table.Spells.unique (hm.outpoints.congr fun o ↦ ?_) hm'.outpoints
    have hscript := congrArg (Option.map fun p ↦ p.1.bytes) (hview o)
    rw [Option.map_map, Option.map_map] at hscript
    exact hscript
  · have hnames (hash : BlockHash) :
        ((Index.ofPasses (outputs funded) (spends spent)).headers hash).isSome =
          ((Index.ofPasses (outputs funded') (spends spent')).headers hash).isSome :=
      Index.isSome_headers_ofPasses houtputs hash
    apply Bucket.eq_of_ascending Std.ExtTreeMap.ordered_keys Std.ExtTreeMap.ordered_keys
    intro key
    rw [Std.ExtTreeMap.mem_keys, Std.ExtTreeMap.mem_keys, hm.headers.mem_iff,
      hm'.headers.mem_iff]
    simp only [hnames]
  · intro hheights hspenders hheaders
    have hsame : Index.ofPasses (outputs funded) (spends spent) =
        Index.ofPasses (outputs funded') (spends spent') := by
      apply Index.ofPasses_eq houtputs hspends
      · exact (determines_fundingRows hagree hheights).perm hrows
      · exact hspenders.perm ((successes_perm hspent.symm).flatMap_right _)
      · exact hheaders.perm (successes_perm hfunded.symm)
    exact hm.unique (hsame ▸ hm')

/-- Two blocks, one of them twice, in other orders. -/
theorem written_perm_ofUpperTwice :
    let upper : PlacedBlock := ⟨Block.upper.encode, some 1⟩
    let lower : PlacedBlock := ⟨Block.lower.encode, some 0⟩
    (fundingRows [upper, lower, upper]).length = 3 ∧
      (spendingRows [upper, lower, upper]).length = 2 ∧
      ∃ s s', Written [upper, lower, upper] [lower, upper, upper] s ∧
        Written [upper, upper, lower] [upper, lower, upper] s' ∧ s.tables = s'.tables := by
  intro upper lower
  -- One evaluation, because all of this is about the same digests.
  have hrows : (fundingRows [upper, lower, upper]).length = 3 ∧
      (spendingRows [upper, lower, upper]).length = 2 ∧
      Determines (fundingRows [upper, lower, upper]) (fun row ↦ row.txo.outpoint)
        (fun row ↦ (row.scriptHash, row.txo.value)) ∧
      Determines (fundingRows [upper, lower, upper]) (fun row ↦ row.txo.outpoint)
        (fun row ↦ row.txo.height) ∧
      Determines (spendingRows [upper, lower, upper]) SpendingRow.prevout SpendingRow.spender ∧
      Determines (outputs [upper, lower, upper]) Batch.hash Batch.header := by decide +kernel
  obtain ⟨hfunding, hspending, hagree, hheights, hspenders, hheaders⟩ := hrows
  obtain ⟨s, hs⟩ := exists_written [upper, lower, upper] [lower, upper, upper]
  obtain ⟨s', hs'⟩ := exists_written [upper, upper, lower] [upper, lower, upper]
  have hlast : [upper, upper, lower].Perm [upper, lower, upper] := (List.Perm.swap _ _ _).cons _
  have hfirst : [lower, upper, upper].Perm [upper, lower, upper] := List.Perm.swap _ _ _
  obtain ⟨-, -, -, hcomplete⟩ := written_perm (List.Perm.refl _) hlast hfirst (List.Perm.refl _)
    hs hs' hagree
  exact ⟨hfunding, hspending, s, s', hs, hs', hcomplete hheights hspenders hheaders⟩

end PlacedBlock

end TxoIndex

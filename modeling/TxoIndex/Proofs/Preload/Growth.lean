import TxoIndex.Proofs.Chain.Traversal
import TxoIndex.Proofs.Preload.Correctness
import TxoIndex.Proofs.Store.Listing

/-!
# More block files

A preload of more files than before finds the outputs of the first files in the index and leaves
them as they are. Their spenders are the first ones all the same, also where the spending input was
found before the output. But their heights are those that the headers of the first files gave, and a
block whose ancestors came later had none then. So the index is that of a single preload of all
files, up to the heights of such outputs: each of them is unknown or the same.
-/

namespace TxoIndex

def FundingRow.withHeight (row : FundingRow) (height : Option UInt32) : FundingRow :=
  { row with txo := { row.txo with height } }

theorem FundingRow.spendByFirst_withHeight (row : FundingRow) {height : Option UInt32}
    (h : height ≠ some Txo.unknownHeight) (spender : Option Outpoint) :
    (row.withHeight height).spendByFirst spender =
      (row.spendByFirst spender).withHeight height := by
  cases spender with
  | none => rfl
  | some spender =>
    have hspent : (row.withHeight height).txo.isSpent = row.txo.isSpent := rfl
    simp only [spendByFirst, spendBy, hspent]
    split
    · rfl
    · simp only [withHeight, Txo.stored, readBack_of_ne h]

namespace Preload

def grow (preload : Preload) (more : List (Option Bytes)) : Preload :=
  { preload with files := preload.files ++ more }

variable (preload : Preload) (more : List (Option Bytes))

/-! ## The first files -/

theorem blocks_isPrefix_grow : preload.blocks <+: (preload.grow more).blocks := by
  rw [blocks, blocks, grow, List.reduceOption_append, List.flatMap_append]
  exact List.prefix_append _ _

theorem headers_isPrefix_grow : preload.headers <+: (preload.grow more).headers := by
  rw [headers, headers, grow, List.reduceOption_append, List.flatMap_append]
  exact List.prefix_append _ _

theorem accepted_isPrefix_grow : preload.accepted <+: (preload.grow more).accepted :=
  successes_isPrefix (preload.blocks_isPrefix_grow more)

variable {preload more}

/-- What creates an outpoint first in the first files does so in all files. -/
theorem creation?_grow {o : Outpoint} {c : CreatedOutput} (h : preload.creation? o = some c) :
    (preload.grow more).creation? o = some c := by
  obtain ⟨rest, hrest⟩ := preload.accepted_isPrefix_grow more
  rw [creation?, ← hrest, List.flatMap_append]
  exact List.IsPrefix.find?_eq_some (List.prefix_append _ _) h

theorem firstSpender?_allSpending_grow {o spender : Outpoint}
    (h : Index.firstSpender? preload.allSpending o = some spender) :
    Index.firstSpender? (preload.grow more).allSpending o = some spender :=
  firstSpender?_of_isPrefix (preload.blocks_isPrefix_grow more) h

/-- A name that has a header in the first files has one in all files. -/
theorem lastHeader?_grow_ne_none {hash : BlockHash} {header : Header}
    (h : preload.lastHeader? hash = some header) : (preload.grow more).lastHeader? hash ≠ none := by
  obtain ⟨b, hb, -⟩ := Option.map_eq_some_iff.1 h
  have hmem := List.mem_reverse.1 (List.mem_of_find?_eq_some hb)
  have hmem' := (preload.accepted_isPrefix_grow more).subset hmem
  have hhash := List.find?_some hb
  rw [lastHeader?, ne_eq, Option.map_eq_none_iff, List.find?_eq_none]
  intro hnone
  exact hnone b (List.mem_reverse.2 hmem') hhash

/-- A height that the first files give is given by all files. -/
theorem storedHeight?_grow (hgrounded : ∀ header ∈ (preload.grow more).headers,
    header.hash ≠ Hash.zero) {block : BlockHash} {height : UInt32}
    (h : preload.storedHeight? block = some height) :
    (preload.grow more).storedHeight? block = some height := by
  obtain ⟨rest, hrest⟩ := preload.headers_isPrefix_grow more
  obtain ⟨height', hheight', rfl⟩ := Option.map_eq_some_iff.1 h
  rw [← hrest] at hgrounded
  rw [storedHeight?, chain, ← hrest, Chain.height?_append rest
    (HeaderLinks.isGrounded_ofHeaders hgrounded) hheight', Option.map_some]

/-! ## Two preloads -/

variable (preload)

/-- An output of all files, as it is in an index that the first files were put in before: if one of
their blocks created it, it has the height that their headers give to this block. -/
def withEarlierHeight (txo : Txo) : Txo :=
  match preload.creation? txo.outpoint with
  | none => txo
  | some c => { txo with height := readBack Txo.unknownHeight (preload.storedHeight? c.block) }

def earlierRow (row : FundingRow) : FundingRow :=
  { row with txo := preload.withEarlierHeight row.txo }

variable {preload} in
theorem earlierRow_of_creation? {row : FundingRow} {c : CreatedOutput}
    (h : preload.creation? row.txo.outpoint = some c) : preload.earlierRow row =
      row.withHeight (readBack Txo.unknownHeight (preload.storedHeight? c.block)) := by
  simp only [earlierRow, withEarlierHeight, h, FundingRow.withHeight]

variable {preload} in
theorem earlierRow_of_creation?_eq_none {row : FundingRow}
    (h : preload.creation? row.txo.outpoint = none) : preload.earlierRow row = row := by
  simp only [earlierRow, withEarlierHeight, h]

theorem earlierRow_spendByFirst (row : FundingRow) (spender : Option Outpoint) :
    preload.earlierRow (row.spendByFirst spender) =
      (preload.earlierRow row).spendByFirst spender := by
  have houtpoint := row.outpoint_spendByFirst spender
  cases hcreation : preload.creation? row.txo.outpoint with
  | none =>
    rw [earlierRow_of_creation?_eq_none hcreation,
      earlierRow_of_creation?_eq_none (houtpoint ▸ hcreation)]
  | some c =>
    rw [earlierRow_of_creation? hcreation, earlierRow_of_creation? (houtpoint ▸ hcreation),
      row.spendByFirst_withHeight (readBack_ne_some _ _)]

/-- The first row in the first files comes before the first one in all files. -/
theorem firstRow?_or_grow (more : List (Option Bytes)) (o : Outpoint) :
    (Index.firstRow? preload.allFunding o).or
        (Index.firstRow? (preload.grow more).allFunding o) =
      (Index.firstRow? (preload.grow more).allFunding o).map preload.earlierRow := by
  rw [firstRow?_allFunding, firstRow?_allFunding, Option.map_map]
  cases hcreation : preload.creation? o with
  | none =>
    rw [Option.map_none, Option.none_or]
    apply Option.map_congr
    intro c hc
    rw [← outpoint_of_creation? hc] at hcreation
    exact (earlierRow_of_creation?_eq_none hcreation).symm
  | some c =>
    rw [creation?_grow hcreation, Option.map_some, Option.map_some, Option.some_or]
    rw [← outpoint_of_creation? hcreation] at hcreation
    have hrow : preload.earlierRow ⟨((preload.grow more).rowOf c).scriptHash,
        ((preload.grow more).rowOf c).txo.stored⟩ = _ := earlierRow_of_creation? hcreation
    exact congrArg some hrow.symm

/-- The index after both preloads is that of the second one, up to heights. -/
theorem rows_complete_complete (more : List (Option Bytes)) (o : Outpoint) :
    ((preload.grow more).complete (preload.complete Index.empty)).rows o =
      (((preload.grow more).complete Index.empty).rows o).map preload.earlierRow := by
  have hempty (q : Preload) : (q.complete Index.empty).rows o =
      (Index.firstRow? q.allFunding o).map
        (·.spendByFirst (Index.firstSpender? q.allSpending o)) :=
    q.rows_complete Index.empty o
  -- An output that the first preload marked is marked with the same spender again.
  have hspender (row : FundingRow) :
      (row.spendByFirst (Index.firstSpender? preload.allSpending o)).spendByFirst
          (Index.firstSpender? (preload.grow more).allSpending o) =
        row.spendByFirst (Index.firstSpender? (preload.grow more).allSpending o) := by
    cases hfirst : Index.firstSpender? preload.allSpending o with
    | none => rfl
    | some spender =>
      rw [firstSpender?_allSpending_grow hfirst]
      exact row.spendByFirst_spendBy (ne_null_of_firstSpender? hfirst) _
  calc
    ((preload.grow more).complete (preload.complete Index.empty)).rows o =
        ((Index.firstRow? preload.allFunding o).or
          (Index.firstRow? (preload.grow more).allFunding o)).map
            (·.spendByFirst (Index.firstSpender? (preload.grow more).allSpending o)) := by
      rw [rows_complete, hempty]
      cases Index.firstRow? preload.allFunding o with
      | none => rfl
      | some row => exact congrArg some (hspender row)
    _ = (((preload.grow more).complete Index.empty).rows o).map preload.earlierRow := by
      rw [firstRow?_or_grow, hempty, Option.map_map, Option.map_map]
      apply congrArg (Option.map · _)
      funext row
      exact (preload.earlierRow_spendByFirst row _).symm

theorem headers_complete_complete (more : List (Option Bytes)) :
    ((preload.grow more).complete (preload.complete Index.empty)).headers =
      ((preload.grow more).complete Index.empty).headers := by
  funext hash
  rw [headers_complete_eq_or, headers_complete_empty, headers_complete_empty]
  cases hlast : preload.lastHeader? hash with
  | none => exact Option.or_none
  | some header =>
    obtain ⟨last, hlast'⟩ := Option.ne_none_iff_exists'.1 (lastHeader?_grow_ne_none hlast)
    rw [hlast', Option.some_or]

/-- An output has the height of the first block that created it. -/
theorem exists_row_of_creation? {o : Outpoint} {c : CreatedOutput}
    (h : preload.creation? o = some c) :
    ∃ row, (preload.complete Index.empty).rows o = some row ∧
      row.scriptHash = Hash.single c.output.script ∧
      row.txo.height = readBack Txo.unknownHeight (preload.storedHeight? c.block) := by
  let first : FundingRow := ⟨(preload.rowOf c).scriptHash, (preload.rowOf c).txo.stored⟩
  let spender := Index.firstSpender? preload.allSpending o
  -- The height is set already, so to set it is not to change the row.
  have hheight : first.spendByFirst spender = (first.spendByFirst spender).withHeight
      (readBack Txo.unknownHeight (preload.storedHeight? c.block)) :=
    first.spendByFirst_withHeight (readBack_ne_some _ _) spender
  refine ⟨first.spendByFirst spender, ?_, ?_, ?_⟩
  · rw [rows_complete, firstRow?_allFunding, h]
    rfl
  · rw [FundingRow.scriptHash_spendByFirst]
    rfl
  · rw [hheight]
    rfl

/-- An earlier height is missing or right. -/
theorem withEarlierHeight_eq_or (more : List (Option Bytes))
    (hgrounded : ∀ header ∈ (preload.grow more).headers, header.hash ≠ Hash.zero) {s : ScriptHash}
    {txo : Txo} (hrow : ((preload.grow more).complete Index.empty).rows txo.outpoint =
      some ⟨s, txo⟩) :
    (preload.withEarlierHeight txo).height = none ∨ preload.withEarlierHeight txo = txo := by
  cases hcreation : preload.creation? txo.outpoint with
  | none =>
    right
    simp only [withEarlierHeight, hcreation]
  | some c =>
    have hheight : txo.height =
        readBack Txo.unknownHeight ((preload.grow more).storedHeight? c.block) := by
      obtain ⟨row, hrow', -, hheight⟩ :=
        (preload.grow more).exists_row_of_creation? (creation?_grow hcreation)
      rw [hrow, Option.some.injEq] at hrow'
      rw [← hheight, ← hrow']
    cases hstored : preload.storedHeight? c.block with
    | none =>
      left
      simp only [withEarlierHeight, hcreation, hstored]
      rfl
    | some height =>
      right
      rw [storedHeight?_grow hgrounded hstored] at hheight
      simp only [withEarlierHeight, hcreation, hstored, ← hheight]

/-- A preload of more files after a successful one leaves the outpoint table and the headers table
of a single preload of all files, and the same outputs with the same values and spenders. An output
that a block of the first files created has the height that the headers of the first files give; it
is unknown or the same, unless a header is named by the zero hash. -/
theorem grown_run_eq_single_run_up_to_heights {preload : Preload} {more : List (Option Bytes)}
    (hone : preload.workerCount = 1) {media media' media₀ : Media} {a b b' c a₀ d : Progress}
    {summary summary' summary₀ : Summary} (hfresh : a.store.tables = Tables.empty)
    (hfirst : preload.run media a = (.ok summary, b))
    (hsame : b'.store.tables = b.store.tables)
    (hgrown : (preload.grow more).run media' b' = (.ok summary', c))
    (hfresh₀ : a₀.store.tables = Tables.empty)
    (hsingle : (preload.grow more).run media₀ a₀ = (.ok summary₀, d)) :
    c.store.tables.outpoints = d.store.tables.outpoints ∧
      c.store.tables.headers = d.store.tables.headers ∧
      (∀ s, c.store.tables.txos? s =
        (d.store.tables.txos? s).map (Option.map (List.map preload.withEarlierHeight))) ∧
      ((∀ header ∈ (preload.grow more).headers, header.hash ≠ Hash.zero) →
        ∀ s txo, d.store.tables.Lists s txo →
          (preload.withEarlierHeight txo).height = none ∨
            preload.withEarlierHeight txo = txo) := by
  have hone' : (preload.grow more).workerCount = 1 := hone
  have hempty : a.store.tables.Represents Index.empty := hfresh ▸ Tables.Represents.empty
  have hempty₀ : a₀.store.tables.Represents Index.empty := hfresh₀ ▸ Tables.Represents.empty
  obtain ⟨hb, -⟩ := represents_of_run_ok hone hempty hfirst
  obtain ⟨hc, -⟩ := represents_of_run_ok hone' (hsame ▸ hb) hgrown
  obtain ⟨hd, -⟩ := represents_of_run_ok hone' hempty₀ hsingle
  have hrows := preload.rows_complete_complete more
  refine ⟨?_, ?_, fun s ↦ ?_, fun hgrounded s txo htxo ↦ ?_⟩
  · apply Table.Spells.unique (hc.outpoints.congr fun o ↦ ?_) hd.outpoints
    rw [hrows, Option.map_map]
    rfl
  · have hheaders := hc.headers
    rw [headers_complete_complete] at hheaders
    exact hheaders.unique hd.headers
  · have hviews (o : Outpoint) :
        (((preload.grow more).complete (preload.complete Index.empty)).rows o).map
            (fun row ↦ (row.scriptHash, id row.txo)) =
          (((preload.grow more).complete Index.empty).rows o).map
            fun row ↦ (row.scriptHash, preload.withEarlierHeight row.txo) := by
      rw [hrows, Option.map_map]
      rfl
    have hlists := hc.map_txos?_eq hd hviews s
    simpa using hlists
  · exact preload.withEarlierHeight_eq_or more hgrounded (hd.lists_iff.1 htxo)

/-! ## An example -/

/-- The preload of a file with the upper block only. -/
def ofOrphan : Preload where
  files := [some (BlockFile.frame [0xf9, 0xbe, 0xb4, 0xd9] Block.upper.encode)]
  magic := [0xf9, 0xbe, 0xb4, 0xd9]
  workers := 1

/-- A file with the lower block. -/
def parentFile : Option Bytes :=
  some (BlockFile.frame [0xf9, 0xbe, 0xb4, 0xd9] Block.lower.encode)

/-- There are the runs that are compared. -/
theorem exists_grown_runs (hone : preload.workerCount = 1) (more : List (Option Bytes)) :
    ∃ summary b summary' c summary₀ d,
      preload.run (fun _ ↦ .boundless) .fresh = (.ok summary, b) ∧
        (preload.grow more).run (fun _ ↦ .boundless) b = (.ok summary', c) ∧
        (preload.grow more).run (fun _ ↦ .boundless) .fresh = (.ok summary₀, d) := by
  have hone' : (preload.grow more).workerCount = 1 := hone
  have hempty : Progress.fresh.store.tables.Represents Index.empty := Tables.Represents.empty
  obtain ⟨summary, b, hfirst⟩ := exists_run_ok hone Media.ample_boundless hempty
  obtain ⟨hb, -⟩ := represents_of_run_ok hone hempty hfirst
  obtain ⟨summary', c, hgrown⟩ := exists_run_ok hone' Media.ample_boundless hb
  obtain ⟨summary₀, d, hsingle⟩ := exists_run_ok hone' Media.ample_boundless hempty
  exact ⟨summary, b, summary', c, summary₀, d, hfirst, hgrown, hsingle⟩

theorem grown_run_eq_single_run_up_to_heights_ofOrphan :
    ∃ summary b summary' c summary₀ d,
      ofOrphan.run (fun _ ↦ .boundless) .fresh = (.ok summary, b) ∧
        (ofOrphan.grow [parentFile]).run (fun _ ↦ .boundless) b = (.ok summary', c) ∧
        (ofOrphan.grow [parentFile]).run (fun _ ↦ .boundless) .fresh = (.ok summary₀, d) ∧
        c.store.tables.outpoints = d.store.tables.outpoints ∧
        c.store.tables.headers = d.store.tables.headers ∧
        (∀ s, c.store.tables.txos? s =
          (d.store.tables.txos? s).map (Option.map (List.map ofOrphan.withEarlierHeight))) ∧
        ∀ s txo, d.store.tables.Lists s txo →
          (ofOrphan.withEarlierHeight txo).height = none ∨
            ofOrphan.withEarlierHeight txo = txo := by
  have hone : ofOrphan.workerCount = 1 := rfl
  have hgrounded : ∀ header ∈ (ofOrphan.grow [parentFile]).headers,
      header.hash ≠ Hash.zero := by decide +kernel
  obtain ⟨summary, b, summary', c, summary₀, d, hfirst, hgrown, hsingle⟩ :=
    ofOrphan.exists_grown_runs hone [parentFile]
  obtain ⟨houtpoints, hheaders, htxos, hheights⟩ :=
    grown_run_eq_single_run_up_to_heights hone rfl hfirst rfl hgrown rfl hsingle
  exact ⟨summary, b, summary', c, summary₀, d, hfirst, hgrown, hsingle, houtpoints, hheaders,
    htxos, hheights hgrounded⟩

/-- The output of the upper block has no height after the preload of its file, and this does not
change when the lower block is found. -/
theorem grown_run_ne_single_run_ofOrphan :
    ∃ summary b summary' c summary₀ d,
      ofOrphan.run (fun _ ↦ .boundless) .fresh = (.ok summary, b) ∧
        (ofOrphan.grow [parentFile]).run (fun _ ↦ .boundless) b = (.ok summary', c) ∧
        (ofOrphan.grow [parentFile]).run (fun _ ↦ .boundless) .fresh = (.ok summary₀, d) ∧
        c.store.tables.txos? (Hash.single [0x51]) ≠ d.store.tables.txos? (Hash.single [0x51]) := by
  have hone : ofOrphan.workerCount = 1 := rfl
  have hone' : (ofOrphan.grow [parentFile]).workerCount = 1 := rfl
  have hempty : Progress.fresh.store.tables.Represents Index.empty := Tables.Represents.empty
  obtain ⟨summary, b, summary', c, summary₀, d, hfirst, hgrown, hsingle⟩ :=
    ofOrphan.exists_grown_runs hone [parentFile]
  refine ⟨summary, b, summary', c, summary₀, d, hfirst, hgrown, hsingle, fun heq ↦ ?_⟩
  obtain ⟨hb, -⟩ := represents_of_run_ok hone hempty hfirst
  obtain ⟨hc, -⟩ := represents_of_run_ok hone' hb hgrown
  obtain ⟨hd, -⟩ := represents_of_run_ok hone' hempty hsingle
  let created : CreatedOutput :=
    ⟨⟨(Block.upper.txs.map Tx.txid).headD Hash.zero, 0⟩, ⟨50, [0x51]⟩, Block.upper.header.hash⟩
  have hcreation : ofOrphan.creation? created.outpoint = some created := by
    have haccepted : ofOrphan.accepted = [Block.upper] := by decide +kernel
    rw [creation?, haccepted]
    exact List.find?_cons_of_pos (decide_eq_true rfl)
  have hbefore : ofOrphan.storedHeight? created.block = none := by decide +kernel
  have hafter : (ofOrphan.grow [parentFile]).storedHeight? created.block = some 1 := by
    decide +kernel
  obtain ⟨⟨s, txo⟩, hrow, rfl, hheight⟩ := exists_row_of_creation? _ (creation?_grow hcreation)
  obtain ho : txo.outpoint = created.outpoint := (Index.valid _ hrow).1
  rw [← ho] at hrow hcreation
  obtain ⟨txos, htxos, hmem⟩ := hd.lists_iff.2 hrow
  have hrow' := hc.lists_iff.1 ⟨txos, heq.trans htxos, hmem⟩
  rw [rows_complete_complete, hrow, Option.map_some, Option.some.injEq,
    earlierRow_of_creation? hcreation, hbefore] at hrow'
  have hnone : none = txo.height := congrArg (fun row : FundingRow ↦ row.txo.height) hrow'
  rw [hafter, ← hnone] at hheight
  exact absurd hheight (by decide)

end Preload

end TxoIndex

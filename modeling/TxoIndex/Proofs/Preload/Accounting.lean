import TxoIndex.Proofs.Preload.Barrier
import TxoIndex.Proofs.Preload.Resumption
import TxoIndex.Proofs.Store.Tally

/-!
# What a pass accounts for

A step counts what the unit of its block was told, and only when the unit is committed. So however a
pass of one worker ends, its counters have grown by what the events tell that it has added to the
history of the store. These are the events of the well-formed ones of the blocks that are done, with
those of the stages around them.

What the events tell is then compared with the tables: with the number of outputs before and after,
and with which of them have become spent.
-/

namespace TxoIndex

/-! ## Units -/

theorem SpendTally.foldl_add (tally : SpendTally) (results : List Spent) :
    results.foldl SpendTally.add tally =
      ⟨tally.spent + results.count .spent, tally.alreadySpent + results.count .alreadySpent,
        tally.conflicts + results.countP Spent.isConflict,
        tally.missing + results.count .missing⟩ := by
  induction results generalizing tally with
  | nil => rfl
  | cons result results ih =>
    rw [List.foldl_cons, ih, List.countP_cons]
    cases result <;> simp [SpendTally.add, Spent.isConflict] <;> omega

namespace Batch

def fundOps (b : Batch) : List Op := .putHeader b.hash b.header :: b.funding.map FundingRow.op

def spendOps (b : Batch) : List Op := b.spending.map SpendingRow.op

variable {b : Batch} {t t' : Tables}

/-- The unit counts the outputs that it is told to be duplicates. -/
theorem of_run_fund {duplicates : Nat} (hrun : b.fund.run t = .ok (duplicates, t')) :
    (b.fund.events t).map Event.op = b.fundOps ∧
      duplicates = (additions (b.fund.events t)).count .duplicate := by
  have hcounted := WriteUnit.of_run_foldlM FundingRow.op Event.added? Added.countDuplicate (by
    intro n row
    apply congrArg (WriteUnit.step row.op)
    funext r
    change Added at r
    cases r <;> rfl) hrun
  obtain ⟨hops, hduplicates⟩ := hcounted
  constructor
  · exact congrArg (.putHeader b.hash b.header :: ·) hops
  · rw [hduplicates, Added.foldl_countDuplicate, Nat.zero_add]
    rfl

/-- The unit counts what it is told of each input. -/
theorem of_run_spendAll {tally : SpendTally} (hrun : b.spendAll.run t = .ok (tally, t')) :
    (b.spendAll.events t).map Event.op = b.spendOps ∧
      tally = (answers (b.spendAll.events t)).foldl SpendTally.add .zero :=
  WriteUnit.of_run_foldlM SpendingRow.op Event.spent? SpendTally.add (fun _ _ ↦ rfl) hrun

theorem filterMap_fundOps (b : Batch) :
    b.fundOps.filterMap Op.output? = b.funding ∧ b.fundOps.filterMap Op.input? = [] := by
  rw [fundOps, List.filterMap_cons, List.filterMap_cons, List.filterMap_map, List.filterMap_map]
  exact ⟨List.filterMap_some, List.filterMap_eq_nil_iff.2 fun _ _ ↦ rfl⟩

theorem filterMap_spendOps (b : Batch) :
    b.spendOps.filterMap Op.output? = [] ∧ b.spendOps.filterMap Op.input? = b.spending := by
  rw [spendOps, List.filterMap_map, List.filterMap_map]
  exact ⟨List.filterMap_eq_nil_iff.2 fun _ _ ↦ rfl, List.filterMap_some⟩

end Batch

/-! ## Counters -/

namespace Counters

def addEvents (c : Counters) (events : List Event) : Counters :=
  { c with
    outputs := c.outputs + (additions events).count .new
    spends := c.spends + (answers events).count .spent
    duplicates := c.duplicates +
      ((additions events).count .duplicate + (answers events).count .alreadySpent)
    conflicts := c.conflicts + (answers events).countP Spent.isConflict
    missing := c.missing + (answers events).count .missing }

/-- The counters have grown by what events tell, and by some blocks that were written or skipped.
There may be more files that failed. -/
structure Account (c c' : Counters) (log : List Event) (written : List Batch) (skipped : Nat) :
    Prop where
  blocks : c'.blocks = c.blocks + written.length
  transactions : c'.transactions = c.transactions + (written.map Batch.transactions).sum
  outputs : c'.outputs = c.outputs + (additions log).count .new
  spends : c'.spends = c.spends + (answers log).count .spent
  duplicates : c'.duplicates = c.duplicates +
    ((additions log).count .duplicate + (answers log).count .alreadySpent)
  conflicts : c'.conflicts = c.conflicts + (answers log).countP Spent.isConflict
  missing : c'.missing = c.missing + (answers log).count .missing
  skippedBlocks : c'.skippedBlocks = c.skippedBlocks + skipped
  failedFiles : c.failedFiles ≤ c'.failedFiles

namespace Account

variable {c c' : Counters} {log : List Event} {written : List Batch} {skipped : Nat}

theorem start (c : Counters) : Account c c [] [] 0 :=
  ⟨rfl, rfl, rfl, rfl, rfl, rfl, rfl, rfl, Nat.le_refl _⟩

/-- Another block is written, and its unit tells some events. -/
theorem block (h : Account c c' log written skipped) (events : List Event) (b : Batch) :
    Account c ((c'.addEvents events).addBlock b.transactions) (log ++ events) (written ++ [b])
      skipped where
  blocks := by simp [addBlock, addEvents, h.blocks, Nat.add_assoc]
  transactions := by simp [addBlock, addEvents, h.transactions, Nat.add_assoc]
  outputs := by simp [addBlock, addEvents, h.outputs, additions_append, Nat.add_assoc]
  spends := by simp [addBlock, addEvents, h.spends, answers_append, Nat.add_assoc]
  duplicates := by
    simp only [addBlock, addEvents, h.duplicates, additions_append, answers_append,
      List.count_append]
    omega
  conflicts := by simp [addBlock, addEvents, h.conflicts, answers_append, Nat.add_assoc]
  missing := by simp [addBlock, addEvents, h.missing, answers_append, Nat.add_assoc]
  skippedBlocks := h.skippedBlocks
  failedFiles := h.failedFiles

theorem skip (h : Account c c' log written skipped) :
    Account c c'.addSkippedBlock log written (skipped + 1) :=
  { h with skippedBlocks := congrArg (· + 1) h.skippedBlocks }

theorem failedFile (h : Account c c' log written skipped) :
    Account c (c'.addFailedFiles 1) log written skipped :=
  { h with failedFiles := Nat.le_add_right_of_le h.failedFiles }

end Account

/-- What is counted for a block whose outputs were added is what the events of its unit tell. -/
theorem count_of_run_fund {b : Batch} {t t' : Tables} {duplicates : Nat}
    (hrun : b.fund.run t = .ok (duplicates, t')) (c : Counters) :
    c.addOutputs b.funding.length duplicates = c.addEvents (b.fund.events t) ∧
      duplicates ≤ b.funding.length := by
  obtain ⟨hops, hduplicates⟩ := Batch.of_run_fund hrun
  obtain ⟨hfunding, hnone⟩ := b.filterMap_fundOps
  have hadditions : (additions (b.fund.events t)).length = b.funding.length := by
    rw [length_additions, hops, hfunding]
  have hanswers : answers (b.fund.events t) = [] := by
    rw [answers_eq_nil_iff, hops, hnone]
  rw [Added.length_eq, ← hduplicates] at hadditions
  refine ⟨?_, by omega⟩
  have hnew : b.funding.length - duplicates = (additions (b.fund.events t)).count .new := by omega
  simp only [addOutputs, addEvents, hnew, hanswers, ← hduplicates]
  rfl

theorem count_of_run_spendAll {b : Batch} {t t' : Tables} {tally : SpendTally}
    (hrun : b.spendAll.run t = .ok (tally, t')) (c : Counters) :
    c.addSpends tally = c.addEvents (b.spendAll.events t) := by
  obtain ⟨hops, htally⟩ := Batch.of_run_spendAll hrun
  have hadditions : additions (b.spendAll.events t) = [] := by
    rw [additions_eq_nil_iff, hops, b.filterMap_spendOps.1]
  rw [htally, SpendTally.foldl_add, addSpends, addEvents, hadditions]
  simp [SpendTally.zero]

end Counters

/-! ## Histories of a pass -/

/-- The units that were committed on the way from one store to another have told these events, apart
from those of stages before and after. -/
def Store.Commits (s s' : Store) (log : List Event) : Prop :=
  ∃ begun ended, s.History (begun ++ log ++ ended) s' ∧
    ∀ event ∈ begun ++ ended, event.op.SetsStage

/-- No stage has been written afterwards yet. -/
theorem Store.Commits.of_begun {s s' : Store} {begun log : List Event}
    (hhistory : s.History (begun ++ log) s') (hstages : ∀ event ∈ begun, event.op.SetsStage) :
    s.Commits s' log := by
  refine ⟨begun, [], ?_, ?_⟩
  · rwa [List.append_nil]
  · rwa [List.append_nil]

theorem filterMap_op_of_setsStage {events : List Event}
    (h : ∀ event ∈ events, event.op.SetsStage) :
    (events.map Event.op).filterMap Op.output? = [] ∧
      (events.map Event.op).filterMap Op.input? = [] := by
  have hnone {op : Op} (hop : op.SetsStage) : op.output? = none ∧ op.input? = none := by
    cases op with
    | setStage stage => exact ⟨rfl, rfl⟩
    | putHeader | addTxo | spend => exact hop.elim
  rw [List.filterMap_eq_nil_iff, List.filterMap_eq_nil_iff]
  constructor
  · exact List.forall_mem_map.2 fun event hevent ↦ (hnone (h event hevent)).1
  · exact List.forall_mem_map.2 fun event hevent ↦ (hnone (h event hevent)).2

/-- The stages before and after tell nothing that is counted. -/
theorem Store.Commits.exists_path {s s' : Store} {log : List Event} (h : s.Commits s' log) :
    ∃ events, Op.Path s.tables events s'.tables ∧ additions events = additions log ∧
      answers events = answers log ∧
      (events.map Event.op).filterMap Op.input? = (log.map Event.op).filterMap Op.input? := by
  obtain ⟨begun, ended, hhistory, hstages⟩ := h
  obtain ⟨hbegun, hended⟩ := List.forall_mem_append.1 hstages
  have hnil {events : List Event} (hevents : ∀ event ∈ events, event.op.SetsStage) :
      additions events = [] ∧ answers events = [] := by
    obtain ⟨houtputs, hinputs⟩ := filterMap_op_of_setsStage hevents
    exact ⟨additions_eq_nil_iff.2 houtputs, answers_eq_nil_iff.2 hinputs⟩
  refine ⟨begun ++ log ++ ended, hhistory.path, ?_, ?_, ?_⟩
  · rw [additions_append, additions_append, (hnil hbegun).1, (hnil hended).1, List.nil_append,
      List.append_nil]
  · rw [answers_append, answers_append, (hnil hbegun).2, (hnil hended).2, List.nil_append,
      List.append_nil]
  · rw [List.map_append, List.map_append, List.filterMap_append, List.filterMap_append,
      (filterMap_op_of_setsStage hbegun).2, (filterMap_op_of_setsStage hended).2, List.nil_append,
      List.append_nil]

namespace Preload

section Pass

variable {α ε : Type} {preload : Preload} {media : Media} {p p' : Progress} {s : Store}
  {log : List Event}

theorem counters_of_write {unit : WriteUnit α} {result : Except StoreError α}
    (hwrite : p.write media unit = (result, p')) : p'.counters = p.counters := by
  cases hwrite
  rfl

theorem history_of_write_ok {unit : WriteUnit α} {a : α} (h : s.History log p.store)
    (hwrite : p.write media unit = (.ok a, p')) :
    s.History (log ++ unit.events p.store.tables) p'.store ∧
      unit.run p.store.tables = .ok (a, p'.store.tables) := by
  have hstore := store_write hwrite
  have hhistory := h.write (media p.accesses) unit
  rw [Store.commits, hstore] at hhistory
  exact ⟨hhistory, Store.tables_of_write_ok hstore⟩

theorem history_of_write_error {unit : WriteUnit α} {e : StoreError} (h : s.History log p.store)
    (hwrite : p.write media unit = (.error e, p')) : s.History log p'.store := by
  have hhistory := h.write (media p.accesses) unit
  rw [Store.commits, store_write hwrite] at hhistory
  dsimp only at hhistory
  rwa [List.append_nil] at hhistory

theorem history_writeStage (h : s.History log p.store) (media : Media) (stage : Stage) :
    ∃ events, s.History (log ++ events) (writeStage media stage p).2.store ∧
      (∀ event ∈ events, event.op.SetsStage) ∧
      (writeStage media stage p).2.counters = p.counters := by
  unfold writeStage
  cases hwrite : p.write media (WriteUnit.setStage stage) with
  | mk result p' =>
    cases result with
    | ok a =>
      refine ⟨[⟨.setStage stage, ()⟩], (history_of_write_ok h hwrite).1, ?_,
        counters_of_write hwrite⟩
      exact List.forall_mem_singleton.2 trivial
    | error e =>
      refine ⟨[], ?_, nofun, counters_of_write hwrite⟩
      rw [List.append_nil]
      exact history_of_write_error h hwrite

variable {step : Bytes → Progress → Except StoreError Unit × Progress}
  {rows : Bytes → Except ε Batch} {unit : Batch → WriteUnit α} {ops : Batch → List Op}
  {count : Batch → α → Counters → Counters}

/-- Whether a unit does some operations, and what it counts is what their events tell. -/
def CountsEvents (unit : Batch → WriteUnit α) (ops : Batch → List Op)
    (count : Batch → α → Counters → Counters) : Prop :=
  ∀ b t t' a, (unit b).run t = .ok (a, t') → ((unit b).events t).map Event.op = ops b ∧
    ∀ c, count b a c = (c.addEvents ((unit b).events t)).addBlock b.transactions

theorem countsEvents_fund : CountsEvents Batch.fund Batch.fundOps fun b duplicates c ↦
    (c.addOutputs b.funding.length duplicates).addBlock b.transactions := by
  intro b t t' duplicates hrun
  refine ⟨(Batch.of_run_fund hrun).1, fun c ↦ ?_⟩
  exact congrArg (·.addBlock b.transactions) (Counters.count_of_run_fund hrun c).1

theorem countsEvents_spendAll : CountsEvents Batch.spendAll Batch.spendOps fun b tally c ↦
    (c.addSpends tally).addBlock b.transactions := by
  intro b t t' tally hrun
  refine ⟨(Batch.of_run_spendAll hrun).1, fun c ↦ ?_⟩
  exact congrArg (·.addBlock b.transactions) (Counters.count_of_run_spendAll hrun c)

/-- What a pass has committed and counted when some blocks are done. -/
def Accounted (rows : Bytes → Except ε Batch) (ops : Batch → List Op) (s : Store)
    (begun : List Event) (c : Counters) (done : List Bytes) (p : Progress) : Prop :=
  ∃ log, s.History (begun ++ log) p.store ∧
    log.map Event.op = (successes rows done).flatMap ops ∧
    c.Account p.counters log (successes rows done) (failures rows done)

theorem WritesRows.keeps_accounted (preload : Preload) (h : WritesRows media step rows unit count)
    (hcount : CountsEvents unit ops count) (s : Store) (begun : List Event) (c : Counters) :
    preload.Keeps media step (Accounted rows ops s begun c) True where
  step_cases := by
    rintro done block p - ⟨log, hhistory, hops, haccount⟩
    have hfailures := failures_concat rows done block
    cases hrows : rows block with
    | error e =>
      left
      rw [hrows] at hfailures
      refine ⟨_, h.skipped hrows, log, hhistory, ?_, ?_⟩
      · rwa [successes_append_of_error hrows]
      · rw [successes_append_of_error hrows, hfailures]
        exact haccount.skip
    | ok b =>
      rw [hrows] at hfailures
      cases hwrite : p.write media (unit b) with
      | mk result p' =>
        have hcounters := counters_of_write hwrite
        cases result with
        | ok a =>
          left
          obtain ⟨hhistory', hrun⟩ := history_of_write_ok hhistory hwrite
          obtain ⟨hops', hcounted⟩ := hcount b _ _ a hrun
          rw [List.append_assoc] at hhistory'
          refine ⟨_, h.written hrows hwrite, _, hhistory', ?_, ?_⟩
          · rw [successes_append_of_ok hrows, List.map_append, List.flatMap_append,
              List.flatMap_singleton, hops, hops']
          · rw [successes_append_of_ok hrows, hfailures]
            change c.Account (count b a p'.counters) _ _ _
            rw [hcounted, hcounters]
            exact haccount.block _ b
        | error e =>
          right
          refine ⟨e, p', h.failed hrows hwrite, ⟨log, ?_, hops, hcounters ▸ haccount⟩, trivial⟩
          exact history_of_write_error hhistory hwrite
  sync_cases := by
    rintro done p ⟨log, hhistory, hops, haccount⟩
    rcases sync_cases media p with
      ⟨p', hp', hstore, hcounters⟩ | ⟨e, p', hp', hstore, hcounters, -⟩
    · left
      exact ⟨p', hp', log, hstore ▸ hhistory, hops, hcounters ▸ haccount⟩
    · right
      exact ⟨e, p', hp', ⟨log, hstore ▸ hhistory, hops, hcounters ▸ haccount⟩, trivial⟩
  failedFile := by
    rintro done p ⟨log, hhistory, hops, haccount⟩
    exact ⟨log, hhistory, hops, haccount.failedFile⟩

/-- However a pass of one worker ends, it has committed and counted some first blocks. -/
theorem WritesRows.exists_account (hone : preload.workerCount = 1)
    (h : WritesRows media step rows unit count) (hcount : CountsEvents unit ops count)
    (pass : Pass) (before after : Stage) (p : Progress) :
    ∃ done log, done <+: preload.blocks ∧
      ((preload.stagedPass media pass before after step p).1 = .ok () → done = preload.blocks) ∧
      p.store.Commits (preload.stagedPass media pass before after step p).2.store log ∧
      log.map Event.op = (successes rows done).flatMap ops ∧
      p.counters.Account (preload.stagedPass media pass before after step p).2.counters log
        (successes rows done) (failures rows done) := by
  obtain ⟨begun, hbegun, hstages, hcounters⟩ :=
    history_writeStage (p := p) (Store.History.start) media before
  rw [List.nil_append] at hbegun
  unfold stagedPass
  cases hstart : writeStage media before p with
  | mk result p₁ =>
    rw [hstart] at hbegun hcounters
    dsimp only at hbegun hcounters
    cases result with
    | error e =>
      refine ⟨[], [], List.nil_prefix, nofun, .of_begun ?_ hstages, rfl, ?_⟩
      · rwa [List.append_nil]
      · exact hcounters ▸ Counters.Account.start p.counters
    | ok a =>
      have hinit : Accounted rows ops p.store begun p.counters [] p₁ := by
        refine ⟨[], ?_, rfl, hcounters ▸ Counters.Account.start p.counters⟩
        rwa [List.append_nil]
      dsimp only
      rcases runPass_cases hone (h.keeps_accounted preload hcount p.store begun p.counters) pass
        hinit with ⟨p₂, hp₂, log, hhistory, hops, haccount⟩ |
          ⟨e, p₂, hp₂, ⟨done, hdone, log, hhistory, hops, haccount⟩, -⟩
      · rw [hp₂]
        dsimp only
        obtain ⟨ended, hended, hstages', hcounters'⟩ := history_writeStage hhistory media after
        refine ⟨preload.blocks, log, List.prefix_refl _, fun _ ↦ rfl, ⟨begun, ended, hended, ?_⟩,
          hops, hcounters' ▸ haccount⟩
        exact List.forall_mem_append.2 ⟨hstages, hstages'⟩
      · rw [hp₂]
        exact ⟨done, log, hdone, nofun, .of_begun hhistory hstages, hops, haccount⟩

end Pass

/-! ## The two passes -/

/-- What the outputs pass writes for a block, with the height that a chain gives to it. -/
def batchIn (chain : Chain) (b : Block) : Batch :=
  b.fundingBatch ((chain.height? b.header.hash).map UInt32.ofNat)

/-- How the counters of a pass and the tables before and after it go together, if it has written
some blocks and skipped some. -/
structure Balanced (c c' : Counters) (t t' : Tables) (written : List Block) (skipped : Nat) :
    Prop where
  blocks : c'.blocks = c.blocks + written.length
  transactions : c'.transactions = c.transactions + (written.map fun b ↦ b.txs.length).sum
  skippedBlocks : c'.skippedBlocks = c.skippedBlocks + skipped
  /-- As many outputs are counted as there are more. -/
  outputs : ∃ new, c'.outputs = c.outputs + new ∧ t'.txoCount = t.txoCount + new
  /-- As many spends are counted as there are outputs that have become spent. -/
  spends : ∃ spent : List Outpoint, spent.Nodup ∧ c'.spends = c.spends + spent.length ∧
    ∀ o, o ∈ spent ↔ t.ListsAs o false ∧ t'.ListsAs o true

/-- An outputs pass has counted every output of the written blocks. -/
structure OutputsBalanced (c c' : Counters) (t t' : Tables) (written : List Block)
    (skipped : Nat) : Prop extends Balanced c c' t t' written skipped where
  total : c'.outputs + c'.duplicates =
    c.outputs + c.duplicates + (written.flatMap Block.created).length
  conflicts : c'.conflicts = c.conflicts
  missing : c'.missing = c.missing

/-- The inputs of blocks that spend something. -/
def spendingInputs (written : List Block) : List SpendingRow :=
  (written.flatMap Block.inputs).filter fun row ↦ row.prevout ≠ Outpoint.null

/-- A spends pass has counted every input of the written blocks that spends something, and as
missing those whose output is not in the tables. -/
structure SpendsBalanced (c c' : Counters) (t t' : Tables) (written : List Block)
    (skipped : Nat) : Prop extends Balanced c c' t t' written skipped where
  total : c'.spends + c'.duplicates + c'.conflicts + c'.missing =
    c.spends + c.duplicates + c.conflicts + c.missing + (spendingInputs written).length
  missing : c'.missing = c.missing +
    (spendingInputs written).countP fun row ↦ t.scriptHashOf? row.prevout = .ok none

section Account

variable {preload : Preload} {c c' : Counters} {s s' : Store} {log : List Event}
  {written : List Block} {skipped : Nat} {batch : Block → Batch}

theorem balanced_of_account (hreachable : s.Reachable) (hcommits : s.Commits s' log)
    (haccount : c.Account c' log (written.map batch) skipped)
    (hbatch : ∀ b, (batch b).transactions = b.txs.length)
    (hkinds : additions log = [] ∨ answers log = [])
    (hspenders : ∀ row ∈ (log.map Event.op).filterMap Op.input?, row.spender ≠ Outpoint.null) :
    Balanced c c' s.tables s'.tables written skipped := by
  obtain ⟨m, hm⟩ := hreachable.represents
  obtain ⟨events, hpath, hadditions, hanswers, hinputs⟩ := hcommits.exists_path
  rw [← hadditions, ← hanswers] at hkinds
  rw [← hinputs] at hspenders
  constructor
  · rw [haccount.blocks, List.length_map]
  · rw [haccount.transactions, List.map_map]
    simp only [Function.comp_def, hbatch]
  · exact haccount.skippedBlocks
  · exact ⟨_, haccount.outputs, hadditions ▸ hpath.txoCount_eq hm⟩
  · obtain ⟨hnodup, hmarked⟩ := hpath.marked_spec hm hkinds
    refine ⟨marked events, hnodup, ?_, hmarked⟩
    rw [haccount.spends, length_marked hspenders, hanswers]

/-- However an outputs pass ends, it has written some first ones of the well-formed blocks. -/
theorem exists_account_indexOutputs (hone : preload.workerCount = 1) (media : Media)
    (chain : Chain) (p : Progress) :
    ∃ done log, done <+: preload.blocks ∧
      ((preload.indexOutputs media chain p).1 = .ok () → done = preload.blocks) ∧
      p.store.Commits (preload.indexOutputs media chain p).2.store log ∧
      log.map Event.op = ((successes Block.decode done).map (batchIn chain)).flatMap
        Batch.fundOps ∧
      p.counters.Account (preload.indexOutputs media chain p).2.counters log
        ((successes Block.decode done).map (batchIn chain)) (failures Block.decode done) := by
  obtain ⟨done, log, hdone, hok, hcommits, hops, haccount⟩ :=
    (writesRows_outputsStep media chain).exists_account hone countsEvents_fund .outputs
      .indexingOutputs .outputsIndexed p
  have hrows : ∀ block ∈ done, ∀ batch, outputRows chain block = .ok batch ↔
      ∃ b, Block.decode block = .ok b ∧ batch = batchIn chain b := by
    intro block hblock batch
    exact outputRows_eq_ok_iff chain (preload.length_le_of_mem_blocks (hdone.subset hblock))
  rw [successes_eq_map hrows] at hops haccount
  rw [failures_congr hrows] at haccount
  exact ⟨done, log, hdone, hok, hcommits, hops, haccount⟩

/-- However a spends pass ends, it has written some first ones of the well-formed blocks. -/
theorem exists_account_indexSpends (hone : preload.workerCount = 1) (media : Media)
    (p : Progress) :
    ∃ done log, done <+: preload.blocks ∧
      ((preload.indexSpends media p).1 = .ok () → done = preload.blocks) ∧
      p.store.Commits (preload.indexSpends media p).2.store log ∧
      log.map Event.op = ((successes Block.decode done).map Block.spendingBatch).flatMap
        Batch.spendOps ∧
      p.counters.Account (preload.indexSpends media p).2.counters log
        ((successes Block.decode done).map Block.spendingBatch) (failures Block.decode done) := by
  have hrefused : p.store.Commits p.store [] := ⟨[], [], .start, nofun⟩
  unfold indexSpends
  split
  · exact ⟨[], [], List.nil_prefix, nofun, hrefused, rfl, .start p.counters⟩
  split
  · obtain ⟨done, log, hdone, hok, hcommits, hops, haccount⟩ :=
      (writesRows_spendsStep media).exists_account hone countsEvents_spendAll .spends
        .indexingSpends .spendsIndexed p
    have hrows : ∀ block ∈ done, ∀ batch, Batch.spends block = .ok batch ↔
        ∃ b, Block.decode block = .ok b ∧ batch = b.spendingBatch :=
      fun _ _ _ ↦ Batch.spends_eq_ok_iff
    rw [successes_eq_map hrows] at hops haccount
    rw [failures_congr hrows] at haccount
    exact ⟨done, log, hdone, hok, hcommits, hops, haccount⟩
  · exact ⟨[], [], List.nil_prefix, nofun, hrefused, rfl, .start p.counters⟩

theorem output_flatMap_fundOps (chain : Chain) (written : List Block) :
    (((written.map (batchIn chain)).flatMap Batch.fundOps).filterMap Op.output?).length =
        (written.flatMap Block.created).length ∧
      ((written.map (batchIn chain)).flatMap Batch.fundOps).filterMap Op.input? = [] := by
  have hcreated (b : Block) : ((batchIn chain b).fundOps.filterMap Op.output?).length =
      b.created.length := by
    rw [(batchIn chain b).filterMap_fundOps.1]
    change (b.txs.flatMap _).length = (b.txs.flatMap _).length
    simp only [List.length_flatMap, Tx.fundingRows, List.length_map]
  rw [List.flatMap_map, List.filterMap_flatMap, List.filterMap_flatMap, List.length_flatMap,
    List.length_flatMap]
  constructor
  · simp only [hcreated]
  · exact List.flatMap_eq_nil_iff.2 fun b _ ↦ (batchIn chain b).filterMap_fundOps.2

theorem input_flatMap_spendOps (written : List Block) :
    ((written.map Block.spendingBatch).flatMap Batch.spendOps).filterMap Op.output? = [] ∧
      ((written.map Block.spendingBatch).flatMap Batch.spendOps).filterMap Op.input? =
        spendingInputs written := by
  have hinputs (b : Block) : b.spendingBatch.spendOps.filterMap Op.input? =
      b.inputs.filter fun row ↦ row.prevout ≠ Outpoint.null := by
    rw [b.spendingBatch.filterMap_spendOps.2, ← b.spendingRows_eq_filter]
    rfl
  rw [List.flatMap_map, List.filterMap_flatMap, List.filterMap_flatMap, spendingInputs,
    List.filter_flatMap]
  constructor
  · exact List.flatMap_eq_nil_iff.2 fun b _ ↦ b.spendingBatch.filterMap_spendOps.1
  · simp only [hinputs]

theorem outputsBalanced_of_account {chain : Chain} (hreachable : s.Reachable)
    (hcommits : s.Commits s' log)
    (hops : log.map Event.op = (written.map (batchIn chain)).flatMap Batch.fundOps)
    (haccount : c.Account c' log (written.map (batchIn chain)) skipped) :
    OutputsBalanced c c' s.tables s'.tables written skipped := by
  obtain ⟨houtputs, hinputs⟩ := output_flatMap_fundOps chain written
  rw [← hops] at houtputs hinputs
  have hanswers : answers log = [] := answers_eq_nil_iff.2 hinputs
  have hadditions := Added.length_eq (additions log)
  rw [length_additions, houtputs] at hadditions
  have hspenders : ∀ row ∈ (log.map Event.op).filterMap Op.input?,
      row.spender ≠ Outpoint.null := by
    rw [hinputs]
    exact nofun
  refine ⟨balanced_of_account hreachable hcommits haccount (fun _ ↦ rfl) (.inr hanswers) hspenders,
    ?_, ?_, ?_⟩
  · rw [haccount.outputs, haccount.duplicates, hanswers, List.count_nil, hadditions]
    omega
  · rw [haccount.conflicts, hanswers, List.countP_nil, Nat.add_zero]
  · rw [haccount.missing, hanswers, List.count_nil, Nat.add_zero]

theorem spendsBalanced_of_account (hreachable : s.Reachable) (hcommits : s.Commits s' log)
    (hops : log.map Event.op = (written.map Block.spendingBatch).flatMap Batch.spendOps)
    (haccount : c.Account c' log (written.map Block.spendingBatch) skipped)
    (hwritten : written ⊆ preload.accepted) :
    SpendsBalanced c c' s.tables s'.tables written skipped := by
  obtain ⟨houtputs, hinputs⟩ := input_flatMap_spendOps written
  rw [← hops] at houtputs hinputs
  have hadditions : additions log = [] := additions_eq_nil_iff.2 houtputs
  have hanswers := Spent.length_eq (answers log)
  rw [length_answers, hinputs] at hanswers
  have hspenders : ∀ row ∈ (log.map Event.op).filterMap Op.input?,
      row.spender ≠ Outpoint.null := by
    rw [hinputs]
    intro row hrow
    obtain ⟨b, hb, hrow⟩ := List.mem_flatMap.1 (List.mem_of_mem_filter hrow)
    exact Block.spender_ne_null (length_encode_le_of_mem_accepted (hwritten hb)) hrow
  refine ⟨balanced_of_account hreachable hcommits haccount (fun _ ↦ rfl) (.inl hadditions)
    hspenders, ?_, ?_⟩
  · rw [haccount.spends, haccount.duplicates, haccount.conflicts, haccount.missing, hadditions,
      List.count_nil, hanswers]
    omega
  · obtain ⟨m, hm⟩ := hreachable.represents
    obtain ⟨events, hpath, hadditions', hanswers', hinputs'⟩ := hcommits.exists_path
    rw [haccount.missing, ← hanswers', hpath.count_missing hm (hadditions'.trans hadditions),
      hinputs', hinputs]

end Account

/-- However a pass of one worker over a reachable store ends, it has committed the well-formed ones
of some first blocks, or of all blocks if it goes through, and its counters and the tables balance
over these. No unit counts more duplicates than it adds rows. -/
theorem counters_balance {preload : Preload} (hone : preload.workerCount = 1) (media : Media)
    (chain : Chain) {p : Progress} (hreachable : p.store.Reachable) :
    (∃ done log, done <+: preload.blocks ∧
      ((preload.indexOutputs media chain p).1 = .ok () → done = preload.blocks) ∧
      let written := successes Block.decode done
      let p' := (preload.indexOutputs media chain p).2
      p.store.Commits p'.store log ∧
      log.map Event.op = (written.map (batchIn chain)).flatMap Batch.fundOps ∧
      OutputsBalanced p.counters p'.counters p.store.tables p'.store.tables written
        (failures Block.decode done)) ∧
    (∃ done log, done <+: preload.blocks ∧
      ((preload.indexSpends media p).1 = .ok () → done = preload.blocks) ∧
      let written := successes Block.decode done
      let p' := (preload.indexSpends media p).2
      p.store.Commits p'.store log ∧
      log.map Event.op = (written.map Block.spendingBatch).flatMap Batch.spendOps ∧
      SpendsBalanced p.counters p'.counters p.store.tables p'.store.tables written
        (failures Block.decode done)) ∧
    ∀ (s s' : Store) (medium : Medium) (b : Batch) (duplicates : Nat),
      s.write medium b.fund = (.ok duplicates, s') → duplicates ≤ b.funding.length := by
  refine ⟨?_, ?_, fun s s' medium b duplicates hwrite ↦ ?_⟩
  · obtain ⟨done, log, hdone, hok, hcommits, hops, haccount⟩ :=
      exists_account_indexOutputs hone media chain p
    exact ⟨done, log, hdone, hok, hcommits, hops,
      outputsBalanced_of_account hreachable hcommits hops haccount⟩
  · obtain ⟨done, log, hdone, hok, hcommits, hops, haccount⟩ :=
      exists_account_indexSpends hone media p
    exact ⟨done, log, hdone, hok, hcommits, hops,
      spendsBalanced_of_account hreachable hcommits hops haccount
        (successes_isPrefix hdone).subset⟩
  · exact (Counters.count_of_run_fund (Store.tables_of_write_ok hwrite) .zero).2

/-- A preload that has stored the outputs of one of the two blocks and counts from nothing. -/
def ofOneIndexed : Progress :=
  let unit : WriteUnit Unit := do
    let _ ← (batchIn ofTwoBlocks.chain Block.ofEachForm).fund
    WriteUnit.setStage .outputsIndexed
  ⟨(Progress.fresh.store.write .boundless unit).2, .zero, 1⟩

/-- The outputs pass adds the output of the other block and cannot go on, the spends pass finds one
of the two outputs that are spent. -/
theorem counters_balance_ofOneIndexed :
    ofTwoBlocks.workerCount = 1 ∧ ofOneIndexed.store.Reachable ∧
      (∃ p', (ofTwoBlocks.indexOutputs (mediaFailingAt 3) ofTwoBlocks.chain ofOneIndexed).2 = p' ∧
        p'.counters.blocks = 1 ∧ p'.counters.outputs = 1 ∧
        p'.store.tables.txoCount = ofOneIndexed.store.tables.txoCount + 1) ∧
      ∃ p' o, (ofTwoBlocks.indexSpends (fun _ ↦ .boundless) ofOneIndexed).2 = p' ∧
        p'.counters.blocks = 2 ∧ p'.counters.missing = 1 ∧
        ofOneIndexed.store.tables.ListsAs o false ∧ p'.store.tables.ListsAs o true := by
  have hone : ofTwoBlocks.workerCount = 1 := rfl
  have hreachable : ofOneIndexed.store.Reachable := .write .boundless _ (.fresh rfl)
  have hfirst :
      (ofTwoBlocks.indexOutputs (mediaFailingAt 3) ofTwoBlocks.chain ofOneIndexed).2.counters =
        ⟨1, 1, 1, 0, 0, 0, 0, 0, 1⟩ := by decide +kernel
  have hsecond : (ofTwoBlocks.indexSpends (fun _ ↦ .boundless) ofOneIndexed).2.counters =
      ⟨2, 4, 0, 1, 0, 0, 1, 0, 1⟩ := by decide +kernel
  obtain ⟨⟨_, _, -, -, -, -, houtputs⟩, -⟩ :=
    counters_balance hone (mediaFailingAt 3) ofTwoBlocks.chain hreachable
  obtain ⟨-, ⟨_, _, -, -, -, -, hspends⟩, -⟩ :=
    counters_balance hone (fun _ ↦ .boundless) ofTwoBlocks.chain hreachable
  obtain ⟨new, hnew, hcount⟩ := houtputs.outputs
  obtain ⟨spent, -, hlength, hspent⟩ := hspends.spends
  rw [hfirst] at hnew
  rw [hsecond] at hlength
  have hadded : 1 = 0 + new := hnew
  have hsingle : 1 = 0 + spent.length := hlength
  rw [Nat.zero_add] at hadded hsingle
  obtain ⟨o, rfl⟩ := List.length_eq_one_iff.1 hsingle.symm
  obtain ⟨hbefore, hafter⟩ := (hspent o).1 (List.mem_singleton_self o)
  refine ⟨hone, hreachable, ⟨_, rfl, ?_, ?_, ?_⟩, _, o, rfl, ?_, ?_, hbefore, hafter⟩
  · rw [hfirst]
  · rw [hfirst]
  · rw [hcount, hadded]
  · rw [hsecond]
  · rw [hsecond]

end Preload

end TxoIndex

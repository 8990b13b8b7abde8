import TxoIndex.Block.Rows
import TxoIndex.BlockFile
import TxoIndex.Chain
import TxoIndex.Preload.Counters
import TxoIndex.Preload.Error
import TxoIndex.Store.Write

/-!
# Preloading

An index is built from block files in three passes over all of them. The first pass reads the
headers and links them, which gives the heights. The second pass adds every output, and the third
one marks the outputs that are spent, wherever in the files they were created. Each block is written
in a transaction of its own, so a preload that stops leaves a store from which another one can go
on. After each file what was committed is flushed.

A block that is not well-formed is skipped, and a file that cannot be read is passed over; both are
counted. An error of the store stops the worker that met it, in a block or after a file, and a pass
in which that happened fails. The stage in the store tells which passes are complete.
-/

namespace TxoIndex

structure Preload where
  /-- The contents of the block files, or `none` where a file cannot be read. They are the same in
  every pass. -/
  files : List (Option Bytes)
  magic : Magic
  /-- How many workers may share the files of a pass; at least one does. -/
  workers : Nat

structure Progress where
  store : Store
  counters : Counters
  /-- The write transactions and flushes so far. -/
  accesses : Nat

/-- The medium at each access. -/
abbrev Media := Nat → Medium

namespace Batch

/-- Writes the header and the outputs of a block, and counts the outputs that are there already. -/
def fund (b : Batch) : WriteUnit Nat := do
  WriteUnit.putHeader b.hash b.header
  b.funding.foldlM (fun duplicates row ↦ do
    match ← WriteUnit.addTxo row.scriptHash row.txo with
    | .new => return duplicates
    | .duplicate => return duplicates + 1) 0

def spendAll (b : Batch) : WriteUnit SpendTally :=
  b.spending.foldlM (fun tally row ↦ do
    return tally.add (← WriteUnit.spend row.prevout row.spender)) .zero

end Batch

namespace Progress

/-- Runs a unit in the next transaction. -/
def write {α : Type} (media : Media) (unit : WriteUnit α) (p : Progress) :
    Except StoreError α × Progress :=
  let (result, store) := p.store.write (media p.accesses) unit
  (result, { p with store, accesses := p.accesses + 1 })

def sync (media : Media) (p : Progress) : Except StoreError Unit × Progress :=
  ((media p.accesses).sync, { p with accesses := p.accesses + 1 })

def count (f : Counters → Counters) (p : Progress) : Progress :=
  { p with counters := f p.counters }

end Progress

namespace Preload

/-- The number of workers for a wish of `cap`, where `available` can work at once. -/
def boundedWorkers (available cap : Nat) : Nat := max 1 (min available cap)

def workerCount (preload : Preload) : Nat := max 1 preload.workers

/-! ## Going through the files -/

/-- Does the same with all blocks of a file, until the store fails. -/
def eachBlock (step : Bytes → Progress → Except StoreError Unit × Progress) :
    List Bytes → Progress → Except StoreError Unit × Progress
  | [], p => (.ok (), p)
  | block :: blocks, p =>
    match step block p with
    | (.error e, p) => (.error e, p)
    | (.ok (), p) => eachBlock step blocks p

/-- Does the same with all blocks of a file, and then flushes what was committed. -/
def indexFile (preload : Preload) (media : Media)
    (step : Bytes → Progress → Except StoreError Unit × Progress) (file : Bytes) (p : Progress) :
    Except StoreError Unit × Progress :=
  match eachBlock step (BlockFile.blocks preload.magic file) p with
  | (.error e, p) => (.error e, p)
  | (.ok (), p) => p.sync media

/-- Goes through the files while there is a live worker, and counts those that give up. -/
def eachFile (process : Bytes → Progress → Except StoreError Unit × Progress) :
    (live aborted : Nat) → List (Option Bytes) → Progress → Nat × Progress
  | 0, aborted, _, p => (aborted, p)
  | _, aborted, [], p => (aborted, p)
  | live + 1, aborted, none :: files, p =>
    eachFile process (live + 1) aborted files (p.count (·.addFailedFiles 1))
  | live + 1, aborted, some file :: files, p =>
    match process file p with
    | (.ok (), p) => eachFile process (live + 1) aborted files p
    | (.error _, p) => eachFile process live (aborted + 1) files p

def runPass (preload : Preload) (pass : Pass)
    (process : Bytes → Progress → Except StoreError Unit × Progress) (p : Progress) :
    Except PreloadError Unit × Progress :=
  let live := max 1 (min preload.workerCount preload.files.length)
  match eachFile process live 0 preload.files p with
  | (0, p) => (.ok (), p)
  | (aborted, p) => (.error (.aborted pass aborted), p)

def writeStage (media : Media) (stage : Stage) (p : Progress) :
    Except PreloadError Unit × Progress :=
  match p.write media (WriteUnit.setStage stage) with
  | (.ok (), p) => (.ok (), p)
  | (.error e, p) => (.error (.store e), p)

/-- Runs a pass between two stages. The second one is reached only if no worker gave up. -/
def stagedPass (preload : Preload) (media : Media) (pass : Pass) (before after : Stage)
    (step : Bytes → Progress → Except StoreError Unit × Progress) (p : Progress) :
    Except PreloadError Unit × Progress :=
  match writeStage media before p with
  | (.error e, p) => (.error e, p)
  | (.ok (), p) =>
    match preload.runPass pass (preload.indexFile media step) p with
    | (.error e, p) => (.error e, p)
    | (.ok (), p) => writeStage media after p

/-! ## The passes -/

/-- The headers pass: reads all headers and links them. -/
def scanHeaders (preload : Preload) (counters : Counters) : Chain × Counters :=
  (Chain.ofHeaders (preload.files.reduceOption.flatMap (BlockFile.headers preload.magic)),
    counters.addFailedFiles (preload.files.countP Option.isNone))

/-- The rows of the outputs of a block, with the height that a chain gives to it. -/
def outputRows (chain : Chain) (block : Bytes) : Except CodecError Batch := do
  let header ← Header.ofBlockBytes block
  Batch.outputs block ((chain.height? header.hash).map UInt32.ofNat)

def outputsStep (media : Media) (chain : Chain) (block : Bytes) (p : Progress) :
    Except StoreError Unit × Progress :=
  match outputRows chain block with
  | .error _ => (.ok (), p.count (·.addSkippedBlock))
  | .ok batch =>
    match p.write media batch.fund with
    | (.error e, p) => (.error e, p)
    | (.ok duplicates, p) =>
      (.ok (), p.count fun c ↦
        (c.addOutputs batch.funding.length duplicates).addBlock batch.transactions)

def spendsStep (media : Media) (block : Bytes) (p : Progress) : Except StoreError Unit × Progress :=
  match Batch.spends block with
  | .error _ => (.ok (), p.count (·.addSkippedBlock))
  | .ok batch =>
    match p.write media batch.spendAll with
    | (.error e, p) => (.error e, p)
    | (.ok tally, p) => (.ok (), p.count fun c ↦ (c.addSpends tally).addBlock batch.transactions)

/-- The outputs pass: adds every output, together with the header of its block. -/
def indexOutputs (preload : Preload) (media : Media) (chain : Chain) (p : Progress) :
    Except PreloadError Unit × Progress :=
  preload.stagedPass media .outputs .indexingOutputs .outputsIndexed (outputsStep media chain) p

/-- The spends pass: marks every output that is spent. It needs all outputs to be there. -/
def indexSpends (preload : Preload) (media : Media) (p : Progress) :
    Except PreloadError Unit × Progress :=
  match p.store.tables.stage with
  | .error e => (.error (.store e), p)
  | .ok stage =>
    if stage.hasOutputs then
      preload.stagedPass media .spends .indexingSpends .spendsIndexed (spendsStep media) p
    else (.error (.outputsNotIndexed stage), p)

structure Summary where
  files : Nat
  workers : Nat
  headers : Nat
  tip : Option (BlockHash × Nat)
  counters : Counters

def run (preload : Preload) (media : Media) (p : Progress) :
    Except PreloadError Summary × Progress :=
  let (chain, counters) := preload.scanHeaders p.counters
  match preload.indexOutputs media chain { p with counters } with
  | (.error e, p) => (.error e, p)
  | (.ok (), p) =>
    match preload.indexSpends media p with
    | (.error e, p) => (.error e, p)
    | (.ok (), p) =>
      (.ok
        { files := preload.files.length
          workers := preload.workerCount
          headers := chain.size
          tip := chain.tip
          counters := p.counters }, p)

end Preload

end TxoIndex

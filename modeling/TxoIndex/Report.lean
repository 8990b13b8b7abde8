import TxoIndex.Chain
import TxoIndex.Decimal.Binary64
import TxoIndex.Preload
import TxoIndex.Query
import TxoIndex.Report.Table
import TxoIndex.Report.Time

/-!
# Reports

What the command line shows of an index: outputs and statistics as tables, and amounts in bitcoins.
An amount is shown as the nearest number of the double format, with eight places.
-/

namespace TxoIndex.Report

/-- The text of an amount in satoshis. -/
def amount (sats : Nat) : String :=
  match Binary64.ofRatio? sats 100000000 with
  | some x => x.fixed 8
  | none => toString sats

/-- The text of the size of a map, in millions of bytes. -/
def megabytes (size : Nat) : String :=
  let quotient := do (← Binary64.ofNat? size).div? (← Binary64.ofNat? 1000000)
  match quotient with
  | some x => x.fixed 1 ++ " MB"
  | none => toString size

def txoRow (txo : Txo) : List String :=
  [txo.outpoint.display, txo.height.elim "?" fun h ↦ toString h.toNat, amount txo.value.toNat,
    txo.spentBy.elim "-" Outpoint.display]

def historyTable (txos : List Txo) : List String :=
  table ["outpoint", "height", "value", "spent_by"] (txos.map txoRow)

def tipRows (chain : Chain) : List (List String) :=
  match chain.tip with
  | none => []
  | some (hash, height) =>
    let time := (chain.header? hash).elim "?" fun header ↦ timeText header.time.toNat
    [["tip", s!"{hash.display} at height {height} ({time})"]]

def statusTable (stage : Stage) (stats : StoreStats) (chain : Chain) : List String :=
  table ["name", "value"] <|
    [["stage", stage.name], ["TXOs", toString stats.txos],
      ["script hashes", toString stats.scriptHashes], ["headers", toString stats.headers],
      ["map size", megabytes stats.mapSize]] ++ tipRows chain

def summaryLines (s : Preload.Summary) : List String :=
  let c := s.counters
  s!"{s.headers} headers, {c.outputs} outputs, {c.spends} spends from {s.files} files" ::
    match s.tip with
    | none => []
    | some (hash, height) => [s!"tip: {hash.display} at height {height}"]

end TxoIndex.Report

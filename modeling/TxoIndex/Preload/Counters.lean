import TxoIndex.Store.WriteUnit

/-!
# Counters of a preload

What a preload reports about itself: totals over all its passes. Nothing in the index depends on
them.
-/

namespace TxoIndex

/-- Totals since a preload started. -/
@[ext]
structure Counters where
  /-- Blocks written, each pass counting its own. -/
  blocks : Nat
  transactions : Nat
  outputs : Nat
  spends : Nat
  /-- Outputs and spends that were there already. -/
  duplicates : Nat
  /-- Spends of outputs that another input spends. -/
  conflicts : Nat
  /-- Spends of outputs that are not in the index. -/
  missing : Nat
  skippedBlocks : Nat
  failedFiles : Nat
  deriving DecidableEq, Repr

/-- What the inputs of one block did to the outputs that they spend. -/
structure SpendTally where
  spent : Nat
  alreadySpent : Nat
  conflicts : Nat
  missing : Nat
  deriving DecidableEq, Repr

namespace SpendTally

def zero : SpendTally := ⟨0, 0, 0, 0⟩

def add (t : SpendTally) : Spent → SpendTally
  | .spent => { t with spent := t.spent + 1 }
  | .alreadySpent => { t with alreadySpent := t.alreadySpent + 1 }
  | .conflict _ => { t with conflicts := t.conflicts + 1 }
  | .missing => { t with missing := t.missing + 1 }

end SpendTally

namespace Counters

def zero : Counters := ⟨0, 0, 0, 0, 0, 0, 0, 0, 0⟩

def addBlock (c : Counters) (transactions : Nat) : Counters :=
  { c with blocks := c.blocks + 1, transactions := c.transactions + transactions }

/-- Counts the outputs of a block, of which some were duplicates. -/
def addOutputs (c : Counters) (rows duplicates : Nat) : Counters :=
  { c with outputs := c.outputs + (rows - duplicates), duplicates := c.duplicates + duplicates }

def addSpends (c : Counters) (t : SpendTally) : Counters :=
  { c with
    spends := c.spends + t.spent
    duplicates := c.duplicates + t.alreadySpent
    conflicts := c.conflicts + t.conflicts
    missing := c.missing + t.missing }

def addSkippedBlock (c : Counters) : Counters := { c with skippedBlocks := c.skippedBlocks + 1 }

def addFailedFiles (c : Counters) (count : Nat) : Counters :=
  { c with failedFiles := c.failedFiles + count }

end Counters

end TxoIndex

/-!
# Stages

How far the index has been built. Stages are ordered, and the spends pass may start from the third
one on.
-/

namespace TxoIndex

inductive Stage where
  | empty
  | indexingOutputs
  | outputsIndexed
  | indexingSpends
  | spendsIndexed
  deriving DecidableEq, Repr, Inhabited

namespace Stage

def all : List Stage := [empty, indexingOutputs, outputsIndexed, indexingSpends, spendsIndexed]

/-- The place of a stage in the order, and the byte that stands for it. -/
def rank : Stage → Nat
  | empty => 0
  | indexingOutputs => 1
  | outputsIndexed => 2
  | indexingSpends => 3
  | spendsIndexed => 4

def ofRank? (n : Nat) : Option Stage := all[n]?

def name : Stage → String
  | empty => "Empty"
  | indexingOutputs => "IndexingOutputs"
  | outputsIndexed => "OutputsIndexed"
  | indexingSpends => "IndexingSpends"
  | spendsIndexed => "SpendsIndexed"

def ofName? (text : String) : Option Stage := all.find? fun s ↦ s.name = text

/-- Whether every output is in the index. -/
def hasOutputs (s : Stage) : Bool := outputsIndexed.rank ≤ s.rank

theorem ofRank?_rank (s : Stage) : ofRank? s.rank = some s := by
  cases s <;> rfl

end Stage

end TxoIndex

import Std.Data.ExtTreeMap
import TxoIndex.Block.Basic

/-!
# Chains of headers

Headers name their parents, and a header whose parent is the zero hash starts a chain. The height of
a block is the number of steps from there; a header that is not connected to a start has no height.
Headers may come in any order and any number of times.

Heights are assigned by a traversal with a stack. Every hash has one parent, so the traversal comes
to each hash at most once as long as no header is named by the zero hash, and it ends after at most
as many steps as there are hashes. That number bounds the traversal.
-/

namespace TxoIndex

/-- Headers by their names, and the names of the children of each name, the latest first. -/
structure HeaderLinks where
  headers : Std.ExtTreeMap BlockHash Header
  children : Std.ExtTreeMap BlockHash (List BlockHash)

namespace HeaderLinks

def empty : HeaderLinks := ⟨∅, ∅⟩

/-- Adds a header. A header of the same name is replaced, and stays the child that it is. -/
def add (links : HeaderLinks) (header : Header) : HeaderLinks :=
  let hash := header.hash
  { headers := links.headers.insert hash header
    children :=
      if links.headers.contains hash then links.children
      else links.children.insert header.prev (hash :: links.children.getD header.prev []) }

def ofHeaders (headers : List Header) : HeaderLinks :=
  headers.foldl add empty

def childrenOf (links : HeaderLinks) (hash : BlockHash) : List BlockHash :=
  links.children.getD hash []

end HeaderLinks

/-- Where the assignment of heights stands. -/
structure HeightTraversal where
  heights : Std.ExtTreeMap BlockHash Nat
  /-- The first hash of the greatest height so far. -/
  tip : Option (BlockHash × Nat)
  /-- The hashes still to be visited, with their heights. -/
  stack : List (BlockHash × Nat)

namespace HeightTraversal

/-- The traversal before its first step: the blocks without a parent have height zero. -/
def start (links : HeaderLinks) : HeightTraversal :=
  ⟨∅, none, (links.childrenOf Hash.zero).map (·, 0)⟩

def higher (tip : Option (BlockHash × Nat)) (hash : BlockHash) (height : Nat) :
    Option (BlockHash × Nat) :=
  match tip with
  | none => some (hash, height)
  | some (best, top) => if top < height then some (hash, height) else some (best, top)

def step (links : HeaderLinks) (t : HeightTraversal) : HeightTraversal :=
  match t.stack with
  | [] => t
  | (hash, height) :: rest =>
    { heights := t.heights.insert hash height
      tip := higher t.tip hash height
      stack := (links.childrenOf hash).map (·, height + 1) ++ rest }

/-- At most `bound` steps. -/
def run (links : HeaderLinks) : (bound : Nat) → HeightTraversal → HeightTraversal
  | 0, t => t
  | bound + 1, t => if t.stack.isEmpty then t else run links bound (step links t)

end HeightTraversal

structure Chain where
  headers : Std.ExtTreeMap BlockHash Header
  heights : Std.ExtTreeMap BlockHash Nat
  /-- A block of the greatest height. -/
  tip : Option (BlockHash × Nat)

namespace Chain

def empty : Chain := ⟨∅, ∅, none⟩

def ofHeaders (headers : List Header) : Chain :=
  let links := HeaderLinks.ofHeaders headers
  let t := HeightTraversal.run links links.headers.size (.start links)
  ⟨links.headers, t.heights, t.tip⟩

/-- The height of a block, if it is connected to a start. -/
def height? (c : Chain) (hash : BlockHash) : Option Nat := c.heights[hash]?

def header? (c : Chain) (hash : BlockHash) : Option Header := c.headers[hash]?

/-- The number of different headers. -/
def size (c : Chain) : Nat := c.headers.size

end Chain

end TxoIndex

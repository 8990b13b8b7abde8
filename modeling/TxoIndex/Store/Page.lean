import TxoIndex.Bytes
import TxoIndex.Store.Error

/-!
# Pages of data files

A data file of the table engine is a row of pages of one size, and a table is a search tree whose
nodes are pages. A branch leads to other pages; a leaf holds entries, each a key with a value. A
value that is too long for a leaf has a run of pages of its own. A leaf can also be packed: it then
holds nothing but keys of one length.

Pages are read for all that is in them, from the first entry of a table to the last one.
-/

namespace TxoIndex

/-- What is written down about a table: its flags, and the page where its tree starts. -/
structure TreeRecord where
  flags : Nat
  root : Nat

namespace TreeRecord

def noRoot : Nat := 0xffffffffffffffff

def read (bs : Bytes) : TreeRecord where
  flags := bs.numberAt 4 2
  root := bs.numberAt 40 8

end TreeRecord

structure PageEntry where
  flags : Nat
  key : Bytes
  value : Bytes

namespace PageEntry

/-- Whether the value is on pages of its own. -/
def isLong (flags : Nat) : Bool := flags.testBit 0

/-- Whether the value is what is written down about a table. -/
def isTable (e : PageEntry) : Bool := e.flags.testBit 1

/-- Whether the value stands for several values. -/
def isMultiple (e : PageEntry) : Bool := e.flags.testBit 2

end PageEntry

namespace Page

/-- The length of what comes before the entries of a page. -/
def headLength : Nat := 16

def flags (page : Bytes) : Nat := page.numberAt 10 2

def isBranch (page : Bytes) : Bool := (flags page).testBit 0

def isLeaf (page : Bytes) : Bool := (flags page).testBit 1

def isPacked (page : Bytes) : Bool := (flags page).testBit 5

def count (page : Bytes) : Nat := (page.numberAt 12 2 - headLength) / 2

def starts (page : Bytes) : List Nat :=
  (List.range (count page)).map fun i ↦ page.numberAt (headLength + 2 * i) 2

def children (page : Bytes) : List Nat := (starts page).map fun start ↦ page.numberAt start 6

def keyAt (page : Bytes) (start : Nat) : Bytes :=
  page.slice (start + 8) (page.numberAt (start + 6) 2)

def keys (page : Bytes) : List Bytes :=
  if isPacked page then
    let width := page.numberAt 8 2
    (List.range (count page)).map fun i ↦ page.slice (headLength + width * i) width
  else (starts page).map (keyAt page)

end Page

structure Pages where
  size : Nat
  last : Nat
  pages : Array Bytes

namespace Pages

/-- Cuts a byte string into pieces of a size; the last one may be shorter. -/
def cut (size : Nat) (bs : Bytes) : List Bytes :=
  if _h : size = 0 ∨ bs.length = 0 then [] else bs.take size :: cut size (bs.drop size)
termination_by bs.length
decreasing_by
  rw [List.length_drop]
  omega

def ofFile (size last : Nat) (content : Bytes) : Pages := ⟨size, last, (cut size content).toArray⟩

def page (p : Pages) (number : Nat) : Except EngineError Bytes :=
  if p.last < number then .error .pageNotFound else .ok (p.pages.getD number [])

/-- A value of a length that has pages of its own, from the given one on. -/
def longValue (p : Pages) (first length : Nat) : Except EngineError Bytes := do
  let count := if p.size = 0 then 0 else (Page.headLength + length + p.size - 1) / p.size
  let run ← (List.range' first count).mapM p.page
  return Bytes.slice run.flatten Page.headLength length

def entryAt (p : Pages) (page : Bytes) (start : Nat) : Except EngineError PageEntry := do
  let length := page.numberAt start 4
  let flags := page.numberAt (start + 4) 2
  let key := Page.keyAt page start
  let behind := start + 8 + page.numberAt (start + 6) 2
  let value ←
    if PageEntry.isLong flags then p.longValue (page.numberAt behind 8) length
    else pure (page.slice behind length)
  return { flags, key, value }

/-- The leaves below some pages, in their order. In a tree every page is met once, so there are not
more of them than `bound`. -/
def leaves (p : Pages) : (bound : Nat) → (waiting : List Nat) → Except EngineError (List Bytes)
  | _, [] => .ok []
  | 0, _ :: _ => .error .corrupted
  | bound + 1, number :: waiting => do
    let page ← p.page number
    if Page.isBranch page then p.leaves bound (Page.children page ++ waiting)
    else if Page.isLeaf page then return page :: (← p.leaves bound waiting)
    else throw .corrupted

/-- The leaves of a table. -/
def tree (p : Pages) (record : TreeRecord) : Except EngineError (List Bytes) :=
  if record.root = TreeRecord.noRoot then .ok [] else p.leaves (p.last + 1) [record.root]

def entries (p : Pages) (record : TreeRecord) : Except EngineError (List PageEntry) := do
  let found ← (← p.tree record).mapM fun leaf ↦ (Page.starts leaf).mapM (p.entryAt leaf)
  return found.flatten

def values (p : Pages) (e : PageEntry) : Except EngineError (List Bytes) :=
  if ¬ e.isMultiple then .ok [e.value]
  else if e.isTable then do return (← p.tree (.read e.value)).flatMap Page.keys
  else .ok (Page.keys e.value)

end Pages

end TxoIndex

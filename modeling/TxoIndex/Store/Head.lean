import TxoIndex.Store.Page

/-!
# Heads of data files

A data file of the table engine has two heads. The second one lies one page behind the first, which
tells the size of a page. Both have to be good: a head is marked as one, and is of the version that
the engine reads.

Heads are numbered by transactions, and a transaction of an even number writes the first one. So the
head of the larger number is the last one that was written; it counts when the file is opened. The
next transaction goes on from the head at the place where that number belongs, which is the same one
unless another program has written them otherwise.
-/

namespace TxoIndex

structure DataHead where
  mapSize : Nat
  pageSize : Nat
  /-- The table of pages that are not used any more. -/
  free : TreeRecord
  /-- The table of tables. -/
  main : TreeRecord
  lastPage : Nat
  number : Nat

namespace DataHead

def length : Nat := 152

/-- The bit in the eleventh byte that tells heads from other pages. -/
def flag : UInt8 := 8

/-- What comes before the mark. -/
def lead : Bytes := [0, 0, 0, 0, 0, 0, 0, 0, 0, 0, flag, 0, 0, 0, 0, 0]

/-- The mark of all files of the engine. -/
def mark : Bytes := [0xde, 0xc0, 0xef, 0xbe]

def version : Bytes := [1, 0, 0, 0]

def pageSizeLimit : Nat := 0x80000000

def read (bs : Bytes) : Except EngineError DataHead :=
  let bs : Bytes := bs.take length
  if bs.length < length then .error .invalidFile
  else if bs.getD 10 0 &&& flag = 0 ∨ bs.slice 16 4 ≠ mark then .error .invalidFile
  else if bs.slice 20 4 ≠ version then .error .versionMismatch
  else .ok {
    mapSize := bs.numberAt 32 8
    pageSize := bs.numberAt 40 4
    free := .read (bs.slice 40 48)
    main := .read (bs.slice 88 48)
    lastPage := bs.numberAt 136 8
    number := bs.numberAt 144 8 }

/-- The head that counts when a data file is opened, and the one from which the next transaction
goes on. -/
def ofFile (content : Bytes) : Except EngineError (DataHead × DataHead) := do
  let first ← read content
  if pageSizeLimit ≤ first.pageSize then throw (.file .invalidArgument)
  let second ← read (content.drop first.pageSize)
  let opening := if first.number < second.number then second else first
  return (opening, if opening.number % 2 = 0 then first else second)

end DataHead

end TxoIndex

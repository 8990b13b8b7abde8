import TxoIndex.Store.Error

/-!
# The ground of a store

Besides its tables a data file keeps how large its map was, how far its pages are taken, and which
of the tables have been made. The map has one size for the one who opens the file, and another may
be kept by the head from which the next transaction goes on; a commit leaves one size for both, and
the size never decreases by it.

Tables are made one by one when a store is opened, each in a transaction of its own. The pages that
this takes are known: a page for the table of tables, which every transaction writes anew, and a
page for the list of those that were given up.
-/

namespace TxoIndex

/-- The size of a map, and the last page that is taken. -/
structure Extent where
  mapSize : Nat
  lastPage : Nat

/-- What a data file keeps besides the tables. -/
structure Ground where
  pageSize : Nat
  /-- How many of the tables have been made. -/
  made : Nat
  /-- What counts when the file is opened. -/
  opening : Extent
  /-- What the next transaction goes on from. -/
  current : Extent
  /-- What the tables took when the file was found, on pages that are counted as taken. -/
  counted : Nat

namespace Ground

def usualPageSize : Nat := 4096

/-- A new data file, in which there are two heads only. -/
def fresh (mapSize : Nat) : Ground :=
  let extent := ⟨max mapSize (2 * usualPageSize), 1⟩
  ⟨usualPageSize, 0, extent, extent, 0⟩

def tableCount : Nat := 4

/-- The least size of a map, where the tables take `length` bytes. -/
def leastSize (g : Ground) (length : Nat) : Nat :=
  (g.opening.lastPage + 1) * g.pageSize + (length - g.counted)

def hasPages (g : Ground) (mapSize : Nat) : Bool := g.current.lastPage < mapSize / g.pageSize

/-- Whether a map has room for tables that take `length` bytes. Its last page is never used. -/
def hasRoom (g : Ground) (mapSize length : Nat) : Bool :=
  (g.current.lastPage + 2) * g.pageSize + length ≤ mapSize + g.counted

def commit (g : Ground) (mapSize : Nat) : Ground :=
  let extent := { g.current with mapSize := max g.current.mapSize mapSize }
  { g with opening := extent, current := extent }

/-- How many new pages are taken when a table is made behind the given number of others. The last
table finds a page that was given up. -/
def pagesToMake : (made : Nat) → Nat
  | 0 => 1
  | 1 | 2 => 2
  | _ => 1

def makeTable? (g : Ground) (mapSize : Nat) : Option Ground :=
  let lastPage := g.current.lastPage + pagesToMake g.made
  if lastPage + 1 < mapSize / g.pageSize then
    some ({ g with made := g.made + 1, current := { g.current with lastPage } }.commit mapSize)
  else none

/-- Makes the tables that there are not, until the map is full. -/
def makeTables (g : Ground) (mapSize : Nat) : Except EngineError Unit × Ground :=
  go (tableCount - g.made) g
where
  go : (missing : Nat) → Ground → Except EngineError Unit × Ground
    | 0, g => (.ok (), g)
    | missing + 1, g =>
      match g.makeTable? mapSize with
      | none => (.error .mapFull, g)
      | some g => go missing g

end Ground

end TxoIndex

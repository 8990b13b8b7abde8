import TxoIndex.Store.WriteUnit

/-!
# Stores

A store is a set of tables in a map of limited size. A unit that does not fit is rolled back, the
map grows to the next multiple of the growth step, and the unit is run again, a bounded number of
times. A configured maximum is never exceeded.
-/

namespace TxoIndex

structure StoreOptions where
  minMapSize : Nat
  /-- The map grows to the next multiple of this step. -/
  growthStep : Nat
  maxMapSize : Option Nat
  /-- Whether commits may be lost in a crash. -/
  noSync : Bool
  deriving DecidableEq, Repr

def defaultMapSize : Nat := 104857600

instance : Inhabited StoreOptions := ⟨⟨defaultMapSize, defaultMapSize, none, false⟩⟩

/-- A mebibyte: the least step, and the size of a map for which none was asked. -/
def leastMapSize : Nat := 1048576

/-- The size of the map to open, where `lastSize` is its size before. -/
def StoreOptions.requestedSize (options : StoreOptions) (lastSize : Nat) : Nat :=
  if options.minMapSize = 0 then lastSize else options.minMapSize

/-- Where tables are kept. -/
structure Medium where
  /-- In the `attempt`-th transaction for a unit it is asked whether the tables that the operation
  of the given `number` wants to store fit a map of size `mapSize`. -/
  answer : (attempt number mapSize : Nat) → Tables → Answer
  /-- Whether there can be a map of a size. -/
  accepts : (mapSize : Nat) → Bool
  /-- What comes of flushing everything that was committed. -/
  flush : Except EngineError Unit

/-- The largest range of addresses that a program can have for a map. -/
def addressRange : Nat := 0x555555554000

def isMapSize (size : Nat) : Bool := size ≤ addressRange

def Medium.counting (ground : Ground) : Medium where
  answer _ _ mapSize t := if ground.hasRoom mapSize t.footprint then .fits else .mapFull
  accepts := isMapSize
  flush := .ok ()

/-- Flushes what was committed. Commits that may be lost in a crash no longer are after it. -/
def Medium.sync (medium : Medium) : Except StoreError Unit := medium.flush.mapError .engine

/-- The size of the map at first, which is never smaller than the pages that are taken. -/
def StoreOptions.openingSize (options : StoreOptions) (tables : Tables) (ground : Ground) : Nat :=
  max (options.requestedSize ground.opening.mapSize) (ground.leastSize tables.footprint)

structure Store where
  tables : Tables
  mapSize : Nat
  /-- How often the map has grown since the store was opened. -/
  resizes : Nat
  /-- What outlives the store besides its tables. -/
  ground : Ground
  options : StoreOptions

structure StoreStats where
  txos : Nat
  scriptHashes : Nat
  outpoints : Nat
  headers : Nat
  mapSize : Nat
  resizes : Nat
  deriving DecidableEq, Repr

namespace Store

def ofTables (options : StoreOptions) (tables : Tables) (ground : Ground) (mapSize : Nat) :
    Except StoreError Store := do
  let _ ← tables.stage
  return { tables, mapSize, resizes := 0, ground, options }

def counting (s : Store) : Medium := .counting s.ground

/-- The step by which the map grows. -/
def growthStep (s : Store) : Nat := max s.options.growthStep leastMapSize

/-- The size after growing: the next multiple of the step. -/
def grownSize (s : Store) : Nat := s.mapSize - s.mapSize % s.growthStep + s.growthStep

def exceedsLimit (s : Store) (size : Nat) : Bool :=
  match s.options.maxMapSize with
  | none => false
  | some limit => limit < size

/-- Grows the map beyond the size at which it was found full, unless it has grown since then. -/
def grow (s : Store) (medium : Medium) (observed : Nat) : Except StoreError Store :=
  if observed < s.mapSize then .ok s
  else if s.exceedsLimit s.grownSize then .error (.full s.mapSize)
  else if medium.accepts s.grownSize then
    .ok { s with mapSize := s.grownSize, resizes := s.resizes + 1 }
  else .error (.engine .outOfMemory)

/-- Keeps the tables of a transaction, and the size of the map if anything was stored. -/
def commit (s : Store) (stored : Bool) (tables : Tables) : Store :=
  { s with tables, ground := if stored then s.ground.commit s.mapSize else s.ground }

def maxAttempts : Nat := 10

/-- Tries a unit at most `left` times, from the given attempt on. -/
def tryWrite {α : Type} (medium : Medium) (unit : WriteUnit α) :
    (left attempt : Nat) → Store → Except StoreError α × Store
  | 0, _, s => (.error (.full s.mapSize), s)
  | left + 1, attempt, s =>
    match unit.attempt (fun number t ↦ medium.answer attempt number s.mapSize t) 0 false
        s.tables with
    | .committed a stored tables => (.ok a, s.commit stored tables)
    | .failed e => (.error e, s)
    | .mapFull =>
      match s.grow medium s.mapSize with
      | .error e => (.error e, s)
      | .ok s => tryWrite medium unit left (attempt + 1) s

/-- Runs a unit in a transaction and commits it. -/
def write {α : Type} (medium : Medium) (unit : WriteUnit α) (s : Store) :
    Except StoreError α × Store :=
  tryWrite medium unit maxAttempts 0 s

def stats (s : Store) : StoreStats where
  txos := s.tables.txoCount
  scriptHashes := s.tables.scripts.size
  outpoints := s.tables.outpoints.size
  headers := s.tables.headers.size
  mapSize := s.mapSize
  resizes := s.resizes

end Store

end TxoIndex

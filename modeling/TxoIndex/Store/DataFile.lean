import TxoIndex.Store.Head
import TxoIndex.Store.Tables

/-!
# Data files of the engine

A data file that another program has written with the table engine is read from its heads: the table
of tables names the tables of an index, each of which may be missing, and every table is read from
its first entry to its last one.
-/

namespace TxoIndex

namespace Bucket

def ofRecords? : List Bytes → Option Bucket
  | [] => none
  | record :: records => some (records.foldl insert (.singleton record))

end Bucket

namespace DataFile

def nameKey (name : String) : Bytes := name.toList.map fun c ↦ UInt8.ofNat c.toNat

/-- The kinds of a table of tables that the engine cannot use as one: with several values under a
key, or with numbers for keys. -/
def isUnusable (main : TreeRecord) : Bool := main.flags.testBit 2 || main.flags.testBit 3

/-- What the table of tables says about the table of a name, if there is one. -/
def find? (main : List PageEntry) (name : String) : Except EngineError (Option TreeRecord) :=
  match main.find? fun e ↦ e.key = nameKey name with
  | none => .ok none
  | some e =>
    if e.isTable && !e.isMultiple then .ok (some (.read e.value)) else .error .incompatible

/-- The entries of a table, of which there are none if it is missing. -/
def entries (p : Pages) : Option TreeRecord → Except EngineError (List PageEntry)
  | none => .ok []
  | some record => p.entries record

/-- A table with one value for each key. -/
def table (p : Pages) (record : Option TreeRecord) : Except EngineError Table := do
  return (← entries p record).foldl (fun t e ↦ t.insert e.key e.value) ∅

def scriptTable (p : Pages) (record : Option TreeRecord) :
    Except EngineError (Std.ExtTreeMap Bytes Bucket) := do
  (← entries p record).foldlM (fun t e ↦ do
    match Bucket.ofRecords? (← p.values e) with
    | some bucket => return t.insert e.key bucket
    | none => return t) ∅

def extent (head : DataHead) : Extent := ⟨head.mapSize, head.lastPage⟩

/-- Reads the tables of a data file, and what is kept besides. -/
def read (content : Bytes) : Except EngineError (Tables × Ground) := do
  let (opening, current) ← DataHead.ofFile content
  if isUnusable current.main then throw .incompatible
  let p := Pages.ofFile opening.pageSize current.lastPage content
  let main ← p.entries current.main
  let scripts ← find? main "script"
  let outpoints ← find? main "outpoint"
  let headers ← find? main "headers"
  let marks ← find? main "meta"
  let made := [scripts, outpoints, headers, marks].countP Option.isSome
  if made < Ground.tableCount then let _ ← p.tree current.free
  let tables : Tables := {
    scripts := ← scriptTable p scripts
    outpoints := ← table p outpoints
    headers := ← table p headers
    marks := ← table p marks }
  return (tables, {
    pageSize := opening.pageSize
    made
    opening := extent opening
    current := extent current
    counted := tables.footprint })

end DataFile

end TxoIndex

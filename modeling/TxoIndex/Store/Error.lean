import TxoIndex.Files.Error
import TxoIndex.Outpoint

/-!
# Errors of the store

What can go wrong in a store: an operation of the file system or of the table engine is refused, the
map cannot grow any more, or a table holds bytes that no operation of this library writes there.
-/

namespace TxoIndex

/-- A refusal of the table engine. -/
inductive EngineError where
  | keyExists
  | invalidFile
  | versionMismatch
  /-- A table starts behind the last page of the data file. -/
  | pageNotFound
  /-- A table starts at a page that is something else. -/
  | corrupted
  /-- A table is of another kind. -/
  | incompatible
  | mapFull
  /-- More pages are taken than the map has. -/
  | mapResized
  /-- A map of the size asked for does not fit the address space. -/
  | outOfMemory
  | file (cause : OsError)
  deriving DecidableEq, Repr

def EngineError.message : EngineError → String
  | keyExists => "MDB_KEYEXIST: Key/data pair already exists"
  | invalidFile => "MDB_INVALID: File is not an LMDB file"
  | versionMismatch => "MDB_VERSION_MISMATCH: Database environment version mismatch"
  | pageNotFound => "MDB_PAGE_NOTFOUND: Requested page not found"
  | corrupted => "MDB_CORRUPTED: Located page was wrong type"
  | incompatible => "MDB_INCOMPATIBLE: Operation and DB incompatible, or DB flags changed"
  | mapFull => "MDB_MAP_FULL: Environment mapsize limit reached"
  | mapResized => "MDB_MAP_RESIZED: Database contents grew beyond environment mapsize"
  | outOfMemory => "Cannot allocate memory"
  | file cause => cause.text

/-- Why an entry of a table is not what the table should hold. -/
inductive CorruptReason where
  | codec (cause : CodecError)
  | hashLength (length : Nat)
  | unknownStage (value : Nat)
  | stageLength (length : Nat)
  /-- An outpoint is indexed, but its record is not there. -/
  | missingTxo (outpoint : Outpoint)
  | other (text : String)
  deriving DecidableEq

def CorruptReason.message : CorruptReason → String
  | codec cause => cause.message
  | hashLength length => s!"invalid slice length {length} (expected 32)"
  | unknownStage value => s!"unknown stage {value}"
  | stageLength length => s!"invalid stage length {length}"
  | missingTxo outpoint => s!"missing TXO {outpoint.display}"
  | other text => text

inductive StoreError where
  | engine (cause : EngineError)
  | io (cause : OsError)
  /-- The map is full and may not grow. -/
  | full (mapSize : Nat)
  | corrupt (table key : String) (reason : CorruptReason)
  /-- The headers of a store without headers cannot be listed. -/
  | noHeaders
  deriving DecidableEq

namespace StoreError

/-- Whether the program gives up on the error instead of returning it. -/
def isPanic : StoreError → Bool
  | noHeaders => true
  | _ => false

def kind : StoreError → String
  | engine _ => "Lmdb"
  | io _ => "Io"
  | full _ => "Full"
  | corrupt .. => "Corrupt"
  | noHeaders => "Panic"

def message : StoreError → String
  | engine cause => s!"LMDB failed: {cause.message}"
  | io cause => s!"I/O failed: {cause.message}"
  | full mapSize => s!"map is full ({mapSize} bytes)"
  | corrupt table key reason => s!"corrupt {table} entry {key}: {reason.message}"
  | noHeaders =>
    "called \x60Result::unwrap()\x60 on an \x60Err\x60 value: NotFound"

end StoreError

end TxoIndex

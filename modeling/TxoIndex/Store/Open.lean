import TxoIndex.Files.Task
import TxoIndex.Store.Write

/-!
# Opening and closing stores

A store lives in a directory of its own, which is made when it is first opened. There is a lock
file in it, in which nothing is kept and which is written anew on every opening, and the data file
that holds the image. Opening refuses a data file that is something else, and a stage that is not
one. An open store goes on with the data file that was opened, wherever the path leads later on.

The size of the map is kept from one use to the next. A data file is made before there is a map, so
a size that is too large for a map is kept as well, and found again when no other size is asked for.
-/

namespace TxoIndex.Store

def fileAt (path name : String) : String := path ++ "/" ++ name

def dataFile (path : String) : String := fileAt path "data.mdb"

def lockFile (path : String) : String := fileAt path "lock.mdb"

/-- What a lock file holds: the mark of the engine, a version, and room for its users. -/
def lockContent : Bytes := DataHead.mark ++ [1, 0, 1, 0] ++ List.replicate 8184 0

def load (path : String) : FileTask (Except StoreError (Option StoreImage)) := do
  match ← FileTask.writeFile (lockFile path) lockContent with
  | .error e => return .error (.engine (.file e))
  | .ok () => return (← FileTask.loadImage (dataFile path)).mapError .engine

def save (path : String) (image : StoreImage) : FileTask (Except StoreError Unit) := do
  return (← FileTask.saveImage (dataFile path) image).mapError .engine

def newImage (options : StoreOptions) : StoreImage :=
  ⟨Tables.empty, .fresh (options.requestedSize leastMapSize)⟩

/-- Makes the missing tables of an image in a map, and tells what is to be saved. -/
def makeTables (image : StoreImage) (mapSize : Nat) : Except EngineError Unit × StoreImage :=
  let (result, ground) := image.ground.makeTables mapSize
  (result, { image with ground })

/-- Opens the store of an image. Tables that are missing are made and saved first. -/
def openImage (path : String) (options : StoreOptions) (image : StoreImage) :
    FileTask (Except StoreError Store) := do
  let mapSize := options.openingSize image.tables image.ground
  if ¬ isMapSize mapSize then return .error (.engine .outOfMemory)
  else if ¬ image.ground.hasPages mapSize then return .error (.engine .mapResized)
  else if image.ground.made = Ground.tableCount then
    return ofTables options image.tables image.ground mapSize
  else
    let (result, image) := makeTables image mapSize
    match ← save path image, result with
    | .error e, _ => return .error e
    | .ok (), .error e => return .error (.engine e)
    | .ok (), .ok () => return ofTables options image.tables image.ground mapSize

/-- Opens the store in a directory that is there. A new data file is saved before there is a map. -/
def openIn (path : String) (options : StoreOptions) : FileTask (Except StoreError Store) := do
  match ← load path with
  | .error e => return .error e
  | .ok (some image) => openImage path options image
  | .ok none =>
    match ← save path (newImage options) with
    | .error e => return .error e
    | .ok () => openImage path options (newImage options)

end Store

/-- An open store, and the path of its data file. -/
structure OpenStore where
  store : Store
  /-- There were no links on it when the store was opened. -/
  path : String

namespace OpenStore

def openAt (path : String) (options : StoreOptions) :
    FileTask (Except StoreError OpenStore) := do
  match ← FileTask.makeDirectory path with
  | .error e => return .error (.io e)
  | .ok () =>
    match ← Store.openIn path options with
    | .error e => return .error e
    | .ok store =>
      match ← FileTask.resolvePath (Store.dataFile path) with
      | .error e => return .error (.io e)
      | .ok path => return .ok { store, path }

/-- Closes a store. What is no longer there is not written again. -/
def close (s : OpenStore) : FileTask (Except StoreError Unit) := do
  let image := ⟨s.store.tables, s.store.ground⟩
  return (← FileTask.replaceImage s.path image).mapError .engine

end OpenStore

end TxoIndex

import TxoIndex.Files.Path
import TxoIndex.Files.Task
import TxoIndex.Preload.Error

/-!
# Finding block files

The block files of a directory are the regular files whose names start with `blk`, in the order of
their names.
-/

namespace TxoIndex.Preload

/-- The block files among some names, in order. -/
def blockFileNames (names : List String) : List String :=
  (names.filter (·.startsWith "blk")).mergeSort fun x y ↦ decide (x ≤ y)

def findFiles (directory : String) : FileTask (Except PreloadError (List String)) := do
  match ← FileTask.listFiles directory with
  | .error e => return .error (.listing e)
  | .ok names => return .ok ((blockFileNames names).map (Path.join directory))

/-- The contents of files, where they can be read. -/
def readFiles : List String → FileTask (List (Option Bytes))
  | [] => return []
  | path :: paths => do
    let content ← FileTask.readFile path
    return content.toOption :: (← readFiles paths)

end TxoIndex.Preload

import TxoIndex.Cli.Run

/-!
# The program

Runs the command line on the files of the machine. All that the program decides is decided by the
task that it runs; this module only answers the requests of the task.
-/

namespace TxoIndex

/-- The reason that an exception gives. -/
def osError (e : IO.Error) : OsError :=
  match e with
  | .noFileOrDirectory .. => .notFound
  | .alreadyExists .. => .alreadyExists
  | .inappropriateType .. => .notDirectory
  | other => .other (toString other)

def tryFiles {α : Type} (action : IO α) : IO (Except OsError α) := do
  match ← action.toBaseIO with
  | .ok a => return .ok a
  | .error e => return .error (osError e)

def regularFiles (path : String) : IO (List String) := do
  let directory := (← IO.currentDir) / path
  let entries ← directory.readDir
  let regular ← entries.toList.filterM fun entry ↦ do
    return (← entry.path.symlinkMetadata).type == .file
  return regular.map (·.fileName)

/-- The image in a data file, or `none` if there is no such file or nothing in it. -/
def readImage (path : String) : IO (Except EngineError (Option StoreImage)) := do
  match ← tryFiles (IO.FS.readBinFile path) with
  | .error .notFound => return .ok none
  | .error e => return .error (.file e)
  | .ok content => return StoreImage.ofFile content.toList

def writeImage (path : String) (image : StoreImage) : IO (Except EngineError Unit) := do
  match ← tryFiles (IO.FS.writeBinFile path ⟨image.encode.toArray⟩) with
  | .ok () => return .ok ()
  | .error e => return .error (.file e)

def answerRequest : (r : Request) → IO r.Reply
  | .readFile path => tryFiles do return (← IO.FS.readBinFile path).toList
  | .writeFile path content => tryFiles (IO.FS.writeBinFile path ⟨content.toArray⟩)
  | .makeDirectory path => tryFiles (IO.FS.createDirAll path)
  | .listFiles path => tryFiles (regularFiles path)
  | .resolvePath path => tryFiles do return (← IO.FS.realPath path).toString
  | .loadImage path => readImage path
  | .saveImage path image | .replaceImage path image => writeImage path image

def runTask {α : Type} : FileTask α → IO α
  | .done a => return a
  | .ask r next => do runTask (next (← answerRequest r))

end TxoIndex

def main (args : List String) : IO UInt32 := do
  let exit ← TxoIndex.runTask (TxoIndex.Cli.run args)
  IO.print exit.output
  match exit.failure with
  | some failure => IO.eprintln s!"Error: {failure.message}"
  | none => if exit.code ≠ 0 then IO.eprint (TxoIndex.Cli.unlines TxoIndex.Cli.usageLines)
  return UInt32.ofNat exit.code

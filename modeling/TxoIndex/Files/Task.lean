import TxoIndex.Files.Error
import TxoIndex.Store.Image

/-!
# Tasks

A task is a computation that asks the file system for things on its way. It is data: what it
computes, and in which order it asks, does not depend on who answers. The same task runs on the
files of a machine and on a tree of files that is itself a value.
-/

namespace TxoIndex

/-- What a task may ask for. -/
inductive Request where
  | readFile (path : String)
  | writeFile (path : String) (content : Bytes)
  /-- Makes a directory and those above it, unless they exist. -/
  | makeDirectory (path : String)
  /-- The names of the regular files in a directory. -/
  | listFiles (path : String)
  /-- The path of what a path leads to, on which there are no links. -/
  | resolvePath (path : String)
  /-- The image in a data file, or `none` if there is no such file or nothing in it. -/
  | loadImage (path : String)
  | saveImage (path : String) (image : StoreImage)
  /-- Saves an image in place of another one, if that is still there. No links are followed. -/
  | replaceImage (path : String) (image : StoreImage)

def Request.Reply : Request → Type
  | readFile _ => Except OsError Bytes
  | writeFile .. => Except OsError Unit
  | makeDirectory _ => Except OsError Unit
  | listFiles _ => Except OsError (List String)
  | resolvePath _ => Except OsError String
  | loadImage _ => Except EngineError (Option StoreImage)
  | saveImage .. => Except EngineError Unit
  | replaceImage .. => Except EngineError Unit

/-- A computation that asks for things and yields an `α`. -/
inductive FileTask (α : Type) where
  | done (a : α)
  | ask (r : Request) (next : r.Reply → FileTask α)

namespace FileTask

def bind {α β : Type} : FileTask α → (α → FileTask β) → FileTask β
  | done a, f => f a
  | ask r next, f => ask r fun reply ↦ (next reply).bind f

instance : Monad FileTask where
  pure := done
  bind := bind

def readFile (path : String) : FileTask (Except OsError Bytes) := ask (.readFile path) done

def writeFile (path : String) (content : Bytes) : FileTask (Except OsError Unit) :=
  ask (.writeFile path content) done

def makeDirectory (path : String) : FileTask (Except OsError Unit) := ask (.makeDirectory path) done

def listFiles (path : String) : FileTask (Except OsError (List String)) :=
  ask (.listFiles path) done

def resolvePath (path : String) : FileTask (Except OsError String) := ask (.resolvePath path) done

def loadImage (path : String) : FileTask (Except EngineError (Option StoreImage)) :=
  ask (.loadImage path) done

def saveImage (path : String) (image : StoreImage) : FileTask (Except EngineError Unit) :=
  ask (.saveImage path image) done

def replaceImage (path : String) (image : StoreImage) : FileTask (Except EngineError Unit) :=
  ask (.replaceImage path image) done

end FileTask

end TxoIndex

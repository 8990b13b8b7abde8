import TxoIndex.Files.Path
import TxoIndex.Files.Task

/-!
# Trees of files

A file system as a value: files, data files of stores, links, and directories of all of these. A
path is walked from name to name. Links are followed on the way, a limited number of them for each
path, and a directory is asked for wherever another name, a dot or a slash follows. What happens at
the last name depends on what the path is wanted for.
-/

namespace TxoIndex

inductive Node where
  | file (content : Bytes)
  /-- The data file of a store. -/
  | image (image : StoreImage)
  | directory (entries : List (String × Node))
  /-- Stands for what lies under another path. -/
  | link (target : String)

/-- What is in a directory, under distinct names. -/
abbrev Entries := List (String × Node)

def Node.image? : Node → Option StoreImage
  | .image found => some found
  | .file content => (StoreImage.ofFile content).toOption.join
  | .directory _ | .link _ => none

/-- Changes what is at a place, if the directories above it are there. -/
def Entries.alter (change : Option Node → Option Node) : (place : List String) → Entries → Entries
  | [], entries => entries
  | [name], entries =>
    match change (entries.lookup name) with
    | some node => (name, node) :: entries.filter (·.1 ≠ name)
    | none => entries.filter (·.1 ≠ name)
  | name :: below, entries =>
    entries.map fun (other, node) ↦
      match node with
      | .directory inner =>
        (other, if other = name then .directory (alter change below inner) else node)
      | _ => (other, node)

structure FileTree where
  entries : Entries

namespace FileTree

def empty : FileTree := ⟨[]⟩

def put (t : FileTree) (place : List String) (node : Node) : FileTree :=
  ⟨Entries.alter (fun _ ↦ some node) place t.entries⟩

def remove (t : FileTree) (place : List String) : FileTree :=
  ⟨Entries.alter (fun _ ↦ none) place t.entries⟩

/-! ## Walking along paths -/

/-- What a path is walked along for. -/
inductive Aim where
  /-- To use what is there. -/
  | use
  /-- To write a file, which need not be there. -/
  | write
  /-- To make a directory, where there is nothing. -/
  | make
  deriving DecidableEq

/-- A directory on the way: what is in it, and the directories above it from the innermost on, each
with the name in it that was taken. -/
structure Spot where
  entries : Entries
  above : List (String × Entries)

namespace Spot

def place (s : Spot) : List String := (s.above.map (·.1)).reverse

def down (s : Spot) (name : String) (entries : Entries) : Spot :=
  ⟨entries, (name, s.entries) :: s.above⟩

/-- The directory above; the top is above itself. -/
def up (s : Spot) : Spot :=
  match s.above with
  | [] => s
  | (_, entries) :: above => ⟨entries, above⟩

end Spot

def top (t : FileTree) : Spot := ⟨t.entries, []⟩

/-- Where a path leads to, and what is there. -/
structure Arrival where
  place : List String
  node : Option Node

/-- How many links may be followed for one path. -/
def maxLinks : Nat := 40

/-- The end of a walk in a directory. -/
def arriveAt (aim : Aim) (spot : Spot) : Except OsError Arrival :=
  match aim with
  | .use => .ok ⟨spot.place, some (.directory spot.entries)⟩
  | .write => .error .isDirectory
  | .make => .error .alreadyExists

/-- The end of a walk at a last name, where there is no directory and no link to be followed. -/
def arriveBy (aim : Aim) (spot : Spot) (name : String) (slash : Bool) :
    Option Node → Except OsError Arrival
  | none => if aim = .use then .error .notFound else .ok ⟨spot.place ++ [name], none⟩
  | some node =>
    if aim = .make then .error .alreadyExists
    else if slash then .error .notDirectory
    else .ok ⟨spot.place ++ [name], some node⟩

/-- Walks on from a directory. `slash` tells whether a slash follows the last name. -/
def walk (t : FileTree) (aim : Aim) :
    (links : Nat) → (slash : Bool) → Spot → (names : List String) → Except OsError Arrival
  | _, _, spot, [] => arriveAt aim spot
  | links, slash, spot, name :: rest =>
    if name = "." then t.walk aim links slash spot rest
    else if name = ".." then t.walk aim links slash spot.up rest
    else if aim = .write ∧ slash ∧ rest.isEmpty then .error .isDirectory
    else if Path.maxNameLength < name.utf8ByteSize then .error .nameTooLong
    else
      match spot.entries.lookup name with
      | some (.directory entries) => t.walk aim links slash (spot.down name entries) rest
      | some (.link target) =>
        if aim = .make ∧ rest.isEmpty then .error .alreadyExists
        else
          match links with
          | 0 => .error .linkLoop
          | links + 1 =>
            t.walk aim links (slash || rest.isEmpty && Path.endsWithSlash target)
              (if Path.isAbsolute target then t.top else spot) (Path.names target ++ rest)
      | found =>
        if rest.isEmpty then arriveBy aim spot name slash found
        else if found.isSome then .error .notDirectory
        else .error .notFound
termination_by links _ _ names => (links, names.length)

def locate (t : FileTree) (aim : Aim) (path : String) : Except OsError Arrival :=
  if path.toList.contains '\x00' then .error .zeroInPath
  else if Path.maxLength < path.utf8ByteSize then .error .nameTooLong
  else if path.isEmpty then .error .notFound
  else t.walk aim maxLinks (Path.endsWithSlash path) t.top (Path.names path)

def find (t : FileTree) (path : String) : Except OsError Node := do
  match (← t.locate .use path).node with
  | some node => return node
  | none => throw .notFound

def isDirectory (t : FileTree) (path : String) : Bool :=
  match t.find path with
  | .ok (.directory _) => true
  | _ => false

/-! ## Answering requests -/

def contentAt (t : FileTree) (path : String) : Except OsError Bytes := do
  match ← t.find path with
  | .file content => return content
  | .image image => return image.encode
  | .directory _ => throw .isDirectory
  | .link _ => throw .linkLoop

def write (t : FileTree) (path : String) (node : Node) : Except OsError FileTree := do
  return t.put (← t.locate .write path).place node

/-- Makes a directory; those above it have to be there. -/
def makeOne (t : FileTree) (path : String) : Except OsError FileTree := do
  return t.put (← t.locate .make path).place (.directory [])

def ensureOne (t : FileTree) (path : String) : Except OsError FileTree :=
  match t.makeOne path with
  | .error .alreadyExists => if t.isDirectory path then .ok t else .error .alreadyExists
  | result => result

/-- Makes the first of some directories that can be made, each of which is above the one before it,
and then those that come before it and `waiting`. -/
def ensureFrom (t : FileTree) : (paths waiting : List String) → Except OsError FileTree
  | [], waiting => waiting.foldlM ensureOne t
  | path :: above, waiting =>
    match t.ensureOne path with
    | .error .notFound => t.ensureFrom above (path :: waiting)
    | .error e => .error e
    | .ok t => waiting.foldlM ensureOne t

def makeDirectory (t : FileTree) (path : String) : Except OsError FileTree :=
  t.ensureFrom (Path.ancestors path) []

/-- The names in a directory whose nodes satisfy a test. -/
def list (t : FileTree) (path : String) (test : Node → Bool) : Except OsError (List String) := do
  match ← t.find path with
  | .directory entries => return (entries.filter fun (_, node) ↦ test node).map (·.1)
  | _ => throw .notDirectory

def isRegular : Node → Bool
  | .file _ | .image _ => true
  | .directory _ | .link _ => false

/-- The image in the data file at a path, or `none` if there is nothing in it. -/
def loadImage (t : FileTree) (path : String) : Except EngineError (Option StoreImage) :=
  match t.locate .write path with
  | .error e => .error (.file e)
  | .ok arrival =>
    match arrival.node with
    | some (.image image) => .ok (some image)
    | some (.file content) => StoreImage.ofFile content
    | _ => .ok none

def saveImage (t : FileTree) (path : String) (image : StoreImage) : Except EngineError FileTree :=
  (t.write path (.image image)).mapError .file

/-- A node with an image instead of the one that it holds, if it does. -/
def replaced (image : StoreImage) (node : Node) : Node :=
  if node.image?.isSome then .image image else node

/-- Replaces the image in the data file at the end of a path, if it is still there. -/
def replaceImage (t : FileTree) (path : String) (image : StoreImage) : FileTree :=
  ⟨Entries.alter (·.map (replaced image)) (Path.names path) t.entries⟩

/-- The path of what a path leads to. -/
def resolve (t : FileTree) (path : String) : Except OsError String := do
  return Path.ofParts true (← t.locate .use path).place

/-- A reply that goes with a change, or a refusal that goes with none. -/
def changed {ε : Type} (t : FileTree) : Except ε FileTree → Except ε Unit × FileTree
  | .ok t => (.ok (), t)
  | .error e => (.error e, t)

def answer (t : FileTree) : (r : Request) → r.Reply × FileTree
  | .readFile path => (t.contentAt path, t)
  | .writeFile path content => t.changed (t.write path (.file content))
  | .makeDirectory path => t.changed (t.makeDirectory path)
  | .listFiles path => (t.list path isRegular, t)
  | .resolvePath path => (t.resolve path, t)
  | .loadImage path => (t.loadImage path, t)
  | .saveImage path image => t.changed (t.saveImage path image)
  | .replaceImage path image => (.ok (), t.replaceImage path image)

def run {α : Type} : FileTask α → FileTree → α × FileTree
  | .done a, t => (a, t)
  | .ask r next, t =>
    let (reply, t) := t.answer r
    run (next reply) t

end FileTree

end TxoIndex

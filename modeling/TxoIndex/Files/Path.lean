/-!
# Paths

Paths are texts with slashes, and a leading slash goes to the top. Repeated slashes do not matter,
and a single dot stands for the directory before it. A path that ends with a slash can only be a
directory's, and so can one that ends with a dot.
-/

namespace TxoIndex.Path

/-- The names between the slashes of a path, dots included. -/
def names (path : String) : List String := (path.splitOn "/").filter (· ≠ "")

def isAbsolute (path : String) : Bool := path.startsWith "/"

def endsWithSlash (path : String) : Bool := path.endsWith "/"

def maxLength : Nat := 4095

def maxNameLength : Nat := 255

def join (directory name : String) : String :=
  if directory.isEmpty ∨ isAbsolute name then name
  else if endsWithSlash directory then directory ++ name
  else directory ++ "/" ++ name

/-! ## What lies above -/

/-- The names of a path without dots, except for a first one. -/
def parts (path : String) : List String :=
  match names path with
  | [] => []
  | first :: rest =>
    let rest := rest.filter (· ≠ ".")
    if first = "." ∧ isAbsolute path then rest else first :: rest

def ofParts (absolute : Bool) (parts : List String) : String :=
  (if absolute then "/" else "") ++ "/".intercalate parts

/-- The path of the directory that something is in, unless that goes without saying. -/
def parent? (path : String) : Option String :=
  match (parts path).dropLast with
  | [] => none
  | above => some (ofParts (isAbsolute path) above)

/-- The shorter beginnings of a list that are not empty, the longest first. -/
def fronts (parts : List String) : List (List String) :=
  (List.range' 1 (parts.length - 1)).reverse.map fun count ↦ parts.take count

/-- A path and the paths of the directories above it, the innermost first. -/
def ancestors (path : String) : List String :=
  match parts path with
  | [] => []
  | parts => path :: (fronts parts).map (ofParts (isAbsolute path))

end TxoIndex.Path

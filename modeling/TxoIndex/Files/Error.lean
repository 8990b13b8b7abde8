/-!
# Errors of the file system

The reasons for which a file system refuses an operation, with the words and the numbers by which
systems report them.
-/

namespace TxoIndex

/-- Why the file system refuses an operation. -/
inductive OsError where
  | notFound
  | alreadyExists
  | notDirectory
  | isDirectory
  /-- A path or a name in it is too long. -/
  | nameTooLong
  /-- A place in a file that cannot be. -/
  | invalidArgument
  | linkLoop
  | zeroInPath
  /-- Another reason, in the system's words. -/
  | other (text : String)
  deriving DecidableEq, Repr

namespace OsError

def text : OsError → String
  | notFound => "No such file or directory"
  | alreadyExists => "File exists"
  | notDirectory => "Not a directory"
  | isDirectory => "Is a directory"
  | invalidArgument => "Invalid argument"
  | nameTooLong => "File name too long"
  | linkLoop => "Too many levels of symbolic links"
  | zeroInPath => "file name contained an unexpected NUL byte"
  | other text => text

/-- The number of the reason, if the system has one for it. -/
def number? : OsError → Option Nat
  | notFound => some 2
  | alreadyExists => some 17
  | notDirectory => some 20
  | isDirectory => some 21
  | invalidArgument => some 22
  | nameTooLong => some 36
  | linkLoop => some 40
  | zeroInPath | other _ => none

/-- The reason in words and by its number. -/
def message (e : OsError) : String :=
  match e.number? with
  | some n => s!"{e.text} (os error {n})"
  | none => e.text

end OsError

end TxoIndex

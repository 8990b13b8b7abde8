import TxoIndex.Config.Reader
import TxoIndex.Files.Path
import TxoIndex.Files.Task
import TxoIndex.Text.Utf8

/-!
# Configuration files

A configuration is read from a file. Where there is none, a file with the defaults is written, so
that a user finds all settings there.
-/

namespace TxoIndex

inductive ConfigError where
  | io (cause : OsError)
  /-- The file is not text. -/
  | notText
  /-- The text is not a configuration. -/
  | invalid
  deriving DecidableEq, Repr

def ConfigError.message : ConfigError → String
  | io cause => s!"config I/O failed: {cause.message}"
  | notText => "config I/O failed: stream did not contain valid UTF-8"
  | invalid => "invalid config"

namespace Config

def ofBytes (content : Bytes) : Except ConfigError Config :=
  match Utf8.decode? content with
  | none => .error .notText
  | some cs =>
    match parse? cs with
    | none => .error .invalid
    | some c => .ok c

/-- Writes a file with the defaults. -/
def create (path : String) : FileTask (Except ConfigError Config) := do
  match ← (match Path.parent? path with
    | some directory => FileTask.makeDirectory directory
    | none => return .ok ()) with
  | .error e => return .error (.io e)
  | .ok () =>
    match ← FileTask.writeFile path (Utf8.encode default.text) with
    | .error e => return .error (.io e)
    | .ok () => return .ok default

/-- Reads a file, or writes one with the defaults if there is none. -/
def load (path : String) : FileTask (Except ConfigError Config) := do
  match ← FileTask.readFile path with
  | .ok content => return ofBytes content
  | .error .notFound => create path
  | .error e => return .error (.io e)

end Config

end TxoIndex

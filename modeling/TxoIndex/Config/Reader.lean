import TxoIndex.Config
import TxoIndex.Json.Parser

/-!
# Reading configurations

A configuration is an object with settings under their keys, or an array of settings in order. What
is not set has its default. Keys that are no setting's are passed over with their values, but no
setting may be given twice, and nothing may follow the configuration. Sizes are whole numbers of
sixty-four bits, written as such.
-/

namespace TxoIndex.Config

/-- A reader takes characters from the front of a text, blanks before them included. -/
abbrev Reader (α : Type) := List Char → Option (α × List Char)

namespace Reader

/-- A value that may be missing, which is then written `null`. -/
def nullOr {α : Type} (value : Reader α) : Reader (Option α) := fun cs ↦
  match Json.skipWord "null" (Json.skipBlanks cs) with
  | some rest => some (none, rest)
  | none => (value cs).map fun (a, rest) ↦ (some a, rest)

/-- A whole number of sixty-four bits. -/
def size : Reader Nat := fun cs ↦ do
  let (parts, rest) ← Json.numberParts? (Json.skipBlanks cs)
  match ← parts.value? with
  | .integer n => if 0 ≤ n then some (n.toNat, rest) else none
  | .real .. => none

def bool : Reader Bool := fun cs ↦
  match Json.skipWord "true" (Json.skipBlanks cs) with
  | some rest => some (true, rest)
  | none => (Json.skipWord "false" (Json.skipBlanks cs)).map fun rest ↦ (false, rest)

def networkName : Reader Network := fun cs ↦ do
  let (name, rest) ← Json.string? cs
  return (← Network.ofName? name, rest)

/-- A network: its name, or an object with its name as only key. -/
def network : Reader Network := fun cs ↦
  match Json.skipChar '{' cs with
  | none => networkName cs
  | some cs => do
    let (n, cs) ← networkName cs
    let cs ← Json.skipWord "null" (Json.skipBlanks (← Json.skipChar ':' cs))
    return (n, ← Json.skipChar '}' cs)

end Reader

/-- Reads the value of a setting, and returns the change that it makes. -/
def Setting.reader : Setting → Reader (Config → Config)
  | .indexPath => fun cs ↦ (Reader.nullOr Json.string? cs).map fun (v, rest) ↦
      (fun c ↦ { c with indexPath := v }, rest)
  | .network => fun cs ↦ (Reader.network cs).map fun (v, rest) ↦
      (fun c ↦ { c with network := v }, rest)
  | .initialMapSize => fun cs ↦ (Reader.size cs).map fun (v, rest) ↦
      (fun c ↦ { c with initialMapSize := v }, rest)
  | .mapGrowthStep => fun cs ↦ (Reader.size cs).map fun (v, rest) ↦
      (fun c ↦ { c with mapGrowthStep := v }, rest)
  | .maxMapSize => fun cs ↦ (Reader.nullOr Reader.size cs).map fun (v, rest) ↦
      (fun c ↦ { c with maxMapSize := v }, rest)
  | .preloadWorkers => fun cs ↦ (Reader.size cs).map fun (v, rest) ↦
      (fun c ↦ { c with preloadWorkers := v }, rest)
  | .preloadNoSync => fun cs ↦ (Reader.bool cs).map fun (v, rest) ↦
      (fun c ↦ { c with preloadNoSync := v }, rest)

/-- Reads a key with its value, in a text of at most `length` characters. A key that is no setting's
changes nothing. -/
def member (length : Nat) : Reader (Option Setting × (Config → Config)) := fun cs ↦ do
  let (key, cs) ← Json.string? cs
  let cs ← Json.skipChar ':' cs
  match Setting.ofKey? key with
  | none => (Json.skipValue length cs).map fun rest ↦ ((none, id), rest)
  | some s => (s.reader cs).map fun (change, rest) ↦ ((some s, change), rest)

/-- Reads the rest of an array of settings, from where a value has ended; `left` are the settings
that may still follow. -/
def arrayRest : (left : List Setting) → Config → Reader Config
  | [], c, cs => (Json.skipChar ']' cs).map fun rest ↦ (c, rest)
  | s :: left, c, cs =>
    match Json.skipChar ',' cs with
    | none => (Json.skipChar ']' cs).map fun rest ↦ (c, rest)
    | some cs =>
      match s.reader cs with
      | none => none
      | some (change, cs) => arrayRest left (change c) cs

def array : Reader Config := fun cs ↦
  match Json.skipChar ']' cs with
  | some rest => some (default, rest)
  | none => do
    let (change, cs) ← Setting.indexPath.reader cs
    arrayRest (Setting.all.drop 1) (change default) cs

def object : Reader Config := fun cs ↦ do
  let (members, rest) ← Json.listBody (member cs.length) '}' (cs.length + 1) cs
  if (members.filterMap (·.1)).Nodup then
    some (members.foldl (fun c (_, change) ↦ change c) default, rest)
  else none

/-- Reads a text that is exactly one configuration. -/
def parse? (cs : List Char) : Option Config := do
  let (c, rest) ← match Json.skipChar '{' cs with
    | some cs => object cs
    | none => (Json.skipChar '[' cs).bind array
  if (Json.skipBlanks rest).isEmpty then some c else none

end TxoIndex.Config

import TxoIndex.Json.Scan

/-!
# Parsing JSON text

Reads a text that is exactly one JSON value. Arrays and objects may be nested to a fixed depth,
numbers have to be in the range of the double format, and of two fields with one key the later one
counts.
-/

namespace TxoIndex.Json

/-- Reads the rest of a list that `closing` ends, from an item on. Each item and the comma behind it
take characters, so the number of characters ahead is fuel enough. -/
def items {α : Type} (item : List Char → Option (α × List Char)) (closing : Char) :
    (fuel : Nat) → List Char → (done : List α) → Option (List α × List Char)
  | 0, _, _ => none
  | fuel + 1, cs, done =>
    match item cs with
    | none => none
    | some (a, cs) =>
      match skipBlanks cs with
      | c :: rest =>
        if c = ',' then items item closing fuel rest (a :: done)
        else if c = closing then some ((a :: done).reverse, rest)
        else none
      | [] => none

def listBody {α : Type} (item : List Char → Option (α × List Char)) (closing : Char) (fuel : Nat)
    (cs : List Char) : Option (List α × List Char) :=
  match skipBlanks cs with
  | c :: rest => if c = closing then some ([], rest) else items item closing fuel (c :: rest) []
  | [] => none

def member? (value : List Char → Option (Json × List Char)) (cs : List Char) :
    Option ((String × Json) × List Char) := do
  let (key, cs) ← string? cs
  let (v, cs) ← value (← skipChar ':' cs)
  return ((key, v), cs)

/-- Reads one value, blanks before it included; `depth` is one more than the number of brackets that
may still be opened, and `fuel` is for each of its lists. -/
def value? (fuel : Nat) : (depth : Nat) → List Char → Option (Json × List Char)
  | 0, _ => none
  | depth + 1, cs =>
    let cs := skipBlanks cs
    match cs with
    | 'n' :: _ => (skipWord "null" cs).map (.null, ·)
    | 't' :: _ => (skipWord "true" cs).map (.bool true, ·)
    | 'f' :: _ => (skipWord "false" cs).map (.bool false, ·)
    | '"' :: rest => (stringBody rest []).map fun (s, rest) ↦ (.string s, rest)
    | '[' :: rest =>
      if depth = 0 then none
      else (listBody (value? fuel depth) ']' fuel rest).map fun (vs, rest) ↦ (.array vs, rest)
    | '{' :: rest =>
      if depth = 0 then none
      else
        (listBody (member? (value? fuel depth)) '}' fuel rest).map fun (fs, rest) ↦
          (ofFields fs, rest)
    | _ => do
      let (parts, rest) ← numberParts? cs
      return (.number (← parts.value?), rest)

/-- The number of brackets that may be open at once, plus one. -/
def maxDepth : Nat := 128

/-- Reads a text that is exactly one value. -/
def parse? (text : String) : Option Json := do
  let cs := text.toList
  let (v, rest) ← value? (cs.length + 1) maxDepth cs
  if (skipBlanks rest).isEmpty then some v else none

end TxoIndex.Json

import TxoIndex.Hex
import TxoIndex.Json.Basic

/-!
# JSON text

Values are written compactly on one line, or over several lines with an indentation of two spaces.
Quotes, backslashes and control characters are escaped, and every other character stands for itself.
-/

namespace TxoIndex

/-- The text of an exponent, which always shows its sign. -/
def exponentText (exponent : Int) : String :=
  if exponent < 0 then toString exponent else "+" ++ toString exponent

/-- The text of a number with a binary point: positional while the exponent is small, with an
exponent otherwise, and always recognisable as not an integer. -/
def Binary64.jsonText (x : Binary64) : String :=
  if x.isZero then "0.0"
  else
    let d := x.shortest
    let digits := (Nat.repr d.digits).toList
    let point : Int := digits.length + d.scale
    if 0 ≤ d.scale ∧ point ≤ 16 then
      String.ofList (digits ++ List.replicate d.scale.toNat '0') ++ ".0"
    else if 0 < point ∧ point ≤ 16 then
      String.ofList (digits.take point.toNat) ++ "." ++ String.ofList (digits.drop point.toNat)
    else if -5 < point ∧ point ≤ 0 then
      "0." ++ String.ofList (List.replicate (-point).toNat '0' ++ digits)
    else
      let fraction := digits.drop 1
      String.ofList (digits.take 1) ++
        (if fraction.isEmpty then "" else "." ++ String.ofList fraction) ++ "e" ++
          exponentText (point - 1)

def JsonNumber.text : JsonNumber → String
  | integer n => toString n
  | real negative x => (if negative then "-" else "") ++ x.jsonText

namespace Json

def escape (c : Char) : List Char :=
  if c = '"' then ['\\', '"']
  else if c = '\\' then ['\\', '\\']
  else if c = '\n' then ['\\', 'n']
  else if c = '\r' then ['\\', 'r']
  else if c = '\t' then ['\\', 't']
  else if c.toNat = 8 then ['\\', 'b']
  else if c.toNat = 12 then ['\\', 'f']
  else if c.toNat < 32 then
    ['\\', 'u', '0', '0', Hex.digit (c.toNat / 16), Hex.digit (c.toNat % 16)]
  else [c]

def quote (s : String) : String :=
  String.ofList ('"' :: (s.toList.flatMap escape ++ ['"']))

mutual

/-- The text of a value on one line. -/
def compact : Json → String
  | .null => "null"
  | .bool true => "true"
  | .bool false => "false"
  | .number n => n.text
  | .string s => quote s
  | .array items => "[" ++ ",".intercalate (compactItems items) ++ "]"
  | .object fields => "\x7b" ++ ",".intercalate (compactFields fields) ++ "\x7d"

def compactItems : List Json → List String
  | [] => []
  | v :: rest => compact v :: compactItems rest

def compactFields : List (String × Json) → List String
  | [] => []
  | (k, v) :: rest => (quote k ++ ":" ++ compact v) :: compactFields rest

end

def newline (depth : Nat) : String := "\n" ++ String.ofList (List.replicate (2 * depth) ' ')

/-- Lines between two brackets, each indented below the brackets. -/
def bracketed (opening closing : String) (depth : Nat) : List String → String
  | [] => opening ++ closing
  | lines =>
    opening ++ newline (depth + 1) ++ ("," ++ newline (depth + 1)).intercalate lines ++
      newline depth ++ closing

mutual

/-- The text of a value over several lines, indented by `depth` levels. -/
def prettyAt (depth : Nat) : Json → String
  | .array items => bracketed "[" "]" depth (prettyItems depth items)
  | .object fields => bracketed "\x7b" "\x7d" depth (prettyFields depth fields)
  | .null => "null"
  | .bool true => "true"
  | .bool false => "false"
  | .number n => n.text
  | .string s => quote s

def prettyItems (depth : Nat) : List Json → List String
  | [] => []
  | v :: rest => prettyAt (depth + 1) v :: prettyItems depth rest

def prettyFields (depth : Nat) : List (String × Json) → List String
  | [] => []
  | (k, v) :: rest => (quote k ++ ": " ++ prettyAt (depth + 1) v) :: prettyFields depth rest

end

def pretty (v : Json) : String := prettyAt 0 v

end Json

end TxoIndex

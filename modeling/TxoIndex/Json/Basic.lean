import TxoIndex.Decimal.Shortest

/-!
# JSON values

The values that configuration files, call parameters and answers are made of. A number is an integer
of at most sixty-four bits or a number with a binary point. An object that is
read, or built with `ofFields`, has its fields sorted by key and one field for each key, so equal
objects are written alike.
-/

namespace TxoIndex

inductive JsonNumber where
  | integer (n : Int)
  | real (negative : Bool) (x : Binary64)
  deriving DecidableEq, Repr, Inhabited

inductive Json where
  | null
  | bool (b : Bool)
  | number (n : JsonNumber)
  | string (s : String)
  | array (items : List Json)
  | object (fields : List (String × Json))
  deriving Repr, Inhabited

namespace Json

/-- Sets a field, keeping the fields sorted by key. -/
def setField (key : String) (value : Json) : List (String × Json) → List (String × Json)
  | [] => [(key, value)]
  | (k, v) :: rest =>
    if key < k then (key, value) :: (k, v) :: rest
    else if key = k then (key, value) :: rest
    else (k, v) :: setField key value rest

/-- An object with the given fields; of two fields with one key the later one counts. -/
def ofFields (fields : List (String × Json)) : Json :=
  .object (fields.foldl (fun fs (k, v) ↦ setField k v fs) [])

def ofNat (n : Nat) : Json := .number (.integer n)

def ofInt (n : Int) : Json := .number (.integer n)

def field? (key : String) : Json → Option Json
  | .object fields => fields.lookup key
  | _ => none

end Json

end TxoIndex

import TxoIndex.Store.Write
import TxoIndex.Text.Quoted

/-!
# Queries

What is asked about a script hash: its history, its unspent outputs and its balance. The history is
ordered by height and then by outpoint, as a number and not as bytes, with the unknown heights last;
the unspent outputs keep that order. The balance is the exact sum of the unspent values, and there
is none if the sum takes more than sixty-four bits.
-/

namespace TxoIndex

inductive QueryError where
  | invalidScriptHash (text : String) (cause : Hash.ParseError)
  | store (cause : StoreError)
  /-- The balance takes more than sixty-four bits. -/
  | overflow
  deriving DecidableEq

def QueryError.message : QueryError → String
  | invalidScriptHash text cause => s!"invalid script hash {Text.quoted text}: {cause.message}"
  | store cause => s!"store failed: {cause.message}"
  | overflow => "attempt to add with overflow"

/-- Whether the program gives up on the error instead of returning it. -/
def QueryError.isPanic : QueryError → Bool
  | invalidScriptHash .. => false
  | store cause => cause.isPanic
  | overflow => true

namespace Query

def parseScriptHash (text : String) : Except QueryError ScriptHash :=
  match Hash.parse text with
  | .ok scriptHash => .ok scriptHash
  | .error e => .error (.invalidScriptHash text e)

/-- The outputs that pay to a script hash, or `none` if there are none. -/
def txos? (t : Tables) (scriptHash : ScriptHash) : Except QueryError (Option (List Txo)) :=
  match t.txos? scriptHash with
  | .ok txos => .ok txos
  | .error e => .error (.store e)

def txosOfText? (t : Tables) (text : String) : Except QueryError (Option (List Txo)) := do
  txos? t (← parseScriptHash text)

/-- The height by which an output is ordered: an unknown one comes after every other one. -/
def sortHeight (txo : Txo) : UInt32 := txo.height.getD Txo.unknownHeight

def precedes (x y : Txo) : Bool :=
  ((compare (sortHeight x) (sortHeight y)).then (compare x.outpoint y.outpoint)).isLE

/-- All outputs that pay to a script hash, by height and outpoint. -/
def history (t : Tables) (scriptHash : ScriptHash) : Except QueryError (List Txo) := do
  return ((← txos? t scriptHash).getD []).mergeSort precedes

def unspent (t : Tables) (scriptHash : ScriptHash) : Except QueryError (List Txo) := do
  return (← history t scriptHash).filter (!·.isSpent)

def total : List Txo → Nat
  | [] => 0
  | txo :: txos => txo.value.toNat + total txos

def balance (t : Tables) (scriptHash : ScriptHash) : Except QueryError Nat := do
  let sum := total (← unspent t scriptHash)
  if sum < UInt64.size then return sum else throw .overflow

end Query

end TxoIndex

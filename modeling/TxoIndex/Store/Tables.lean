import Std.Data.ExtTreeMap
import TxoIndex.Block.Decode
import TxoIndex.Store.Bucket
import TxoIndex.Store.Error
import TxoIndex.Store.Ground
import TxoIndex.Store.Stage
import TxoIndex.Txo

/-!
# Tables

The index consists of four tables of byte strings. The script table has a bucket of records under
each script hash, and the outpoint table tells under which script hash an outpoint's record is. The
headers table holds the header of every block, and the last table holds the stage.

Tables hold bytes and not values, because a store can be changed by other programs: reading decodes
the bytes and says so where they are corrupt. The operations that write are first-wins: an output is
added once, and a spender is set once. Both tables are written together, so a record is under the
script hash that the outpoint table names.
-/

namespace TxoIndex

/-- A table with one value for each key. -/
abbrev Table := Std.ExtTreeMap Bytes Bytes

@[ext]
structure Tables where
  scripts : Std.ExtTreeMap Bytes Bucket
  outpoints : Table
  headers : Table
  marks : Table

inductive Added where
  | new
  | duplicate
  deriving DecidableEq, Repr

inductive Spent where
  | spent
  /-- The output was spent by the same input before. -/
  | alreadySpent
  /-- The output is spent by another input, which is kept. -/
  | conflict (spender : Outpoint)
  /-- The output is not in the index. -/
  | missing
  deriving DecidableEq

/-- Whether the output was not marked before. -/
def Spent.isChange : Spent → Bool
  | spent => true
  | alreadySpent | conflict _ | missing => false

namespace Tables

def empty : Tables := ⟨∅, ∅, ∅, ∅⟩

/-! ## Decoding entries -/

def decodeTxo (scriptHash : ScriptHash) (record : Bytes) : Except StoreError Txo :=
  match Txo.decode record with
  | .ok txo => .ok txo
  | .error e => .error (.corrupt "script" scriptHash.display (.codec e))

def decodeScriptHash (key value : Bytes) : Except StoreError ScriptHash :=
  match Hash.ofBytes? value with
  | some h => .ok h
  | none => .error (.corrupt "outpoint" (Hex.encode key) (.hashLength value.length))

def decodeHeader (key value : Bytes) : Except StoreError Header :=
  match Decoder.exactly Header.decoder value with
  | .ok header => .ok header
  | .error e => .error (.corrupt "headers" (Hex.encode key) (.codec e))

/-! ## Reading -/

/-- The outputs that pay to a script hash, in the order of their records, or `none` if there are
none. -/
def txos? (t : Tables) (scriptHash : ScriptHash) : Except StoreError (Option (List Txo)) :=
  match t.scripts[scriptHash.bytes]? with
  | none => .ok none
  | some bucket => some <$> bucket.records.mapM (decodeTxo scriptHash)

/-- The script hash that an output pays to, if the output is indexed. -/
def scriptHashOf? (t : Tables) (outpoint : Outpoint) : Except StoreError (Option ScriptHash) :=
  match t.outpoints[outpoint.key]? with
  | none => .ok none
  | some value => some <$> decodeScriptHash outpoint.key value

def header? (t : Tables) (hash : BlockHash) : Except StoreError (Option Header) :=
  match t.headers[hash.bytes]? with
  | none => .ok none
  | some value => some <$> decodeHeader hash.bytes value

/-- All headers, in the order of their names' bytes. An empty table cannot be listed. -/
def listHeaders (t : Tables) : Except StoreError (List Header) :=
  if t.headers.isEmpty then .error .noHeaders
  else t.headers.toList.mapM fun (key, value) ↦ decodeHeader key value

def stageKey : Bytes := [0x73, 0x74, 0x61, 0x67, 0x65]

def stage (t : Tables) : Except StoreError Stage :=
  match t.marks[stageKey]? with
  | none => .ok .empty
  | some [value] =>
    match Stage.ofRank? value.toNat with
    | some s => .ok s
    | none => .error (.corrupt "meta" (Hex.encode stageKey) (.unknownStage value.toNat))
  | some value => .error (.corrupt "meta" (Hex.encode stageKey) (.stageLength value.length))

/-- The number of records. -/
def txoCount (t : Tables) : Nat :=
  t.scripts.foldl (fun n _ bucket ↦ n + bucket.size) 0

/-! ## Room -/

/-- The length of the pages of a table, where an entry takes `width` bytes on the average. -/
def pagesLength (width count : Nat) : Nat :=
  (width * count + Ground.usualPageSize - 1) / Ground.usualPageSize * Ground.usualPageSize

/-- The room that the tables take, estimated from the number of their entries. -/
def footprint (t : Tables) : Nat :=
  pagesLength 205 t.outpoints.size + pagesLength 105 t.outpoints.size +
    pagesLength 160 t.headers.size + pagesLength 20 t.marks.size

/-! ## Writing -/

def putRecord? (t : Tables) (scriptHash : ScriptHash) (record : Bytes) : Option Tables :=
  match t.scripts[scriptHash.bytes]? with
  | none => some { t with scripts := t.scripts.insert scriptHash.bytes (.singleton record) }
  | some bucket =>
    if bucket.contains record then none
    else some { t with scripts := t.scripts.insert scriptHash.bytes (bucket.insert record) }

def eraseRecord (t : Tables) (scriptHash : ScriptHash) (record : Bytes) : Tables :=
  match t.scripts[scriptHash.bytes]? with
  | none => t
  | some bucket =>
    match bucket.erase record with
    | some bucket => { t with scripts := t.scripts.insert scriptHash.bytes bucket }
    | none => { t with scripts := t.scripts.erase scriptHash.bytes }

/-- Stores a header under a name, replacing the one that is there. -/
def putHeader (t : Tables) (hash : BlockHash) (header : Header) : Tables :=
  { t with headers := t.headers.insert hash.bytes header.encode }

def setStage (t : Tables) (stage : Stage) : Tables :=
  { t with marks := t.marks.insert stageKey [UInt8.ofNat stage.rank] }

/-- Adds an output, unless its outpoint is indexed. -/
def addTxo (t : Tables) (scriptHash : ScriptHash) (txo : Txo) : Added × Tables :=
  if t.outpoints.contains txo.outpoint.key then (.duplicate, t)
  else
    let t := { t with outpoints := t.outpoints.insert txo.outpoint.key scriptHash.bytes }
    match t.putRecord? scriptHash txo.encode with
    | some t => (.new, t)
    | none => (.duplicate, t)

/-- The record of an indexed outpoint under its script hash: the first one that does not come before
the outpoint's key, if it starts with the key. -/
def record? (t : Tables) (scriptHash : ScriptHash) (outpoint : Outpoint) : Option Bytes := do
  let record ← (← t.scripts[scriptHash.bytes]?).firstAtLeast? outpoint.key
  if outpoint.key.isPrefixOf record then some record else none

/-- Marks an output as spent, unless it is spent already. -/
def spend (t : Tables) (prevout spender : Outpoint) : Except StoreError (Spent × Tables) :=
  match t.scriptHashOf? prevout with
  | .error e => .error e
  | .ok none => .ok (.missing, t)
  | .ok (some scriptHash) =>
    match t.record? scriptHash prevout with
    | none => .error (.corrupt "script" scriptHash.display (.missingTxo prevout))
    | some record =>
      match decodeTxo scriptHash record with
      | .error e => .error e
      | .ok txo =>
        match txo.spentBy with
        | some existing =>
          if existing = spender then .ok (.alreadySpent, t) else .ok (.conflict existing, t)
        | none =>
          let spent := { txo with spentBy := some spender }
          match (t.eraseRecord scriptHash record).putRecord? scriptHash spent.encode with
          | some t => .ok (.spent, t)
          | none => .error (.engine .keyExists)

end Tables

end TxoIndex

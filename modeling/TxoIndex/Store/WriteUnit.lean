import TxoIndex.Store.Tables

/-!
# Units of work

A unit is what one write transaction does: a sequence of operations, each of which may depend on the
results of those before it. A unit is data, so it can be run again after its transaction was rolled
back, and a run has no effect except on the tables.

How much room the tables take is not the unit's business. A medium says after every operation, and
when the unit is committed, whether the map still has room. A unit none of whose operations stored
anything is committed without a trace.
-/

namespace TxoIndex

inductive Op where
  | putHeader (hash : BlockHash) (header : Header)
  | addTxo (scriptHash : ScriptHash) (txo : Txo)
  | spend (prevout spender : Outpoint)
  | setStage (stage : Stage)

namespace Op

/-- What an operation tells the unit. -/
def Result : Op → Type
  | putHeader .. => Unit
  | addTxo .. => Added
  | spend .. => Spent
  | setStage _ => Unit

def exec : (op : Op) → Tables → Except StoreError (op.Result × Tables)
  | putHeader hash header, t => .ok ((), t.putHeader hash header)
  | addTxo scriptHash txo, t => .ok (t.addTxo scriptHash txo)
  | spend prevout spender, t => t.spend prevout spender
  | setStage stage, t => .ok ((), t.setStage stage)

/-- Whether an operation on tables stored something. -/
def stores : (op : Op) → (before : Tables) → op.Result → Bool
  | putHeader .., _, _ => true
  | addTxo _ txo, before, _ => !before.outpoints.contains txo.outpoint.key
  | spend .., _, result => Spent.isChange result
  | setStage _, _, _ => true

end Op

/-- A unit of work that yields an `α`. -/
inductive WriteUnit (α : Type) where
  | done (a : α)
  /-- The unit gives up with an error of its own. -/
  | abort (e : StoreError)
  | step (op : Op) (next : op.Result → WriteUnit α)

namespace WriteUnit

def bind {α β : Type} : WriteUnit α → (α → WriteUnit β) → WriteUnit β
  | done a, f => f a
  | abort e, _ => abort e
  | step op next, f => step op fun r ↦ (next r).bind f

instance : Monad WriteUnit where
  pure := done
  bind := bind

def putHeader (hash : BlockHash) (header : Header) : WriteUnit Unit :=
  step (.putHeader hash header) done

def addTxo (scriptHash : ScriptHash) (txo : Txo) : WriteUnit Added :=
  step (.addTxo scriptHash txo) done

def spend (prevout spender : Outpoint) : WriteUnit Spent :=
  step (.spend prevout spender) done

def setStage (stage : Stage) : WriteUnit Unit :=
  step (.setStage stage) done

/-- The result and effect of a unit that has all the room it needs. -/
def run {α : Type} : WriteUnit α → Tables → Except StoreError (α × Tables)
  | done a, t => .ok (a, t)
  | abort e, _ => .error e
  | step op next, t =>
    match op.exec t with
    | .error e => .error e
    | .ok (r, t) => (next r).run t

end WriteUnit

/-- What a medium says about the tables that an operation wants to store. -/
inductive Answer where
  | fits
  | mapFull
  /-- The medium fails for another reason. -/
  | failed (e : StoreError)

inductive Outcome (α : Type) where
  /-- The tables are kept; `stored` tells whether anything was stored. -/
  | committed (a : α) (stored : Bool) (tables : Tables)
  | failed (e : StoreError)
  | mapFull

namespace WriteUnit

/-- One transaction. `answer` is asked for every operation by its number, and once more for the
commit; everything but a commit leaves the tables as they were. `stored` tells whether an operation
before stored something. -/
def attempt {α : Type} (answer : (number : Nat) → Tables → Answer) :
    WriteUnit α → (number : Nat) → (stored : Bool) → Tables → Outcome α
  | done a, number, stored, t =>
    match answer number t with
    | .fits => .committed a stored t
    | .mapFull => .mapFull
    | .failed e => .failed e
  | abort e, _, _, _ => .failed e
  | step op next, number, stored, t =>
    match op.exec t with
    | .error e => .failed e
    | .ok (r, after) =>
      match answer number after with
      | .fits => (next r).attempt answer (number + 1) (stored || op.stores t r) after
      | .mapFull => .mapFull
      | .failed e => .failed e

end WriteUnit

end TxoIndex

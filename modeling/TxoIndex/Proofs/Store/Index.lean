import TxoIndex.Block.Rows
import TxoIndex.Proofs.Store.Record
import TxoIndex.Store.WriteUnit

/-!
# What the tables say

The tables of an index spell three partial functions and a stage: the row of every indexed outpoint,
with the script hash that it pays to, the header of every block, and how far the index has been
built. Here these are a value of its own, on which every operation of a write transaction is a short
definition, and no operation fails.

A row of an outpoint is about that outpoint and can be read back from its record. A value carries
the proof of this, so that no statement about tables has to ask for it again.
-/

namespace TxoIndex

/-- What an index says, whatever its tables look like. -/
@[ext]
structure Index where
  rows : Outpoint → Option FundingRow
  headers : BlockHash → Option Header
  stage : Option Stage
  valid : ∀ {o row}, rows o = some row → row.txo.outpoint = o ∧ row.txo.IsStored

/-- The row after an input has spent it. The first spender stays, and the null outpoint is none. -/
def FundingRow.spendBy (row : FundingRow) (spender : Outpoint) : FundingRow :=
  if row.txo.isSpent then row
  else { row with txo := { row.txo with spentBy := some spender }.stored }

namespace FundingRow

@[simp]
theorem scriptHash_spendBy (row : FundingRow) (spender : Outpoint) :
    (row.spendBy spender).scriptHash = row.scriptHash := by
  unfold spendBy
  split <;> rfl

@[simp]
theorem outpoint_spendBy (row : FundingRow) (spender : Outpoint) :
    (row.spendBy spender).txo.outpoint = row.txo.outpoint := by
  unfold spendBy
  split <;> rfl

theorem isStored_spendBy {row : FundingRow} (h : row.txo.IsStored) (spender : Outpoint) :
    (row.spendBy spender).txo.IsStored := by
  unfold spendBy
  split
  · exact h
  · exact Txo.isStored_stored _

theorem spendBy_of_isSpent {row : FundingRow} (h : row.txo.isSpent) (spender : Outpoint) :
    row.spendBy spender = row := by
  unfold spendBy
  rw [if_pos h]

theorem spendBy_of_not_isSpent {row : FundingRow} (h : row.txo.spentBy = none)
    (spender : Outpoint) : row.spendBy spender =
      { row with txo := { row.txo with spentBy := some spender }.stored } := by
  have hunspent : ¬ row.txo.isSpent := by simp [Txo.isSpent, h]
  unfold spendBy
  rw [if_neg hunspent]

theorem spendBy_of_isStored {row : FundingRow} (hstored : row.txo.IsStored)
    (h : row.txo.spentBy = none) (spender : Outpoint) : row.spendBy spender =
      { row with txo := { row.txo with
          spentBy := readBack Outpoint.null (some spender) } } := by
  rw [spendBy_of_not_isSpent h, Txo.stored, readBack_of_ne hstored.1]

end FundingRow

namespace Index

def empty : Index := ⟨fun _ ↦ none, fun _ ↦ none, none, nofun⟩

/-! ## Operations -/

def putHeader (m : Index) (hash : BlockHash) (header : Header) : Index :=
  { m with headers := fun h ↦ if h = hash then some header else m.headers h }

def setStage (m : Index) (stage : Stage) : Index := { m with stage := some stage }

def addTxo (m : Index) (scriptHash : ScriptHash) (txo : Txo) : Index where
  rows o := if o = txo.outpoint then (m.rows o).or (some ⟨scriptHash, txo.stored⟩) else m.rows o
  headers := m.headers
  stage := m.stage
  valid := by
    intro o row h
    split at h
    · next ho =>
      rcases Option.or_eq_some_iff.1 h with h | ⟨-, h⟩
      · exact m.valid h
      · obtain rfl := Option.some.inj h
        exact ⟨ho.symm, Txo.isStored_stored txo⟩
    · exact m.valid h

def added (m : Index) (txo : Txo) : Added :=
  if (m.rows txo.outpoint).isSome then .duplicate else .new

def spend (m : Index) (prevout spender : Outpoint) : Index where
  rows o := if o = prevout then (m.rows o).map (·.spendBy spender) else m.rows o
  headers := m.headers
  stage := m.stage
  valid := by
    intro o row h
    split at h
    · obtain ⟨row', hrow', rfl⟩ := Option.map_eq_some_iff.1 h
      obtain ⟨houtpoint, hstored⟩ := m.valid hrow'
      exact ⟨(row'.outpoint_spendBy spender).trans houtpoint,
        FundingRow.isStored_spendBy hstored spender⟩
    · exact m.valid h

def spent (m : Index) (prevout spender : Outpoint) : Spent :=
  match m.rows prevout with
  | none => .missing
  | some row =>
    match row.txo.spentBy with
    | none => .spent
    | some existing => if existing = spender then .alreadySpent else .conflict existing

def exec : (op : Op) → Index → op.Result × Index
  | .putHeader hash header, m => ((), m.putHeader hash header)
  | .addTxo scriptHash txo, m => (m.added txo, m.addTxo scriptHash txo)
  | .spend prevout spender, m => (m.spent prevout spender, m.spend prevout spender)
  | .setStage stage, m => ((), m.setStage stage)

theorem addTxo_of_isSome {m : Index} {txo : Txo} (h : (m.rows txo.outpoint).isSome)
    (scriptHash : ScriptHash) : m.addTxo scriptHash txo = m := by
  have hrows : (m.addTxo scriptHash txo).rows = m.rows := by
    funext o
    simp only [addTxo]
    split
    · next ho => rw [ho, Option.or_of_isSome h]
    · rfl
  exact Index.ext hrows rfl rfl

theorem spend_of_eq_none {m : Index} {prevout : Outpoint} (h : m.rows prevout = none)
    (spender : Outpoint) : m.spend prevout spender = m := by
  have hrows : (m.spend prevout spender).rows = m.rows := by
    funext o
    simp only [spend]
    split
    · next ho => rw [ho, h, Option.map_none]
    · rfl
  exact Index.ext hrows rfl rfl

theorem spend_of_isSpent {m : Index} {prevout : Outpoint} {row : FundingRow}
    (h : m.rows prevout = some row) (hspent : row.txo.isSpent) (spender : Outpoint) :
    m.spend prevout spender = m := by
  have hrows : (m.spend prevout spender).rows = m.rows := by
    funext o
    simp only [spend]
    split
    · next ho => rw [ho, h, Option.map_some, FundingRow.spendBy_of_isSpent hspent]
    · rfl
  exact Index.ext hrows rfl rfl

/-- The null outpoint marks nothing. -/
theorem spend_null (m : Index) (prevout : Outpoint) : m.spend prevout Outpoint.null = m := by
  cases hrow : m.rows prevout with
  | none => exact spend_of_eq_none hrow _
  | some row =>
    cases hspent : row.txo.spentBy with
    | some existing =>
      exact spend_of_isSpent hrow (by rw [Txo.isSpent, hspent, Option.isSome_some]) _
    | none =>
      have hsame : row.spendBy Outpoint.null = row := by
        rw [FundingRow.spendBy_of_isStored (m.valid hrow).2 hspent, readBack, if_pos rfl, ← hspent]
      have hrows : (m.spend prevout Outpoint.null).rows = m.rows := by
        funext o
        simp only [spend]
        split
        · next ho => rw [ho, hrow, Option.map_some, hsame]
        · rfl
      exact Index.ext hrows rfl rfl

/-- Spending an output leaves it under its script hash. -/
theorem map_scriptHash_spend (m : Index) (prevout spender o : Outpoint) :
    ((m.spend prevout spender).rows o).map FundingRow.scriptHash =
      (m.rows o).map FundingRow.scriptHash := by
  simp only [spend]
  split
  · rw [Option.map_map]
    congr 1
    funext row
    exact row.scriptHash_spendBy spender
  · rfl

theorem map_scriptHash_bytes_spend (m : Index) (prevout spender o : Outpoint) :
    ((m.spend prevout spender).rows o).map (fun row ↦ row.scriptHash.bytes) =
      (m.rows o).map fun row ↦ row.scriptHash.bytes := by
  have hbytes := congrArg (Option.map Hash.bytes) (m.map_scriptHash_spend prevout spender o)
  rwa [Option.map_map, Option.map_map] at hbytes

/-! ## Records -/

/-- A record that some row has, and the key that the row has it under. -/
def Recorded (m : Index) (key record : Bytes) : Prop :=
  ∃ o row, m.rows o = some row ∧ key = row.scriptHash.bytes ∧ record = row.txo.encode

theorem key_prefix_of_rows {m : Index} {o : Outpoint} {row : FundingRow}
    (hrow : m.rows o = some row) : o.key <+: row.txo.encode := by
  rw [← (m.valid hrow).1]
  exact row.txo.key_prefix_encode

theorem encode_inj_of_rows {m : Index} {o p : Outpoint} {row row' : FundingRow}
    (hrow : m.rows o = some row) (hrow' : m.rows p = some row')
    (h : row.txo.encode = row'.txo.encode) : o = p := by
  obtain ⟨houtpoint, hstored⟩ := m.valid hrow
  obtain ⟨houtpoint', hstored'⟩ := m.valid hrow'
  have htxo : row.txo = row'.txo := (hstored.encode_inj hstored').1 h
  calc
    o = row.txo.outpoint := houtpoint.symm
    _ = row'.txo.outpoint := by rw [htxo]
    _ = p := houtpoint'

/-- An added output has one more record. -/
theorem recorded_addTxo {m : Index} {txo : Txo} (hnone : m.rows txo.outpoint = none)
    (scriptHash : ScriptHash) (key record : Bytes) :
    (m.addTxo scriptHash txo).Recorded key record ↔
      (key = scriptHash.bytes ∧ record = txo.encode) ∨ m.Recorded key record := by
  simp only [Recorded, addTxo]
  constructor
  · rintro ⟨o, row, ho, rfl, rfl⟩
    split at ho
    · next heq =>
      rw [heq, hnone, Option.none_or, Option.some.injEq] at ho
      subst ho
      exact .inl ⟨rfl, txo.encode_stored⟩
    · exact .inr ⟨o, row, ho, rfl, rfl⟩
  · rintro (⟨rfl, rfl⟩ | ⟨o, row, ho, rfl, rfl⟩)
    · refine ⟨txo.outpoint, ⟨scriptHash, txo.stored⟩, ?_, rfl, txo.encode_stored.symm⟩
      rw [if_pos rfl, hnone, Option.none_or]
    · refine ⟨o, row, ?_, rfl, rfl⟩
      rw [ho, Option.some_or, ite_self]

/-- The record of a spent output takes the place of the one before. -/
theorem recorded_spend {m : Index} {prevout : Outpoint} {row : FundingRow}
    (hrow : m.rows prevout = some row) (spender : Outpoint) (key record : Bytes) :
    (m.spend prevout spender).Recorded key record ↔
      (key = row.scriptHash.bytes ∧ record = (row.spendBy spender).txo.encode) ∨
        (m.Recorded key record ∧ ¬ (key = row.scriptHash.bytes ∧ record = row.txo.encode)) := by
  simp only [Recorded, spend]
  constructor
  · rintro ⟨o, row', ho, rfl, rfl⟩
    split at ho
    · next heq =>
      rw [heq, hrow, Option.map_some, Option.some.injEq] at ho
      subst ho
      exact .inl ⟨by rw [FundingRow.scriptHash_spendBy], rfl⟩
    · next hne =>
      refine .inr ⟨⟨o, row', ho, rfl, rfl⟩, ?_⟩
      rintro ⟨-, hencode⟩
      exact hne (encode_inj_of_rows ho hrow hencode)
  · rintro (⟨rfl, rfl⟩ | ⟨⟨o, row', ho, rfl, rfl⟩, hother⟩)
    · refine ⟨prevout, row.spendBy spender, ?_, by rw [FundingRow.scriptHash_spendBy], rfl⟩
      rw [if_pos rfl, hrow, Option.map_some]
    · have hne : o ≠ prevout := by
        rintro rfl
        rw [hrow, Option.some.injEq] at ho
        exact hother (by rw [ho]; exact ⟨rfl, rfl⟩)
      refine ⟨o, row', ?_, rfl, rfl⟩
      rw [if_neg hne, ho]

end Index

end TxoIndex

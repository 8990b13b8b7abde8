import TxoIndex.Proofs.Store.History

/-!
# What a history leaves

The rows of an index can be told from its history alone. An event that adds a new output creates a
row, no two events create a row for the same outpoint, and no row ever leaves. So the row of an
outpoint is the one that its event has created, and the spender in it is the one that it was created
with or else the first that an event has set.

The outputs under a script hash are therefore a reordering of those that the events have created
there, each with its first spender.
-/

namespace TxoIndex

/-! ## Created rows -/

/-- The row that an added output has got, from what its unit was told. -/
def Added.row? (result : Added) (scriptHash : ScriptHash) (txo : Txo) : Option FundingRow :=
  if result = .new then some ⟨scriptHash, txo.stored⟩ else none

def Event.row? : Event → Option FundingRow
  | ⟨.addTxo scriptHash txo, result⟩ => Added.row? result scriptHash txo
  | ⟨.putHeader .., _⟩ | ⟨.spend .., _⟩ | ⟨.setStage _, _⟩ => none

def rowsCreated (events : List Event) : List FundingRow :=
  events.filterMap Event.row?

def rowCreated? (o : Outpoint) (events : List Event) : Option FundingRow :=
  (rowsCreated events).find? fun row ↦ row.txo.outpoint = o

/-- The row after some inputs were told that they spend it: its spender stays, or else is the first
of them. -/
def FundingRow.spendByAll (row : FundingRow) (spenders : List Outpoint) : FundingRow :=
  { row with txo := { row.txo with spentBy := row.txo.spentBy.or spenders.head? } }

namespace FundingRow

theorem spendByAll_nil (row : FundingRow) : row.spendByAll [] = row := by
  rw [spendByAll, List.head?_nil, Option.or_none]

theorem spendByAll_append (row : FundingRow) (spenders spenders' : List Outpoint) :
    (row.spendByAll spenders).spendByAll spenders' = row.spendByAll (spenders ++ spenders') := by
  simp only [spendByAll, List.head?_append, Option.or_assoc]

end FundingRow

theorem rowsCreated_cons (event : Event) (events : List Event) :
    rowsCreated (event :: events) = event.row?.toList ++ rowsCreated events := by
  rw [rowsCreated, List.filterMap_cons]
  cases event.row? <;> rfl

theorem spendersSet_cons (o : Outpoint) (event : Event) (events : List Event) :
    spendersSet o (event :: events) = (event.spender? o).toList ++ spendersSet o events := by
  rw [spendersSet, List.filterMap_cons]
  cases event.spender? o <;> rfl

theorem rowCreated?_singleton (o : Outpoint) (event : Event) :
    rowCreated? o [event] = event.row?.filter fun row ↦ row.txo.outpoint = o := by
  rw [rowCreated?, rowsCreated_cons]
  cases event.row? with
  | none => rfl
  | some row =>
    simp only [Option.toList_some, List.singleton_append, List.find?_cons, Option.filter_some]
    split
    · next h => rw [if_pos h]
    · next h => rw [if_neg (by simp [h])]; rfl

theorem rowCreated?_cons (o : Outpoint) (event : Event) (events : List Event) :
    rowCreated? o (event :: events) =
      (rowCreated? o [event]).or (rowCreated? o events) := by
  simp only [rowCreated?]
  rw [rowsCreated_cons, rowsCreated_cons event [], List.find?_append]
  cases event.row? <;> simp [rowsCreated]

/-! ## One operation -/

namespace Index

variable {m : Index} {o : Outpoint}

def event (m : Index) (op : Op) : Event := ⟨op, (m.exec op).1⟩

/-- Inputs of an output that is not there set no spender. -/
theorem spender?_event_of_none (hnone : m.rows o = none) (op : Op) :
    (m.event op).spender? o = none := by
  cases op with
  | putHeader hash header => rfl
  | addTxo scriptHash txo => rfl
  | setStage stage => rfl
  | spend prevout spender =>
    change (if prevout = o then (m.spent prevout spender).spender? spender else none) = none
    split
    · next heq =>
      have hmissing : m.spent prevout spender = .missing := by
        simp only [spent, heq, hnone]
      rw [hmissing, Spent.spender?]
      exact if_neg (by simp)
    · rfl

/-- Adding an output creates its row, unless there is one. -/
theorem row?_event_addTxo (m : Index) (scriptHash : ScriptHash) (txo : Txo) :
    (m.event (.addTxo scriptHash txo)).row? =
      if (m.rows txo.outpoint).isSome then none else some ⟨scriptHash, txo.stored⟩ := by
  change (m.added txo).row? scriptHash txo = _
  unfold Added.row? added
  split <;> rfl

/-- A row that is there is not created again. -/
theorem rowCreated?_event_of_some {row : FundingRow} (hrow : m.rows o = some row) (op : Op) :
    rowCreated? o [m.event op] = none := by
  cases op with
  | putHeader hash header => rfl
  | spend prevout spender => rfl
  | setStage stage => rfl
  | addTxo scriptHash txo =>
    rw [rowCreated?_singleton, row?_event_addTxo]
    by_cases ho : txo.outpoint = o
    · rw [ho, hrow, Option.isSome_some, if_pos rfl, Option.filter_none]
    · split <;> simp [Txo.stored, ho]

/-- A row that is not there is created by its event. -/
theorem rows_exec_of_none (hnone : m.rows o = none) (op : Op) :
    (m.exec op).2.rows o = rowCreated? o [m.event op] := by
  cases op with
  | putHeader hash header => exact hnone
  | setStage stage => exact hnone
  | spend prevout spender =>
    change (m.spend prevout spender).rows o = none
    simp only [spend, hnone, Option.map_none, ite_self]
  | addTxo scriptHash txo =>
    change (m.addTxo scriptHash txo).rows o = _
    rw [rowCreated?_singleton, row?_event_addTxo]
    by_cases ho : o = txo.outpoint
    · simp [addTxo, ← ho, hnone, Txo.stored, Option.filter_some]
    · split <;> simp [addTxo, hnone, Txo.stored, Option.filter_some, ho, Ne.symm ho]

/-- What an operation does to the row of an outpoint is what its event says. -/
theorem rows_exec (m : Index) (op : Op) (o : Outpoint) :
    (m.exec op).2.rows o = ((m.rows o).or (rowCreated? o [m.event op])).map
      (·.spendByAll (spendersSet o [m.event op])) := by
  cases hrow : m.rows o with
  | none =>
    have hspenders : spendersSet o [m.event op] = [] := by
      rw [spendersSet_cons, spender?_event_of_none hrow]
      rfl
    simp only [rows_exec_of_none hrow, hspenders, FundingRow.spendByAll_nil, Option.map_id_fun',
      id, Option.none_or]
  | some row =>
    obtain ⟨spentBy, hrow', hspentBy⟩ := rows_exec_of_some hrow op
    have hspenders : spendersSet o [m.event op] = ((m.event op).spender? o).toList := by
      rw [spendersSet_cons]
      exact List.append_nil _
    have hfirst : spentBy = row.txo.spentBy.or (spendersSet o [m.event op]).head? := by
      rw [hspenders, ← Option.head?_toList (o := row.txo.spentBy), ← List.head?_append]
      unfold event
      rw [← hspentBy, Option.head?_toList]
    rw [hrow', hfirst, Option.some_or, Option.map_some, FundingRow.spendByAll]

/-- The row that an event creates was not there before, and is there now. -/
theorem rows_of_row?_event {op : Op} {row : FundingRow} (hrow : (m.event op).row? = some row) :
    m.rows row.txo.outpoint = none ∧ (m.exec op).2.rows row.txo.outpoint ≠ none := by
  have hcreated : rowCreated? row.txo.outpoint [m.event op] = some row := by
    rw [rowCreated?_singleton, hrow, Option.filter_some, if_pos (decide_eq_true rfl)]
  have hnone : m.rows row.txo.outpoint = none := by
    cases hbefore : m.rows row.txo.outpoint with
    | none => rfl
    | some before =>
      rw [rowCreated?_event_of_some hbefore] at hcreated
      cases hcreated
  refine ⟨hnone, ?_⟩
  rw [rows_exec_of_none hnone, hcreated]
  exact Option.some_ne_none row

/-- No row ever leaves. -/
theorem rows_of_rows_exec {op : Op} (hnone : (m.exec op).2.rows o = none) : m.rows o = none := by
  rw [rows_exec, Option.map_eq_none_iff, Option.or_eq_none_iff] at hnone
  exact hnone.1

end Index

/-! ## Many operations -/

namespace Op.Path

variable {t t' : Tables} {events : List Event} {m : Index}

/-- What the tables at the end of a way say about an outpoint. -/
theorem exists_index (h : Op.Path t events t') (ht : t.Represents m) :
    ∃ m', t'.Represents m' ∧ ∀ o, m'.rows o = ((m.rows o).or (rowCreated? o events)).map
      (·.spendByAll (spendersSet o events)) := by
  induction h generalizing m with
  | nil t =>
    refine ⟨m, ht, fun o ↦ ?_⟩
    have hnone : rowCreated? o [] = none := rfl
    have hnil : spendersSet o [] = [] := rfl
    simp only [hnone, hnil, Option.or_none, FundingRow.spendByAll_nil, Option.map_id_fun', id]
  | @cons t t₁ t' events op r hexec _ ih =>
    obtain ⟨rfl, ht₁⟩ := ht.of_exec hexec
    obtain ⟨m', ht', hrows⟩ := ih ht₁
    refine ⟨m', ht', fun o ↦ ?_⟩
    change _ = ((m.rows o).or (rowCreated? o (m.event op :: events))).map
      (·.spendByAll (spendersSet o (m.event op :: events)))
    have hspenders : spendersSet o (m.event op :: events) =
        spendersSet o [m.event op] ++ spendersSet o events := List.filterMap_append (l := [_])
    rw [hrows o, Index.rows_exec, rowCreated?_cons o _ events, ← Option.or_assoc]
    cases hrow : (m.rows o).or (rowCreated? o [m.event op]) with
    | some row =>
      simp only [Option.map_some, Option.some_or, FundingRow.spendByAll_append, hspenders]
    | none =>
      have hnil : spendersSet o [m.event op] = [] := by
        rw [spendersSet_cons, Index.spender?_event_of_none (Option.or_eq_none_iff.1 hrow).1]
        rfl
      simp only [Option.map_none, Option.none_or, hspenders, hnil, List.nil_append]

/-- No two events create a row for the same outpoint, and none does for one that has a row. -/
theorem nodup_rowsCreated (h : Op.Path t events t') (ht : t.Represents m) :
    ((rowsCreated events).map fun row ↦ row.txo.outpoint).Nodup ∧
      ∀ row ∈ rowsCreated events, m.rows row.txo.outpoint = none := by
  induction h generalizing m with
  | nil t => exact ⟨List.nodup_nil, fun row hrow ↦ absurd hrow List.not_mem_nil⟩
  | @cons t t₁ t' events op r hexec _ ih =>
    obtain ⟨rfl, ht₁⟩ := ht.of_exec hexec
    obtain ⟨hnodup, hnone⟩ := ih ht₁
    have hrest : ∀ row ∈ rowsCreated events, m.rows row.txo.outpoint = none :=
      fun row hrow ↦ Index.rows_of_rows_exec (hnone row hrow)
    change ((rowsCreated (m.event op :: events)).map _).Nodup ∧
      ∀ row ∈ rowsCreated (m.event op :: events), _
    rw [rowsCreated_cons]
    cases hevent : (m.event op).row? with
    | none => exact ⟨hnodup, hrest⟩
    | some row =>
      obtain ⟨hbefore, hafter⟩ := Index.rows_of_row?_event hevent
      rw [Option.toList_some, List.singleton_append, List.map_cons, List.nodup_cons]
      refine ⟨⟨?_, hnodup⟩, List.forall_mem_cons.2 ⟨hbefore, hrest⟩⟩
      intro hmem
      obtain ⟨row', hrow', hsame⟩ := List.mem_map.1 hmem
      exact hafter (hsame ▸ hnone row' hrow')

end Op.Path

/-! ## Listed outputs -/

def txosCreated (scriptHash : ScriptHash) (events : List Event) : List Txo :=
  ((rowsCreated events).filter fun row ↦ row.scriptHash = scriptHash).map FundingRow.txo

/-- An output after all that the events have set. -/
def Txo.after (txo : Txo) (events : List Event) : Txo :=
  { txo with spentBy := txo.spentBy.or (spendersSet txo.outpoint events).head? }

@[simp]
theorem Txo.outpoint_after (txo : Txo) (events : List Event) :
    (txo.after events).outpoint = txo.outpoint := rfl

theorem mem_txosCreated {scriptHash : ScriptHash} {events : List Event} {txo : Txo} :
    txo ∈ txosCreated scriptHash events ↔ ⟨scriptHash, txo⟩ ∈ rowsCreated events := by
  simp only [txosCreated, List.mem_map, List.mem_filter, decide_eq_true_eq]
  constructor
  · rintro ⟨row, ⟨hrow, rfl⟩, rfl⟩
    exact hrow
  · exact fun hrow ↦ ⟨_, ⟨hrow, rfl⟩, rfl⟩

theorem of_rowCreated? {o : Outpoint} {events : List Event} {row : FundingRow}
    (h : rowCreated? o events = some row) :
    row ∈ rowsCreated events ∧ row.txo.outpoint = o := by
  unfold rowCreated? at h
  have ho := List.find?_some h
  exact ⟨List.mem_of_find?_eq_some h, of_decide_eq_true ho⟩

theorem rowCreated?_eq_some_iff {events : List Event}
    (hnodup : ((rowsCreated events).map fun row ↦ row.txo.outpoint).Nodup) {o : Outpoint}
    {row : FundingRow} :
    rowCreated? o events = some row ↔ row ∈ rowsCreated events ∧ row.txo.outpoint = o := by
  refine ⟨of_rowCreated?, ?_⟩
  rintro ⟨hmem, rfl⟩
  have hsome : (rowCreated? row.txo.outpoint events).isSome :=
    List.find?_isSome.2 ⟨row, hmem, decide_eq_true rfl⟩
  obtain ⟨row', hrow'⟩ := Option.isSome_iff_exists.1 hsome
  obtain ⟨hmem', hsame⟩ := of_rowCreated? hrow'
  rw [hrow', List.inj_on_of_nodup_map hnodup hmem' hmem hsame]

/-- From empty tables on, the outputs under a script hash are those that the events have created
there, with their first spenders. -/
theorem Op.Path.exists_perm {t : Tables} {events : List Event}
    (h : Op.Path Tables.empty events t) (scriptHash : ScriptHash) :
    ((txosCreated scriptHash events).map Txo.outpoint).Nodup ∧
      ∃ txos, t.txos? scriptHash = .ok (listed txos) ∧
        txos.Perm ((txosCreated scriptHash events).map (Txo.after · events)) := by
  obtain ⟨hnodup, -⟩ := h.nodup_rowsCreated Tables.Represents.empty
  obtain ⟨m, hm, hrows⟩ := h.exists_index Tables.Represents.empty
  obtain ⟨txos, htxos, hlisting⟩ := hm.exists_isListing scriptHash
  have hcreated : ((txosCreated scriptHash events).map Txo.outpoint).Nodup := by
    rw [txosCreated, List.map_map]
    exact (List.filter_sublist.map _).nodup hnodup
  refine ⟨hcreated, txos, htxos, ?_⟩
  have hnodupAfter : ((txosCreated scriptHash events).map (Txo.after · events)).Nodup := by
    apply List.Nodup.of_map Txo.outpoint
    rwa [List.map_map]
  rw [List.perm_ext_iff_of_nodup hlisting.nodup_outpoints.of_map hnodupAfter]
  intro txo
  have hempty : Index.empty.rows txo.outpoint = none := rfl
  rw [hlisting.mem_iff, hrows, hempty, Option.none_or, Option.map_eq_some_iff, List.mem_map]
  simp only [rowCreated?_eq_some_iff hnodup, mem_txosCreated]
  constructor
  · rintro ⟨⟨_, before⟩, ⟨hmem, ho⟩, hrow⟩
    obtain ⟨rfl, hafter⟩ := FundingRow.mk.inj hrow
    refine ⟨before, hmem, ?_⟩
    calc
      before.after events =
          { before with
            spentBy := before.spentBy.or (spendersSet txo.outpoint events).head? } := by
        rw [Txo.after, ← ho]
      _ = txo := hafter
  · rintro ⟨before, hmem, rfl⟩
    exact ⟨_, ⟨hmem, rfl⟩, rfl⟩

end TxoIndex

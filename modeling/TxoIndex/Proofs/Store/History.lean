import TxoIndex.Proofs.Store.Listing

/-!
# The life of an output

An event is an operation of a transaction together with what it told its unit. The history of a
store is the list of the events of all units that were committed, in their order; a unit that fails
leaves none.

Once an output is in the tables, it stays there under its script hash, with its outpoint, value and
height, whatever is added later. Only its spender can change, and an event tells so: the spenders
that the events have set are at most one, and none if there was a spender before. From then on every
other input learns who has spent the output.
-/

namespace TxoIndex

/-! ## Events -/

structure Event where
  op : Op
  result : op.Result

/-- What an input is told that spends an output, by the spender that the output has. -/
def Spent.ofSpender (spentBy : Option Outpoint) (spender : Outpoint) : Spent :=
  match spentBy with
  | none => .spent
  | some existing => if existing = spender then .alreadySpent else .conflict existing

/-- The spender that an output has got, from what its input was told. The null outpoint is none. -/
def Spent.spender? (result : Spent) (spender : Outpoint) : Option Outpoint :=
  if result = .spent ∧ spender ≠ Outpoint.null then some spender else none

def Event.spender? (o : Outpoint) : Event → Option Outpoint
  | ⟨.spend prevout spender, result⟩ =>
    if prevout = o then Spent.spender? result spender else none
  | ⟨.putHeader .., _⟩ | ⟨.addTxo .., _⟩ | ⟨.setStage _, _⟩ => none

def spendersSet (o : Outpoint) (events : List Event) : List Outpoint :=
  events.filterMap (Event.spender? o)

/-- A way from tables to tables, operation by operation. -/
inductive Op.Path : Tables → List Event → Tables → Prop where
  | nil (t : Tables) : Op.Path t [] t
  | cons {t t' t'' : Tables} {events : List Event} (op : Op) {r : op.Result} :
    op.exec t = .ok (r, t') → Op.Path t' events t'' → Op.Path t (⟨op, r⟩ :: events) t''

theorem Op.Path.append {t t' t'' : Tables} {events events' : List Event}
    (h : Op.Path t events t') (h' : Op.Path t' events' t'') :
    Op.Path t (events ++ events') t'' := by
  induction h with
  | nil => exact h'
  | cons op hexec _ ih => exact .cons op hexec (ih h')

/-- The events of a unit on tables, as far as it comes. -/
def WriteUnit.events {α : Type} : WriteUnit α → Tables → List Event
  | done _, _ => []
  | abort _, _ => []
  | step op next, t =>
    match op.exec t with
    | .error _ => []
    | .ok (r, t) => ⟨op, r⟩ :: (next r).events t

theorem WriteUnit.path_of_run {α : Type} {unit : WriteUnit α} {t t' : Tables} {a : α}
    (h : unit.run t = .ok (a, t')) : Op.Path t (unit.events t) t' := by
  induction unit generalizing t with
  | done b =>
    rw [run, Except.ok.injEq, Prod.mk.injEq] at h
    rw [h.2]
    exact .nil t'
  | abort e => cases h
  | step op next ih =>
    unfold run at h
    split at h
    · cases h
    · next r after hexec =>
      rw [events, hexec]
      exact .cons op hexec (ih r h)

namespace Store

/-- The events that a unit adds to the history of a store: none, unless it is committed. -/
def commits {α : Type} (s : Store) (medium : Medium) (unit : WriteUnit α) : List Event :=
  match (s.write medium unit).1 with
  | .ok _ => unit.events s.tables
  | .error _ => []

theorem path_commits {α : Type} (s : Store) (medium : Medium) (unit : WriteUnit α) :
    Op.Path s.tables (s.commits medium unit) (s.write medium unit).2.tables := by
  cases hwrite : s.write medium unit with
  | mk result s' =>
    rw [commits, hwrite]
    cases result with
    | ok a => exact WriteUnit.path_of_run (tables_of_write_ok hwrite)
    | error e =>
      rw [tables_of_write_error hwrite]
      exact .nil s.tables

/-- The stores to which units lead from a store, whether these succeed or not, with the events of
those that were committed. -/
inductive History (s : Store) : List Event → Store → Prop where
  | start : History s [] s
  | write {log : List Event} {s' : Store} (medium : Medium) {α : Type} (unit : WriteUnit α) :
    History s log s' → History s (log ++ s'.commits medium unit) (s'.write medium unit).2

/-- A store is reachable if and only if it has a history that starts with empty tables. -/
theorem reachable_iff_exists_history {s : Store} :
    s.Reachable ↔
      ∃ (s₀ : Store) (log : List Event), s₀.tables = Tables.empty ∧ s₀.History log s := by
  constructor
  · intro h
    induction h with
    | fresh hempty => exact ⟨_, [], hempty, .start⟩
    | write medium unit _ ih =>
      obtain ⟨s₀, log, hempty, hlog⟩ := ih
      exact ⟨s₀, _, hempty, hlog.write medium unit⟩
  · rintro ⟨s₀, log, hempty, hlog⟩
    induction hlog with
    | start => exact .fresh hempty
    | write medium unit _ ih => exact ih.write medium unit

theorem History.path {s s' : Store} {log : List Event} (h : s.History log s') :
    Op.Path s.tables log s'.tables := by
  induction h with
  | start => exact .nil s.tables
  | write medium unit _ ih => exact ih.append (path_commits _ medium unit)

end Store

/-! ## Rows -/

section Rows

variable {m : Index} {o : Outpoint} {scriptHash : ScriptHash} {txo : Txo}

theorem Index.rows_addTxo_of_some {row : FundingRow} (hrow : m.rows o = some row)
    (scriptHash : ScriptHash) (txo : Txo) : (m.addTxo scriptHash txo).rows o = some row := by
  simp only [addTxo, hrow, Option.some_or, ite_self]

theorem Index.spent_of_some (hrow : m.rows o = some ⟨scriptHash, txo⟩) (spender : Outpoint) :
    m.spent o spender = Spent.ofSpender txo.spentBy spender := by
  simp only [Index.spent, hrow]
  cases hspent : txo.spentBy <;> rfl

/-- Spending a row sets its spender, unless it has one. -/
theorem Index.rows_spend_of_some (hrow : m.rows o = some ⟨scriptHash, txo⟩) (spender : Outpoint) :
    ∃ spentBy, (m.spend o spender).rows o = some ⟨scriptHash, { txo with spentBy }⟩ ∧
      spentBy.toList = txo.spentBy.toList ++ ((m.spent o spender).spender? spender).toList := by
  have hrows : (m.spend o spender).rows o =
      some (FundingRow.spendBy ⟨scriptHash, txo⟩ spender) := by
    simp only [spend, if_true, hrow, Option.map_some]
  rw [hrows, spent_of_some hrow]
  cases hspent : txo.spentBy with
  | none =>
    refine ⟨readBack Outpoint.null (some spender), ?_, ?_⟩
    · rw [FundingRow.spendBy_of_isStored (m.valid hrow).2 hspent]
    · rw [← ite_eq_readBack]
      by_cases hnull : spender = Outpoint.null <;>
        simp [hnull, Spent.ofSpender, Spent.spender?]
  | some existing =>
    refine ⟨some existing, ?_, ?_⟩
    · rw [FundingRow.spendBy_of_isSpent (by rw [Txo.isSpent, hspent, Option.isSome_some]),
        ← hspent]
    · by_cases hsame : existing = spender <;>
        simp [hsame, Spent.ofSpender, Spent.spender?]

/-- An operation changes no more than the spender of a row, and its event tells so. -/
theorem Index.rows_exec_of_some (hrow : m.rows o = some ⟨scriptHash, txo⟩) (op : Op) :
    ∃ spentBy, (m.exec op).2.rows o = some ⟨scriptHash, { txo with spentBy }⟩ ∧
      spentBy.toList =
        txo.spentBy.toList ++ (Event.spender? o ⟨op, (m.exec op).1⟩).toList := by
  cases op with
  | putHeader hash header => exact ⟨txo.spentBy, hrow, (List.append_nil _).symm⟩
  | addTxo scriptHash' txo' =>
    exact ⟨txo.spentBy, rows_addTxo_of_some hrow _ _, (List.append_nil _).symm⟩
  | setStage stage => exact ⟨txo.spentBy, hrow, (List.append_nil _).symm⟩
  | spend prevout spender =>
    change ∃ spentBy, (m.spend prevout spender).rows o = _ ∧ _ = _ ++
      (if prevout = o then (m.spent prevout spender).spender? spender else none).toList
    by_cases hprevout : prevout = o
    · subst hprevout
      rw [if_pos rfl]
      exact rows_spend_of_some hrow spender
    · refine ⟨txo.spentBy, ?_, ?_⟩
      · simp only [spend, if_neg (Ne.symm hprevout), hrow]
      · rw [if_neg hprevout, Option.toList_none, List.append_nil]

/-- On a way from tables to tables, a row keeps everything but its spender. -/
theorem Op.Path.exists_row {t t' : Tables} {events : List Event} (h : Op.Path t events t')
    (ht : t.Represents m) (hrow : m.rows o = some ⟨scriptHash, txo⟩) :
    ∃ m' spentBy, t'.Represents m' ∧ m'.rows o = some ⟨scriptHash, { txo with spentBy }⟩ ∧
      spentBy.toList = txo.spentBy.toList ++ spendersSet o events := by
  induction h generalizing m txo with
  | nil t => exact ⟨m, txo.spentBy, ht, hrow, (List.append_nil _).symm⟩
  | @cons t t₁ t' events op r hexec _ ih =>
    obtain ⟨rfl, ht₁⟩ := ht.of_exec hexec
    obtain ⟨spentBy, hrow₁, hfirst⟩ := Index.rows_exec_of_some hrow op
    obtain ⟨m', spentBy', ht', hrow', hrest⟩ := ih ht₁ hrow₁
    refine ⟨m', spentBy', ht', hrow', ?_⟩
    rw [hrest, hfirst, List.append_assoc]
    unfold spendersSet
    rw [List.filterMap_cons]
    cases Event.spender? o ⟨op, (m.exec op).1⟩ <;> rfl

end Rows

/-! ## Listed outputs -/

/-- An output that a store has listed once is listed for ever, in the committed tables and in those
that a transaction has in view. Its spender is the one that it had, or else the one that an event
has set since then, and every attempt to spend it is answered accordingly. -/
theorem Store.History.lists_forever {s s' : Store} {log view : List Event} {t : Tables}
    {scriptHash : ScriptHash} {txo : Txo} (hreachable : s.Reachable) (hlog : s.History log s')
    (hview : Op.Path s'.tables view t) (htxo : s.tables.Lists scriptHash txo) :
    ∃ spentBy, t.Lists scriptHash { txo with spentBy } ∧
      t.scriptHashOf? txo.outpoint = .ok (some scriptHash) ∧
      (∀ x, txo.spentBy = some x → spentBy = some x) ∧
      spentBy.toList = txo.spentBy.toList ++ spendersSet txo.outpoint (log ++ view) ∧
      ∀ spender, ∃ t', t.spend txo.outpoint spender =
        .ok (Spent.ofSpender spentBy spender, t') := by
  obtain ⟨m, hm⟩ := hreachable.represents
  obtain ⟨m', spentBy, ht, hrow, hspenders⟩ :=
    (hlog.path.append hview).exists_row hm (hm.lists_iff.1 htxo)
  refine ⟨spentBy, ht.lists_iff.2 hrow, ?_, ?_, hspenders, fun spender ↦ ?_⟩
  · rw [ht.scriptHashOf?_eq, hrow, Option.map_some]
  · intro x hx
    rw [hx, Option.toList_some, List.singleton_append] at hspenders
    cases spentBy with
    | none => cases hspenders
    | some y =>
      rw [Option.toList_some, List.cons.injEq] at hspenders
      rw [hspenders.1]
  · obtain ⟨t', hspend, -⟩ := ht.spend txo.outpoint spender
    refine ⟨t', ?_⟩
    rw [hspend, Index.spent_of_some hrow]

/-- An output that is spent in a unit that gives up, then by two other inputs in one unit that also
adds the output again. -/
theorem Store.History.lists_forever_ofThreeInputs :
    let txo : Txo := ⟨⟨Hash.zero, 7⟩, some 5, 50, none⟩
    let s := (Store.write .boundless (WriteUnit.addTxo Hash.zero txo)
      ⟨Tables.empty, 0, 0, .fresh 0, default⟩).2
    let lost : WriteUnit Unit := do
      let _ ← WriteUnit.spend txo.outpoint ⟨Hash.zero, 1⟩
      .abort .noHeaders
    let kept : WriteUnit Spent := do
      let _ ← WriteUnit.spend txo.outpoint ⟨Hash.zero, 2⟩
      let _ ← WriteUnit.addTxo (Hash.single []) { txo with height := some 6, value := 60 }
      WriteUnit.spend txo.outpoint ⟨Hash.zero, 3⟩
    let s' := ((s.write .boundless lost).2.write .boundless kept).2
    s.Reachable ∧ s.tables.Lists Hash.zero txo ∧
      s'.tables.Lists Hash.zero { txo with spentBy := some ⟨Hash.zero, 2⟩ } ∧
      ∃ t', s'.tables.spend txo.outpoint ⟨Hash.zero, 3⟩ =
        .ok (.conflict ⟨Hash.zero, 2⟩, t') := by
  intro txo s lost kept s'
  have hreachable : s.Reachable := .write .boundless _ (.fresh rfl)
  have htxo : s.tables.Lists Hash.zero txo := by decide +kernel
  have hlog : s.History ([] ++ s.commits .boundless lost ++
      (s.write .boundless lost).2.commits .boundless kept) s' :=
    .write .boundless kept (.write .boundless lost .start)
  obtain ⟨spentBy, hlists, -, -, hspenders, hspend⟩ :=
    lists_forever hreachable hlog (.nil s'.tables) htxo
  have hset : spendersSet txo.outpoint ([] ++ s.commits .boundless lost ++
      (s.write .boundless lost).2.commits .boundless kept ++ []) = [⟨Hash.zero, 2⟩] := by
    decide +kernel
  rw [hset] at hspenders
  obtain rfl : spentBy = some ⟨Hash.zero, 2⟩ := Option.toList_eq_singleton_iff.1 hspenders
  exact ⟨hreachable, htxo, hlists, hspend ⟨Hash.zero, 3⟩⟩

end TxoIndex

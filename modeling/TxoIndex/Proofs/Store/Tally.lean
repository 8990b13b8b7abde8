import TxoIndex.Proofs.Store.Ledger
import TxoIndex.Proofs.Store.Spending

/-!
# Counting what units were told

What the operations of a history told their units is enough to tell how the numbers of outputs have
changed. Every output that was reported as new is one more in the tables, and every one that was
reported as spent was unspent before and is spent now, and was not reported twice. An input was told
that its output is missing exactly if there is none, as long as none is added.

The null outpoint is not a spender, so where it is given as one, nothing changes but the report.
-/

namespace TxoIndex

/-! ## Reports -/

def Event.added? : Event → Option Added
  | ⟨.addTxo .., result⟩ => some result
  | ⟨.putHeader .., _⟩ | ⟨.spend .., _⟩ | ⟨.setStage _, _⟩ => none

def Event.spent? : Event → Option Spent
  | ⟨.spend .., result⟩ => some result
  | ⟨.putHeader .., _⟩ | ⟨.addTxo .., _⟩ | ⟨.setStage _, _⟩ => none

/-- The outpoint of an output that an event has marked as spent. -/
def Event.marked? : Event → Option Outpoint
  | ⟨.spend prevout spender, result⟩ => (Spent.spender? result spender).map fun _ ↦ prevout
  | ⟨.putHeader .., _⟩ | ⟨.addTxo .., _⟩ | ⟨.setStage _, _⟩ => none

def additions (events : List Event) : List Added := events.filterMap Event.added?

def answers (events : List Event) : List Spent := events.filterMap Event.spent?

def marked (events : List Event) : List Outpoint := events.filterMap Event.marked?

theorem additions_append (events events' : List Event) :
    additions (events ++ events') = additions events ++ additions events' :=
  List.filterMap_append

theorem answers_append (events events' : List Event) :
    answers (events ++ events') = answers events ++ answers events' :=
  List.filterMap_append

def FundingRow.op (row : FundingRow) : Op := .addTxo row.scriptHash row.txo

def SpendingRow.op (row : SpendingRow) : Op := .spend row.prevout row.spender

def Op.output? : Op → Option FundingRow
  | addTxo scriptHash txo => some ⟨scriptHash, txo⟩
  | putHeader .. | spend .. | setStage _ => none

def Op.input? : Op → Option SpendingRow
  | spend prevout spender => some ⟨prevout, spender⟩
  | putHeader .. | addTxo .. | setStage _ => none

/-- As many reports are taken from events as there are operations that make such reports. -/
theorem length_filterMap_events {γ δ : Type} {report? : Event → Option γ} {told? : Op → Option δ}
    (h : ∀ event, (report? event).isSome = (told? event.op).isSome) (events : List Event) :
    (events.filterMap report?).length = ((events.map Event.op).filterMap told?).length := by
  rw [List.filterMap_map, List.length_filterMap_eq_countP, List.length_filterMap_eq_countP]
  apply List.countP_congr
  intro event _
  exact Bool.eq_iff_iff.1 (h event)

theorem length_additions (events : List Event) :
    (additions events).length = ((events.map Event.op).filterMap Op.output?).length := by
  apply length_filterMap_events
  rintro ⟨op, r⟩
  cases op <;> rfl

theorem length_answers (events : List Event) :
    (answers events).length = ((events.map Event.op).filterMap Op.input?).length := by
  apply length_filterMap_events
  rintro ⟨op, r⟩
  cases op <;> rfl

theorem additions_eq_nil_iff {events : List Event} :
    additions events = [] ↔ (events.map Event.op).filterMap Op.output? = [] := by
  rw [← List.length_eq_zero_iff, length_additions, List.length_eq_zero_iff]

theorem answers_eq_nil_iff {events : List Event} :
    answers events = [] ↔ (events.map Event.op).filterMap Op.input? = [] := by
  rw [← List.length_eq_zero_iff, length_answers, List.length_eq_zero_iff]

/-- A unit that counts the reports of its operations does them all and counts every report. -/
theorem WriteUnit.of_run_foldlM {α β γ : Type} {f : β → α → WriteUnit β} (op : α → Op)
    (report? : Event → Option γ) (count : β → γ → β)
    (hf : ∀ b a, f b a =
      .step (op a) fun r ↦ .done (((report? ⟨op a, r⟩).map (count b)).getD b))
    {as : List α} {b c : β} {t t' : Tables} (hrun : (as.foldlM f b).run t = .ok (c, t')) :
    ((as.foldlM f b).events t).map Event.op = as.map op ∧
      c = (((as.foldlM f b).events t).filterMap report?).foldl count b := by
  induction as generalizing b t with
  | nil =>
    cases hrun
    exact ⟨rfl, rfl⟩
  | cons a as ih =>
    have hstep : (a :: as).foldlM f b = .step (op a) fun r ↦
        as.foldlM f (((report? ⟨op a, r⟩).map (count b)).getD b) := by
      rw [List.foldlM_cons, hf]
      rfl
    rw [hstep] at hrun ⊢
    unfold run at hrun
    split at hrun
    · cases hrun
    · next r after hexec =>
      obtain ⟨hops, hcount⟩ := ih hrun
      rw [events, hexec]
      dsimp only
      rw [List.map_cons, List.map_cons, hops, List.filterMap_cons]
      refine ⟨rfl, hcount.trans ?_⟩
      cases report? ⟨op a, r⟩ <;> rfl

/-! ## Numbers of reports -/

def Spent.isConflict : Spent → Bool
  | conflict _ => true
  | spent | alreadySpent | missing => false

theorem Added.length_eq (results : List Added) :
    results.length = results.count .new + results.count .duplicate := by
  induction results with
  | nil => rfl
  | cons result results ih =>
    rw [List.length_cons, ih]
    cases result <;> simp <;> omega

def Added.countDuplicate (n : Nat) : Added → Nat
  | new => n
  | duplicate => n + 1

theorem Added.foldl_countDuplicate (n : Nat) (results : List Added) :
    results.foldl Added.countDuplicate n = n + results.count .duplicate := by
  induction results generalizing n with
  | nil => rfl
  | cons result results ih =>
    rw [List.foldl_cons, ih]
    cases result
    · simp [countDuplicate]
    · simp [countDuplicate]
      omega

theorem Spent.length_eq (results : List Spent) :
    results.length = results.count .spent + results.count .alreadySpent +
      results.countP Spent.isConflict + results.count .missing := by
  induction results with
  | nil => rfl
  | cons result results ih =>
    rw [List.length_cons, ih, List.countP_cons]
    cases result <;> simp [Spent.isConflict] <;> omega

/-- Every output that is reported as spent was marked, unless by the null outpoint. -/
theorem length_marked {events : List Event}
    (h : ∀ row ∈ (events.map Event.op).filterMap Op.input?, row.spender ≠ Outpoint.null) :
    (marked events).length = (answers events).count .spent := by
  induction events with
  | nil => rfl
  | cons event events ih =>
    obtain ⟨op, result⟩ := event
    rw [List.map_cons, List.filterMap_cons] at h
    unfold marked answers at ih ⊢
    cases op with
    | putHeader hash header => exact ih h
    | addTxo scriptHash txo => exact ih h
    | setStage stage => exact ih h
    | spend prevout spender =>
      obtain ⟨hspender, hrest⟩ := List.forall_mem_cons.1 h
      have hnull : spender ≠ Outpoint.null := hspender
      change Spent at result
      rw [List.filterMap_cons, List.filterMap_cons]
      cases result <;>
        simp [Event.marked?, Event.spent?, Spent.spender?, hnull, ih hrest]

/-- An output is marked as often as a spender is set for it. -/
theorem count_marked (o : Outpoint) (events : List Event) :
    (marked events).count o = (spendersSet o events).length := by
  induction events with
  | nil => rfl
  | cons event events ih =>
    obtain ⟨op, result⟩ := event
    unfold marked spendersSet at ih ⊢
    cases op with
    | putHeader hash header => exact ih
    | addTxo scriptHash txo => exact ih
    | setStage stage => exact ih
    | spend prevout spender =>
      rw [List.filterMap_cons, List.filterMap_cons]
      simp only [Event.marked?, Event.spender?]
      by_cases hprevout : prevout = o <;> cases Spent.spender? result spender <;>
        simp [hprevout, ih]

theorem Index.spent_eq_missing_iff {m : Index} {prevout spender : Outpoint} :
    m.spent prevout spender = .missing ↔ m.rows prevout = none := by
  cases hrow : m.rows prevout with
  | none => simp [spent, hrow]
  | some row =>
    rw [spent_of_some hrow]
    exact iff_of_false (Spent.ofSpender_iff row.txo.spentBy spender).2.2.2 (Option.some_ne_none row)

/-! ## Numbers of outputs -/

namespace Tables

/-- An output of this outpoint is listed, spent or not. -/
def ListsAs (t : Tables) (o : Outpoint) (spent : Bool) : Prop :=
  ∃ scriptHash txo, t.Lists scriptHash txo ∧ txo.outpoint = o ∧ txo.isSpent = spent

namespace Represents

variable {t t' : Tables} {m : Index}

theorem listsAs_iff (h : t.Represents m) {o : Outpoint} {spent : Bool} :
    t.ListsAs o spent ↔ ∃ row, m.rows o = some row ∧ row.txo.isSpent = spent := by
  constructor
  · rintro ⟨scriptHash, txo, hlists, rfl, hspent⟩
    exact ⟨_, h.lists_iff.1 hlists, hspent⟩
  · rintro ⟨⟨scriptHash, txo⟩, hrow, hspent⟩
    obtain rfl : txo.outpoint = o := (m.valid hrow).1
    exact ⟨scriptHash, txo, h.lists_iff.2 hrow, rfl, hspent⟩

/-- An operation that reports a new output has added one, and others have added none. -/
theorem txoCount_exec (h : t.Represents m) {op : Op} {r : op.Result}
    (hexec : op.exec t = .ok (r, t')) :
    t'.txoCount = t.txoCount + (additions [⟨op, r⟩]).count .new := by
  cases op with
  | putHeader hash header =>
    cases hexec
    rfl
  | setStage stage =>
    cases hexec
    rfl
  | spend prevout spender =>
    obtain ⟨rfl, hspent⟩ := h.of_exec hexec
    rw [hspent.txoCount_eq, h.txoCount_eq, h.outpoints_spend hspent]
    rfl
  | addTxo scriptHash txo =>
    obtain ⟨rfl, hadded⟩ := h.of_exec hexec
    change t'.Represents (m.addTxo scriptHash txo) at hadded
    change _ = _ + [m.added txo].count .new
    rw [Index.added]
    cases hrow : m.rows txo.outpoint with
    | some row =>
      have hsame : m.addTxo scriptHash txo = m :=
        Index.addTxo_of_isSome (by rw [hrow, Option.isSome_some]) scriptHash
      rw [hsame] at hadded
      rw [hadded.unique h]
      rfl
    | none =>
      have hfresh : t.outpoints.contains txo.outpoint.key = false := by
        rw [h.contains_outpoint, hrow, Option.isSome_none]
      rw [hadded.txoCount_eq, h.txoCount_eq, hadded.outpoints.unique (h.outpoints_addTxo hrow),
        Std.ExtTreeMap.size_insert, hfresh]
      rfl

end Represents

end Tables

theorem Event.row?_of_added?_eq_none {event : Event} (h : event.added? = none) :
    event.row? = none := by
  obtain ⟨op, r⟩ := event
  cases op with
  | addTxo scriptHash txo => cases h
  | putHeader | spend | setStage => rfl

theorem Event.spender?_of_spent?_eq_none {event : Event} (h : event.spent? = none) (o : Outpoint) :
    event.spender? o = none := by
  obtain ⟨op, r⟩ := event
  cases op with
  | spend prevout spender => cases h
  | putHeader | addTxo | setStage => rfl

theorem spendersSet_of_answers_eq_nil {events : List Event} (h : answers events = [])
    (o : Outpoint) : spendersSet o events = [] := by
  rw [answers, List.filterMap_eq_nil_iff] at h
  rw [spendersSet, List.filterMap_eq_nil_iff]
  exact fun event hevent ↦ Event.spender?_of_spent?_eq_none (h event hevent) o

namespace Op.Path

variable {t t' : Tables} {events : List Event} {m : Index}

/-- There are as many outputs more as were reported as new. -/
theorem txoCount_eq (h : Op.Path t events t') (ht : t.Represents m) :
    t'.txoCount = t.txoCount + (additions events).count .new := by
  induction h generalizing m with
  | nil t => rfl
  | @cons t t₁ t' events op r hexec _ ih =>
    obtain ⟨rfl, ht₁⟩ := ht.of_exec hexec
    have hsplit : additions (⟨op, (m.exec op).1⟩ :: events) =
        additions [⟨op, (m.exec op).1⟩] ++ additions events := additions_append [_] events
    rw [ih ht₁, ht.txoCount_exec hexec, hsplit, List.count_append, Nat.add_assoc]

/-- No spender is set for an output that is not there and not added. -/
theorem spendersSet_of_none (h : Op.Path t events t') (ht : t.Represents m) {o : Outpoint}
    (hnone : m.rows o = none) (hadditions : additions events = []) :
    spendersSet o events = [] := by
  induction h generalizing m with
  | nil t => rfl
  | @cons t t₁ t' events op r hexec _ ih =>
    obtain ⟨rfl, ht₁⟩ := ht.of_exec hexec
    change additions (m.event op :: events) = [] at hadditions
    change spendersSet o (m.event op :: events) = []
    rw [additions, List.filterMap_eq_nil_iff, List.forall_mem_cons] at hadditions
    have hrow : (m.event op).row? = none := Event.row?_of_added?_eq_none hadditions.1
    have hnone₁ : (m.exec op).2.rows o = none := by
      rw [Index.rows_exec_of_none hnone, rowCreated?_singleton, hrow, Option.filter_none]
    rw [spendersSet_cons, Index.spender?_event_of_none hnone,
      ih ht₁ hnone₁ (List.filterMap_eq_nil_iff.2 hadditions.2)]
    rfl

/-- An outpoint is marked once if it is that of an output that was not spent before and is now. -/
theorem count_marked_spec (h : Op.Path t events t') (ht : t.Represents m)
    (hkinds : additions events = [] ∨ answers events = []) (o : Outpoint) :
    (marked events).count o ≤ 1 ∧
      (0 < (marked events).count o ↔ t.ListsAs o false ∧ t'.ListsAs o true) := by
  rw [count_marked, ht.listsAs_iff]
  cases hrow : m.rows o with
  | none =>
    have hnil : spendersSet o events = [] := by
      rcases hkinds with hadditions | hanswers
      · exact h.spendersSet_of_none ht hrow hadditions
      · exact spendersSet_of_answers_eq_nil hanswers o
    rw [hnil]
    simp
  | some row =>
    obtain ⟨m', spentBy, ht', hrow', hspenders⟩ := h.exists_row ht hrow
    rw [ht'.listsAs_iff, hrow']
    have hlength := congrArg List.length hspenders
    rw [List.length_append, Option.length_toList, Option.length_toList] at hlength
    simp only [Option.some.injEq, exists_eq_left', Txo.isSpent]
    -- There is one spender at most at the end, so none is set where there was one before.
    grind

/-- The outputs that were marked are those that were not spent before and are now, each once. -/
theorem marked_spec (h : Op.Path t events t') (ht : t.Represents m)
    (hkinds : additions events = [] ∨ answers events = []) :
    (marked events).Nodup ∧
      ∀ o, o ∈ marked events ↔ t.ListsAs o false ∧ t'.ListsAs o true := by
  constructor
  · rw [List.nodup_iff_count_le_one]
    exact fun o ↦ (h.count_marked_spec ht hkinds o).1
  · intro o
    rw [← List.count_pos_iff]
    exact (h.count_marked_spec ht hkinds o).2

/-- If no output is added, as many inputs are told that their output is missing as spend one that is
not there. -/
theorem count_missing (h : Op.Path t events t') (ht : t.Represents m)
    (hadditions : additions events = []) :
    (answers events).count .missing = ((events.map Event.op).filterMap Op.input?).countP
      fun row ↦ t.scriptHashOf? row.prevout = .ok none := by
  have hscript (row : SpendingRow) : decide (t.scriptHashOf? row.prevout = .ok none) =
      (m.rows row.prevout).isNone := by
    rw [ht.scriptHashOf?_eq]
    cases m.rows row.prevout <;> rfl
  simp only [hscript]
  clear hscript
  induction h generalizing m with
  | nil t => rfl
  | @cons t t₁ t' events op r hexec _ ih =>
    obtain ⟨rfl, ht₁⟩ := ht.of_exec hexec
    rw [additions, List.filterMap_eq_nil_iff, List.forall_mem_cons] at hadditions
    have ih := ih ht₁ (List.filterMap_eq_nil_iff.2 hadditions.2)
    cases op with
    | addTxo scriptHash txo => cases hadditions.1
    | putHeader hash header => exact ih
    | setStage stage => exact ih
    | spend prevout spender =>
      have hsame (o : Outpoint) :
          ((m.spend prevout spender).rows o).isNone = (m.rows o).isNone := by
        have hmap := congrArg Option.isNone (m.map_scriptHash_spend prevout spender o)
        rwa [Option.isNone_map, Option.isNone_map] at hmap
      change (m.spent prevout spender :: answers events).count .missing =
        (⟨prevout, spender⟩ :: (events.map Event.op).filterMap Op.input?).countP _
      simp only [Index.exec, hsame] at ih
      rw [List.count_cons, List.countP_cons, ih, beq_eq_decide]
      simp only [decide_eq_true_eq, Index.spent_eq_missing_iff, Option.isNone_iff_eq_none]

end Op.Path

end TxoIndex

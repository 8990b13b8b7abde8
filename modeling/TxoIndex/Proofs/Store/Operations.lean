import TxoIndex.Proofs.Store.Transactions

/-!
# Writes of some operations

What a unit can do depends on the operations that it is made of. This relates two stores if writes
of units lead from one to the other that are all made of operations of some kind, whether these
writes succeed or not, and wherever their transactions are given up. Only the operation that sets
the stage touches the table with the stage, so writes without it leave the stage alone.
-/

namespace TxoIndex

variable {α β : Type} {P Q : Op → Prop}

namespace Op

def IsSpend : Op → Prop
  | spend .. => True
  | putHeader .. | addTxo .. | setStage _ => False

def SetsStage : Op → Prop
  | setStage _ => True
  | putHeader .. | addTxo .. | spend .. => False

/-- Whether an operation belongs to the outputs of a block. -/
def IsAddition : Op → Prop
  | putHeader .. | addTxo .. => True
  | spend .. | setStage _ => False

theorem IsAddition.not_isSpend {op : Op} (h : op.IsAddition) : ¬ op.IsSpend := by
  cases op with
  | spend prevout spender => exact h.elim
  | putHeader | addTxo | setStage => exact id

theorem IsAddition.not_setsStage {op : Op} (h : op.IsAddition) : ¬ op.SetsStage := by
  cases op with
  | setStage stage => exact h.elim
  | putHeader | addTxo | spend => exact id

theorem SetsStage.not_isSpend {op : Op} (h : op.SetsStage) : ¬ op.IsSpend := by
  cases op with
  | spend prevout spender => exact h.elim
  | putHeader | addTxo | setStage => exact id

end Op

/-! ## Units of some operations -/

namespace WriteUnit

/-- Whether all operations that a unit can come to are of some kind. -/
def All (P : Op → Prop) : WriteUnit α → Prop
  | done _ | abort _ => True
  | step op next => P op ∧ ∀ r, (next r).All P

theorem All.mono (hPQ : ∀ op, P op → Q op) {unit : WriteUnit α} (h : unit.All P) : unit.All Q := by
  induction unit with
  | done a => trivial
  | abort e => trivial
  | step op next ih => exact ⟨hPQ op h.1, fun r ↦ ih r (h.2 r)⟩

theorem All.bind {unit : WriteUnit α} {f : α → WriteUnit β} (hunit : unit.All P)
    (hf : ∀ a, (f a).All P) : (unit >>= f).All P := by
  change (unit.bind f).All P
  induction unit with
  | done a => exact hf a
  | abort e => trivial
  | step op next ih => exact ⟨hunit.1, fun r ↦ ih r (hunit.2 r)⟩

theorem all_foldlM {f : β → α → WriteUnit β} (hf : ∀ b a, (f b a).All P) (as : List α) (b : β) :
    (as.foldlM f b).All P := by
  induction as generalizing b with
  | nil => trivial
  | cons a as ih =>
    rw [List.foldlM_cons]
    exact (hf b a).bind ih

end WriteUnit

/-! ## The stage -/

namespace Tables

theorem stage_congr {t t' : Tables} (h : t'.marks = t.marks) : t'.stage = t.stage := by
  rw [stage, stage, h]

theorem stage_setStage (t : Tables) (stage : Stage) : (t.setStage stage).stage = .ok stage := by
  have hmark : (t.setStage stage).marks[stageKey]? = some [UInt8.ofNat stage.rank] :=
    Std.ExtTreeMap.getElem?_insert_self
  rw [Tables.stage, hmark]
  cases stage <;> rfl

theorem marks_putRecord? {t t' : Tables} {scriptHash : ScriptHash} {record : Bytes}
    (h : t.putRecord? scriptHash record = some t') : t'.marks = t.marks := by
  unfold putRecord? at h
  split at h
  · cases h
    rfl
  split at h
  · cases h
  · cases h
    rfl

theorem marks_eraseRecord (t : Tables) (scriptHash : ScriptHash) (record : Bytes) :
    (t.eraseRecord scriptHash record).marks = t.marks := by
  unfold eraseRecord
  split
  · rfl
  split
  · rfl
  · rfl

theorem marks_addTxo (t : Tables) (scriptHash : ScriptHash) (txo : Txo) :
    (t.addTxo scriptHash txo).2.marks = t.marks := by
  unfold addTxo
  split
  · rfl
  dsimp only
  split
  · next hput =>
    have hmarks := marks_putRecord? hput
    exact hmarks
  · rfl

theorem marks_spend {t t' : Tables} {prevout spender : Outpoint} {result : Spent}
    (h : t.spend prevout spender = .ok (result, t')) : t'.marks = t.marks := by
  unfold spend at h
  split at h
  · cases h
  · cases h
    rfl
  split at h
  · cases h
  split at h
  · cases h
  split at h
  · split at h
    · cases h
      rfl
    · cases h
      rfl
  dsimp only at h
  split at h
  · next hput =>
    cases h
    exact (marks_putRecord? hput).trans (t.marks_eraseRecord _ _)
  · cases h

end Tables

theorem Op.marks_exec {op : Op} {t t' : Tables} {r : op.Result} (hop : ¬ op.SetsStage)
    (h : op.exec t = .ok (r, t')) : t'.marks = t.marks := by
  cases op with
  | putHeader hash header =>
    cases h
    rfl
  | addTxo scriptHash txo =>
    have hadd : t.addTxo scriptHash txo = (r, t') := Except.ok.inj h
    have hmarks := t.marks_addTxo scriptHash txo
    rw [hadd] at hmarks
    exact hmarks
  | spend prevout spender => exact Tables.marks_spend h
  | setStage stage => exact absurd trivial hop

theorem WriteUnit.marks_run {unit : WriteUnit α} (hunit : unit.All fun op ↦ ¬ op.SetsStage)
    {t t' : Tables} {a : α} (h : unit.run t = .ok (a, t')) : t'.marks = t.marks := by
  induction unit generalizing t with
  | done b =>
    cases h
    rfl
  | abort e => cases h
  | step op next ih =>
    unfold run at h
    split at h
    · cases h
    · next r after hexec => exact (ih r (hunit.2 r) h).trans (Op.marks_exec hunit.1 hexec)

namespace Store

theorem marks_write (s : Store) (medium : Medium) {unit : WriteUnit α}
    (hunit : unit.All fun op ↦ ¬ op.SetsStage) :
    (s.write medium unit).2.tables.marks = s.tables.marks := by
  cases hwrite : s.write medium unit with
  | mk result s' =>
    cases result with
    | ok a => exact WriteUnit.marks_run hunit (tables_of_write_ok hwrite)
    | error e => rw [tables_of_write_error hwrite]

/-! ## Stores and writes of some operations -/

/-- The stores to which writes of some operations lead from a store. -/
inductive LeadsBy (P : Op → Prop) (s : Store) : Store → Prop where
  | start : LeadsBy P s s
  | write {s' : Store} (medium : Medium) {α : Type} {unit : WriteUnit α} :
    LeadsBy P s s' → unit.All P → LeadsBy P s (s'.write medium unit).2

namespace LeadsBy

variable {s s' s'' : Store}

theorem mono (hPQ : ∀ op, P op → Q op) (h : s.LeadsBy P s') : s.LeadsBy Q s' := by
  induction h with
  | start => exact .start
  | write medium _ hunit ih => exact .write medium ih (hunit.mono hPQ)

theorem trans (h : s.LeadsBy P s') (h' : s'.LeadsBy P s'') : s.LeadsBy P s'' := by
  induction h' with
  | start => exact h
  | write medium _ hunit ih => exact .write medium ih hunit

/-- Writes that do not set the stage leave it alone. -/
theorem stage_eq (h : s.LeadsBy P s') (hP : ∀ op, P op → ¬ op.SetsStage) :
    s'.tables.stage = s.tables.stage := by
  induction h with
  | start => rfl
  | @write s' medium α unit _ hunit ih =>
    have hmarks := s'.marks_write medium (hunit.mono hP)
    exact (Tables.stage_congr hmarks).trans ih

end LeadsBy

end Store

end TxoIndex

import TxoIndex.Proofs.Store.Representation
import TxoIndex.Store.Write

/-!
# Transactions

A unit of work does to the tables what it does to the index that they represent, and it fails on the
tables only where it gives up itself. A store keeps the tables of a transaction that is committed.
However often a unit is tried and the map grows, a write that fails leaves the tables alone, and one
that succeeds has the result of the unit on the tables before.

So the tables of a store that started empty represent an index, and so do all tables that a
transaction on it has in view before it is committed or rolled back.
-/

namespace TxoIndex

/-! ## Units on an index -/

def WriteUnit.runOn {α : Type} : WriteUnit α → Index → Except StoreError (α × Index)
  | done a, m => .ok (a, m)
  | abort e, _ => .error e
  | step op next, m => (next (m.exec op).1).runOn (m.exec op).2

theorem WriteUnit.runOn_bind {α β : Type} (unit : WriteUnit α) (f : α → WriteUnit β) (m : Index) :
    (unit.bind f).runOn m =
      match unit.runOn m with
      | .ok (a, m') => (f a).runOn m'
      | .error e => .error e := by
  induction unit generalizing m with
  | done a => rfl
  | abort e => rfl
  | step op next ih => exact ih (m.exec op).1 (m.exec op).2

namespace Tables.Represents

variable {t : Tables} {m : Index} {α : Type} {unit : WriteUnit α}

theorem run_of_runOn_ok (h : t.Represents m) {a : α} {m' : Index}
    (hrun : unit.runOn m = .ok (a, m')) :
    ∃ t', unit.run t = .ok (a, t') ∧ t'.Represents m' := by
  induction unit generalizing t m with
  | done b =>
    rw [WriteUnit.runOn, Except.ok.injEq, Prod.mk.injEq] at hrun
    obtain ⟨rfl, rfl⟩ := hrun
    exact ⟨t, rfl, h⟩
  | abort e => cases hrun
  | step op next ih =>
    obtain ⟨t', hexec, hrepresents⟩ := h.exec op
    obtain ⟨t'', hnext, hrepresents'⟩ := ih _ hrepresents hrun
    refine ⟨t'', ?_, hrepresents'⟩
    rw [WriteUnit.run, hexec]
    exact hnext

theorem run_of_runOn_error (h : t.Represents m) {e : StoreError} (hrun : unit.runOn m = .error e) :
    unit.run t = .error e := by
  induction unit generalizing t m with
  | done b => cases hrun
  | abort e' => exact congrArg Except.error (Except.error.inj hrun)
  | step op next ih =>
    obtain ⟨t', hexec, hrepresents⟩ := h.exec op
    rw [WriteUnit.run, hexec]
    exact ih _ hrepresents hrun

end Tables.Represents

/-! ## Writes -/

section Writes

variable {α : Type} {unit : WriteUnit α}

/-- A committed transaction is a run of its unit. -/
theorem WriteUnit.run_of_attempt_committed {answer : Nat → Tables → Answer} {number : Nat}
    {stored stored' : Bool} {t t' : Tables} {a : α}
    (h : unit.attempt answer number stored t = .committed a stored' t') :
    unit.run t = .ok (a, t') := by
  induction unit generalizing number stored t with
  | done b =>
    unfold attempt at h
    split at h
    · cases h
      rfl
    · cases h
    · cases h
  | abort e => cases h
  | step op next ih =>
    unfold attempt at h
    split at h
    · cases h
    · next r after hexec =>
      split at h
      · rw [run, hexec]
        exact ih r h
      · cases h
      · cases h

/-- A transaction is committed if there is always room. -/
theorem WriteUnit.attempt_of_fits {answer : Nat → Tables → Answer}
    (hfits : ∀ number t, answer number t = .fits) (number : Nat) (stored : Bool) {t t' : Tables}
    {a : α} (h : unit.run t = .ok (a, t')) :
    ∃ stored', unit.attempt answer number stored t = .committed a stored' t' := by
  induction unit generalizing number stored t with
  | done b =>
    cases h
    refine ⟨stored, ?_⟩
    rw [attempt, hfits]
  | abort e => cases h
  | step op next ih =>
    unfold run at h
    split at h
    · cases h
    · next r after hexec =>
      obtain ⟨stored', hattempt⟩ := ih r (number + 1) (stored || op.stores t r) h
      refine ⟨stored', ?_⟩
      rw [attempt, hexec]
      simp only [hfits]
      exact hattempt

namespace Store

theorem write_of_fits {medium : Medium} {s : Store}
    (hfits : ∀ attempt number mapSize t, medium.answer attempt number mapSize t = .fits) {a : α}
    {t' : Tables} (h : unit.run s.tables = .ok (a, t')) :
    ∃ s', s.write medium unit = (.ok a, s') := by
  obtain ⟨stored, hattempt⟩ := WriteUnit.attempt_of_fits (hfits 0 · s.mapSize ·) 0 false h
  refine ⟨s.commit stored t', ?_⟩
  rw [write, maxAttempts, tryWrite, hattempt]

theorem tables_grow {s s' : Store} {medium : Medium} {observed : Nat}
    (h : s.grow medium observed = .ok s') : s'.tables = s.tables := by
  unfold grow at h
  split at h
  · cases h
    rfl
  split at h
  · cases h
  split at h
  · cases h
    rfl
  · cases h

theorem tables_of_tryWrite_ok {medium : Medium} {left attempt : Nat} {s s' : Store} {a : α}
    (h : tryWrite medium unit left attempt s = (.ok a, s')) :
    unit.run s.tables = .ok (a, s'.tables) := by
  induction left generalizing attempt s with
  | zero => cases h
  | succ left ih =>
    unfold tryWrite at h
    split at h
    · next hattempt =>
      cases h
      exact WriteUnit.run_of_attempt_committed hattempt
    · cases h
    · split at h
      · cases h
      · next hgrow =>
        rw [← tables_grow hgrow]
        exact ih h

theorem tables_of_tryWrite_error {medium : Medium} {left attempt : Nat} {s s' : Store}
    {e : StoreError} (h : tryWrite medium unit left attempt s = (.error e, s')) :
    s'.tables = s.tables := by
  induction left generalizing attempt s with
  | zero =>
    cases h
    rfl
  | succ left ih =>
    unfold tryWrite at h
    split at h
    · cases h
    · cases h
      rfl
    · split at h
      · cases h
        rfl
      · next hgrow =>
        rw [← tables_grow hgrow]
        exact ih h

/-- A write that succeeds has the result and the tables of its unit. -/
theorem tables_of_write_ok {medium : Medium} {s s' : Store} {a : α}
    (h : s.write medium unit = (.ok a, s')) : unit.run s.tables = .ok (a, s'.tables) :=
  tables_of_tryWrite_ok h

/-- A write that fails leaves the tables alone. -/
theorem tables_of_write_error {medium : Medium} {s s' : Store} {e : StoreError}
    (h : s.write medium unit = (.error e, s')) : s'.tables = s.tables :=
  tables_of_tryWrite_error h

end Store

end Writes

/-! ## Stores that started empty -/

/-- The tables that a transaction can have in view which starts with the tables `t`. -/
inductive Op.Reaches (t : Tables) : Tables → Prop where
  | start : Op.Reaches t t
  | exec {t' t'' : Tables} (op : Op) {r : op.Result} :
    Op.Reaches t t' → op.exec t' = .ok (r, t'') → Op.Reaches t t''

theorem Op.Reaches.trans {t t' t'' : Tables} (h : Op.Reaches t t') (h' : Op.Reaches t' t'') :
    Op.Reaches t t'' := by
  induction h' with
  | start => exact h
  | exec op _ hexec ih => exact .exec op ih hexec

theorem WriteUnit.reaches_of_run {α : Type} {unit : WriteUnit α} {t t' : Tables} {a : α}
    (h : unit.run t = .ok (a, t')) : Op.Reaches t t' := by
  induction unit generalizing t with
  | done b =>
    rw [run, Except.ok.injEq, Prod.mk.injEq] at h
    rw [h.2]
    exact .start
  | abort e => cases h
  | step op next ih =>
    unfold run at h
    split at h
    · cases h
    · next r after hexec => exact (Op.Reaches.exec op .start hexec).trans (ih r h)

theorem Op.Reaches.represents {t t' : Tables} (h : Op.Reaches t t') {m : Index}
    (ht : t.Represents m) : ∃ m', t'.Represents m' := by
  induction h with
  | start => exact ⟨m, ht⟩
  | exec op _ hexec ih =>
    obtain ⟨m', ht'⟩ := ih
    exact ⟨_, (ht'.of_exec hexec).2⟩

/-- The stores to which any number of units lead from an empty one, whether these succeed or not. -/
inductive Store.Reachable : Store → Prop where
  | fresh {s : Store} : s.tables = Tables.empty → Store.Reachable s
  | write {s : Store} (medium : Medium) {α : Type} (unit : WriteUnit α) :
    Store.Reachable s → Store.Reachable (s.write medium unit).2

theorem Store.Reachable.represents {s : Store} (h : s.Reachable) :
    ∃ m, s.tables.Represents m := by
  induction h with
  | fresh hempty => exact ⟨Index.empty, hempty ▸ Tables.Represents.empty⟩
  | @write s medium α unit _ ih =>
    obtain ⟨m, hm⟩ := ih
    cases hwrite : s.write medium unit with
    | mk result s' =>
      cases result with
      | ok a => exact (WriteUnit.reaches_of_run (tables_of_write_ok hwrite)).represents hm
      | error e =>
        rw [tables_of_write_error hwrite]
        exact ⟨m, hm⟩

end TxoIndex

import TxoIndex.Proofs.Store.Transactions

/-!
# The transactions of a write

A write runs its unit in one transaction after another, each in a larger map than the one before,
until one of them does not find the map full. Whatever the medium answers and wherever it does, the
last transaction alone decides: if it is committed, the unit has been run once on the tables that
were there, and otherwise it has not been run at all.

That the map is full is for the medium to say. So the units and media looked at here give up for
other reasons only.
-/

namespace TxoIndex

variable {α : Type}

/-! ## Errors about room -/

/-- Whether an error says that there is no room in the map. -/
def StoreError.IsAboutRoom (e : StoreError) : Prop := e = .engine .mapFull ∨ ∃ size, e = .full size

/-- Whether a unit never gives up because of the room in the map. -/
def WriteUnit.LeavesRoomAside : WriteUnit α → Prop
  | done _ => True
  | abort e => ¬ e.IsAboutRoom
  | step _ next => ∀ r, (next r).LeavesRoomAside

namespace Medium

/-- Whether a medium fails with an error of its own. -/
def FailsWith (medium : Medium) (e : StoreError) : Prop :=
  ∃ attempt number mapSize t, medium.answer attempt number mapSize t = .failed e

/-- Whether a medium says that the map is full by that answer only. -/
def LeavesRoomAside (medium : Medium) : Prop := ∀ e, medium.FailsWith e → ¬ e.IsAboutRoom

end Medium

theorem StoreError.not_isAboutRoom_corrupt (table key : String) (reason : CorruptReason) :
    ¬ (corrupt table key reason).IsAboutRoom := by
  simp [IsAboutRoom]

namespace Tables

theorem not_isAboutRoom_of_decodeTxo {scriptHash : ScriptHash} {record : Bytes} {e : StoreError}
    (h : decodeTxo scriptHash record = .error e) : ¬ e.IsAboutRoom := by
  unfold decodeTxo at h
  split at h
  · cases h
  · cases h
    exact StoreError.not_isAboutRoom_corrupt _ _ _

theorem not_isAboutRoom_of_scriptHashOf? {t : Tables} {outpoint : Outpoint} {e : StoreError}
    (h : t.scriptHashOf? outpoint = .error e) : ¬ e.IsAboutRoom := by
  unfold scriptHashOf? decodeScriptHash at h
  split at h
  · cases h
  split at h
  · cases h
  · cases h
    exact StoreError.not_isAboutRoom_corrupt _ _ _

theorem not_isAboutRoom_of_spend {t : Tables} {prevout spender : Outpoint} {e : StoreError}
    (h : t.spend prevout spender = .error e) : ¬ e.IsAboutRoom := by
  unfold spend at h
  split at h
  · next hhash =>
    cases h
    exact not_isAboutRoom_of_scriptHashOf? hhash
  · cases h
  split at h
  · cases h
    exact StoreError.not_isAboutRoom_corrupt _ _ _
  split at h
  · next hdecode =>
    cases h
    exact not_isAboutRoom_of_decodeTxo hdecode
  split at h
  · split at h
    · cases h
    · cases h
  dsimp only at h
  split at h
  · cases h
  · cases h
    simp [StoreError.IsAboutRoom]

end Tables

theorem Op.not_isAboutRoom_of_exec {op : Op} {t : Tables} {e : StoreError}
    (h : op.exec t = .error e) : ¬ e.IsAboutRoom := by
  cases op with
  | putHeader hash header => cases h
  | addTxo scriptHash txo => cases h
  | spend prevout spender => exact Tables.not_isAboutRoom_of_spend h
  | setStage stage => cases h

/-! ## Single transactions -/

/-- A transaction that fails does so for a reason of its unit or of the medium. -/
theorem WriteUnit.run_of_attempt_failed {unit : WriteUnit α} {answer : Nat → Tables → Answer}
    {number : Nat} {stored : Bool} {t : Tables} {e : StoreError}
    (h : unit.attempt answer number stored t = .failed e) :
    unit.run t = .error e ∨ ∃ number' t', answer number' t' = .failed e := by
  induction unit generalizing number stored t with
  | done a =>
    unfold attempt at h
    split at h
    · cases h
    · cases h
    · next hanswer =>
      cases h
      exact .inr ⟨number, t, hanswer⟩
  | abort e' =>
    cases h
    exact .inl rfl
  | step op next ih =>
    unfold attempt at h
    split at h
    · next hexec =>
      cases h
      left
      rw [run, hexec]
    · next r after hexec =>
      split at h
      · rw [run, hexec]
        exact ih r h
      · cases h
      · next hanswer =>
        cases h
        exact .inr ⟨number, after, hanswer⟩

theorem WriteUnit.LeavesRoomAside.not_isAboutRoom {unit : WriteUnit α}
    (hunit : unit.LeavesRoomAside) {t : Tables} {e : StoreError} (h : unit.run t = .error e) :
    ¬ e.IsAboutRoom := by
  induction unit generalizing t with
  | done a => cases h
  | abort e' =>
    cases h
    exact hunit
  | step op next ih =>
    unfold run at h
    split at h
    · next hexec =>
      cases h
      exact Op.not_isAboutRoom_of_exec hexec
    · next r after hexec => exact ih r (hunit r) h

namespace Store

def transaction (medium : Medium) (unit : WriteUnit α) (attempt : Nat) (s : Store) : Outcome α :=
  unit.attempt (fun number t ↦ medium.answer attempt number s.mapSize t) 0 false s.tables

/-- What the transactions of a write come to, of which there are at most `left`, one after another.
Behind a full map there is another one if the map can grow. -/
def transactionsFrom (medium : Medium) (unit : WriteUnit α) :
    (left attempt : Nat) → Store → List (Outcome α)
  | 0, _, _ => []
  | left + 1, attempt, s =>
    s.transaction medium unit attempt ::
      match s.transaction medium unit attempt, s.grow medium s.mapSize with
      | .mapFull, .ok s => transactionsFrom medium unit left (attempt + 1) s
      | _, _ => []

def transactions (medium : Medium) (unit : WriteUnit α) (s : Store) : List (Outcome α) :=
  s.transactionsFrom medium unit maxAttempts 0

/-! ## The last transaction -/

theorem reason_of_transaction_failed {medium : Medium} {unit : WriteUnit α} {attempt : Nat}
    {s : Store} {e : StoreError} (h : s.transaction medium unit attempt = .failed e) :
    unit.run s.tables = .error e ∨ medium.FailsWith e := by
  obtain hrun | ⟨number, t, hanswer⟩ := WriteUnit.run_of_attempt_failed h
  · exact .inl hrun
  · exact .inr ⟨attempt, number, s.mapSize, t, hanswer⟩

/-- What a write does behind its last transaction, which began on the store `s` and could be
followed by `left` others. -/
inductive Settles (medium : Medium) (s : Store) (left : Nat) :
    Outcome α → Except StoreError α × Store → Prop
  | committed (a : α) (stored : Bool) (tables : Tables) :
    Settles medium s left (.committed a stored tables) (.ok a, s.commit stored tables)
  | failed (e : StoreError) : Settles medium s left (.failed e) (.error e, s)
  | limited : s.exceedsLimit s.grownSize = true →
    Settles medium s left .mapFull (.error (.full s.mapSize), s)
  | unaccepted : medium.accepts s.grownSize = false →
    Settles medium s left .mapFull (.error (.engine .outOfMemory), s)
  | exhausted {s' : Store} : left = 0 → s.grow medium s.mapSize = .ok s' →
    Settles medium s left .mapFull (.error (.full s'.mapSize), s')

variable {medium : Medium} {unit : WriteUnit α}

theorem resizes_grow {s s' : Store} (h : s.grow medium s.mapSize = .ok s') :
    s'.resizes = s.resizes + 1 := by
  unfold grow at h
  rw [if_neg (Nat.lt_irrefl _)] at h
  split at h
  · cases h
  split at h
  · cases h
    rfl
  · cases h

theorem settles_of_grow_error {s : Store} {left : Nat} {e : StoreError}
    (h : s.grow medium s.mapSize = .error e) :
    s.Settles medium left (.mapFull : Outcome α) (.error e, s) := by
  unfold grow at h
  rw [if_neg (Nat.lt_irrefl _)] at h
  split at h
  · next hlimit =>
    cases h
    exact .limited hlimit
  split at h
  · cases h
  · next haccepts =>
    cases h
    exact .unaccepted (Bool.not_eq_true _ ▸ haccepts)

/-- A transaction is the last one, or it found the map full and the map grows. -/
theorem settles_or_grows (left attempt : Nat) (s : Store) :
    (s.transactionsFrom medium unit (left + 1) attempt = [s.transaction medium unit attempt] ∧
      s.Settles medium left (s.transaction medium unit attempt)
        (s.tryWrite medium unit (left + 1) attempt)) ∨
    ∃ s', s.grow medium s.mapSize = .ok s' ∧ s.transaction medium unit attempt = .mapFull ∧
      s.transactionsFrom medium unit (left + 1) attempt =
        .mapFull :: s'.transactionsFrom medium unit left (attempt + 1) ∧
      s.tryWrite medium unit (left + 1) attempt = s'.tryWrite medium unit left (attempt + 1) := by
  rw [tryWrite, transactionsFrom]
  unfold transaction
  cases unit.attempt (fun number t ↦ medium.answer attempt number s.mapSize t) 0 false s.tables with
  | committed a stored tables => exact .inl ⟨rfl, .committed a stored tables⟩
  | failed e => exact .inl ⟨rfl, .failed e⟩
  | mapFull =>
    cases hgrow : s.grow medium s.mapSize with
    | error e => exact .inl ⟨rfl, settles_of_grow_error hgrow⟩
    | ok s' => exact .inr ⟨s', rfl, rfl, rfl, rfl⟩

/-- All transactions but the last find the map full, the last one begins with the tables that were
there, and it decides. -/
theorem exists_last_transaction (medium : Medium) (unit : WriteUnit α) (left attempt : Nat)
    (s : Store) :
    ∃ (full : Nat) (s₁ : Store), full ≤ left ∧ s₁.tables = s.tables ∧
      s₁.resizes = s.resizes + full ∧
      s.transactionsFrom medium unit (left + 1) attempt =
        List.replicate full .mapFull ++ [s₁.transaction medium unit (attempt + full)] ∧
      s₁.Settles medium (left - full) (s₁.transaction medium unit (attempt + full))
        (s.tryWrite medium unit (left + 1) attempt) := by
  induction left generalizing attempt s with
  | zero =>
    refine ⟨0, s, Nat.le_refl 0, rfl, rfl, ?_⟩
    obtain hlast | ⟨s', hgrow, hfull, htransactions, htry⟩ := s.settles_or_grows 0 attempt
    · exact hlast
    · rw [htransactions, htry]
      change [_] = [s.transaction medium unit attempt] ∧
        s.Settles medium 0 (s.transaction medium unit attempt) _
      rw [hfull]
      exact ⟨rfl, .exhausted rfl hgrow⟩
  | succ left ih =>
    obtain hlast | ⟨s', hgrow, hfull, htransactions, htry⟩ := s.settles_or_grows (left + 1) attempt
    · exact ⟨0, s, Nat.zero_le _, rfl, rfl, hlast⟩
    · obtain ⟨full, s₁, hle, htables, hresizes, hlist, hsettles⟩ := ih (attempt + 1) s'
      have hnumber : attempt + (full + 1) = attempt + 1 + full := by omega
      refine ⟨full + 1, s₁, Nat.succ_le_succ hle, htables.trans (tables_grow hgrow), ?_, ?_, ?_⟩
      · rw [hresizes, resizes_grow hgrow]
        omega
      · rw [htransactions, hlist, hnumber, List.replicate_succ, List.cons_append]
      · rw [htry, hnumber, Nat.add_sub_add_right]
        exact hsettles

/-- What a medium would answer behind the last transaction plays no part. -/
theorem tryWrite_congr {medium' : Medium} (haccepts : medium'.accepts = medium.accepts)
    {left attempt : Nat} {s : Store}
    (hanswer : ∀ number, number < (s.transactionsFrom medium unit left attempt).length →
      medium'.answer (attempt + number) = medium.answer (attempt + number)) :
    s.tryWrite medium' unit left attempt = s.tryWrite medium unit left attempt := by
  induction left generalizing attempt s with
  | zero => rfl
  | succ left ih =>
    have hgrow : s.grow medium' s.mapSize = s.grow medium s.mapSize := by
      rw [grow, grow, haccepts]
    have hfirst : medium'.answer attempt = medium.answer attempt :=
      hanswer 0 (Nat.succ_pos _)
    rw [tryWrite, tryWrite, hfirst, hgrow]
    rw [transactionsFrom] at hanswer
    unfold transaction at hanswer
    revert hanswer
    cases unit.attempt (fun number t ↦ medium.answer attempt number s.mapSize t) 0 false
        s.tables with
    | committed a stored tables => exact fun _ ↦ rfl
    | failed e => exact fun _ ↦ rfl
    | mapFull =>
      cases s.grow medium s.mapSize with
      | error e => exact fun _ ↦ rfl
      | ok s' =>
        intro hanswer
        apply ih
        intro number hnumber
        rw [Nat.add_assoc, Nat.add_comm 1]
        exact hanswer (number + 1) (Nat.succ_lt_succ hnumber)

/-! ## Whole writes -/

/-- Whatever the medium answers, a write runs its unit in at most ten transactions, of which all but
the last find the map full; answers for any others play no part. If it succeeds, the tables and the
result are those of a single run of the unit, and otherwise the tables are as they were. The write
fails as its last transaction does, at once and without another growth of the map; or that
transaction found the map full too, and the map has come to its limit, or cannot be larger, or the
transaction was the tenth. -/
theorem write_atomic (s : Store) (hmedium : medium.LeavesRoomAside) (hunit : unit.LeavesRoomAside) :
    ∃ (full : Nat) (last : Outcome α), full < 10 ∧
      s.transactions medium unit = List.replicate full .mapFull ++ [last] ∧
      (∀ medium' : Medium, medium'.accepts = medium.accepts →
        (∀ attempt ≤ full, medium'.answer attempt = medium.answer attempt) →
        s.write medium' unit = s.write medium unit) ∧
      match s.write medium unit with
      | (.ok a, s') =>
        (∃ stored, last = .committed a stored s'.tables) ∧ unit.run s.tables = .ok (a, s'.tables)
      | (.error e, s') => s'.tables = s.tables ∧
        (last = .failed e ∧ ¬ e.IsAboutRoom ∧ s'.resizes = s.resizes + full ∧
            (unit.run s.tables = .error e ∨ medium.FailsWith e) ∨
          last = .mapFull ∧
            (e = .full s'.mapSize ∧ (s'.exceedsLimit s'.grownSize = true ∨ full + 1 = 10) ∨
              e = .engine .outOfMemory ∧ medium.accepts s'.grownSize = false)) := by
  obtain ⟨full, s₁, hfull, htables, hresizes, htransactions, hsettles⟩ :=
    exists_last_transaction medium unit 9 0 s
  have hcount : (s.transactions medium unit).length = full + 1 := by
    rw [transactions, maxAttempts, htransactions, List.length_append, List.length_replicate]
    rfl
  refine ⟨full, _, Nat.lt_succ_of_le hfull, htransactions, fun medium' haccepts hanswer ↦ ?_, ?_⟩
  · apply tryWrite_congr haccepts
    intro number hnumber
    have hlt : number < full + 1 := by
      rw [← hcount]
      exact hnumber
    rw [Nat.zero_add]
    exact hanswer number (Nat.le_of_lt_succ hlt)
  change s₁.Settles medium (9 - full) _ (s.write medium unit) at hsettles
  generalize hend : s₁.transaction medium unit (0 + full) = last at hsettles ⊢
  cases hwrite : s.write medium unit with
  | mk result s' =>
    rw [hwrite] at hsettles
    cases hsettles with
    | committed a stored tables =>
      exact ⟨⟨stored, rfl⟩, tables_of_write_ok hwrite⟩
    | failed e =>
      have hreason : unit.run s.tables = .error e ∨ medium.FailsWith e := by
        rw [← htables]
        exact reason_of_transaction_failed hend
      have hroom : ¬ e.IsAboutRoom := hreason.elim hunit.not_isAboutRoom (hmedium e)
      exact ⟨htables, .inl ⟨rfl, hroom, hresizes, hreason⟩⟩
    | limited hlimit => exact ⟨htables, .inr ⟨rfl, .inl ⟨rfl, .inl hlimit⟩⟩⟩
    | unaccepted haccepts => exact ⟨htables, .inr ⟨rfl, .inr ⟨rfl, haccepts⟩⟩⟩
    | exhausted hleft hgrow =>
      refine ⟨(tables_grow hgrow).trans htables, .inr ⟨rfl, .inl ⟨rfl, .inr ?_⟩⟩⟩
      omega

end Store

/-- A medium on which the second operation of the first transaction and the commit of the second one
find the map full. -/
def Medium.fullTwice : Medium where
  answer attempt number _ _ :=
    if (attempt, number) ∈ [(0, 1), (1, 2)] then .mapFull else .fits
  accepts _ := true
  flush := .ok ()

def WriteUnit.addedAndSpent : WriteUnit Spent :=
  step (.addTxo Hash.zero ⟨⟨Hash.zero, 7⟩, none, 50, none⟩) fun _ ↦
    spend ⟨Hash.zero, 7⟩ ⟨Hash.zero, 3⟩

theorem Store.write_atomic_ofFullTwice :
    let s : Store := ⟨Tables.empty, 0, 0, .fresh 0, default⟩
    Medium.fullTwice.LeavesRoomAside ∧ WriteUnit.addedAndSpent.LeavesRoomAside ∧
      (s.transactions .fullTwice .addedAndSpent).length = 3 ∧
      ∃ s', s.write .fullTwice .addedAndSpent = (.ok .spent, s') ∧ s'.resizes = 2 ∧
        WriteUnit.addedAndSpent.run Tables.empty = .ok (.spent, s'.tables) := by
  intro s
  have hmedium : Medium.fullTwice.LeavesRoomAside := by
    intro e ⟨attempt, number, mapSize, t, hanswer⟩
    unfold Medium.fullTwice at hanswer
    dsimp only at hanswer
    split at hanswer
    · cases hanswer
    · cases hanswer
  have hunit : WriteUnit.addedAndSpent.LeavesRoomAside := fun _ _ ↦ trivial
  have hresult : (s.write .fullTwice .addedAndSpent).1 = .ok .spent := by decide +kernel
  have hwrite : s.write .fullTwice .addedAndSpent =
      (.ok .spent, (s.write .fullTwice .addedAndSpent).2) := by
    rw [← hresult]
  have hatomic := write_atomic s hmedium hunit
  rw [hwrite] at hatomic
  obtain ⟨full, last, -, -, -, -, hrun⟩ := hatomic
  exact ⟨hmedium, hunit, by decide +kernel, _, hwrite, by decide +kernel, hrun⟩

end TxoIndex

import TxoIndex.Proofs.Store.Attempts
import TxoIndex.Proofs.Store.History

/-!
# Independent units

An operation reads and changes one thing only: the row of an outpoint, the header of a block, or the
stage. That rows of several outpoints share the bucket of a script hash does not matter, for the
tables are known from the index that they represent.

So what a unit comes to depends on the things that it touches and on nothing else. If no two units
touch the same thing, each of them comes to what it would come to alone, in whatever order writers
take turns, and in the end every thing is as the one unit has left it that touches it. Only the room
in the map is shared: which of two units is refused can depend on who comes first.
-/

namespace TxoIndex

/-! ## What an operation touches -/

inductive Op.Key where
  | outpoint (o : Outpoint)
  | header (hash : BlockHash)
  | stage
  deriving DecidableEq

def Op.key : Op → Op.Key
  | putHeader hash _ => .header hash
  | addTxo _ txo => .outpoint txo.outpoint
  | spend prevout _ => .outpoint prevout
  | setStage _ => .stage

def Op.Key.Value : Op.Key → Type
  | outpoint _ => Option FundingRow
  | header _ => Option Header
  | stage => Option Stage

namespace Index

def value (m : Index) : (k : Op.Key) → k.Value
  | .outpoint o => m.rows o
  | .header hash => m.headers hash
  | .stage => m.stage

variable {m n : Index}

theorem eq_of_value (h : ∀ k, m.value k = n.value k) : m = n :=
  Index.ext (funext fun o ↦ h (.outpoint o)) (funext fun hash ↦ h (.header hash)) (h .stage)

/-- An operation changes what it is about and nothing else. -/
theorem value_exec_of_ne {op : Op} {k : Op.Key} (h : k ≠ op.key) :
    (m.exec op).2.value k = m.value k := by
  cases op with
  | putHeader hash header =>
    cases k with
    | header hash' => exact if_neg fun heq ↦ h (congrArg Op.Key.header heq)
    | outpoint | stage => rfl
  | addTxo scriptHash txo =>
    cases k with
    | outpoint o => exact if_neg fun heq ↦ h (congrArg Op.Key.outpoint heq)
    | header | stage => rfl
  | spend prevout spender =>
    cases k with
    | outpoint o => exact if_neg fun heq ↦ h (congrArg Op.Key.outpoint heq)
    | header | stage => rfl
  | setStage stage =>
    cases k with
    | stage => exact absurd rfl h
    | outpoint | header => rfl

/-- What an operation comes to depends on what it is about and on nothing else. -/
theorem exec_congr {op : Op} (h : m.value op.key = n.value op.key) :
    (m.exec op).1 = (n.exec op).1 ∧ (m.exec op).2.value op.key = (n.exec op).2.value op.key := by
  cases op with
  | putHeader hash header =>
    have hput (i : Index) : (i.putHeader hash header).headers hash = some header := if_pos rfl
    exact ⟨rfl, (hput m).trans (hput n).symm⟩
  | addTxo scriptHash txo =>
    have hrow : m.rows txo.outpoint = n.rows txo.outpoint := h
    have hadded : m.added txo = n.added txo := by simp only [added, hrow]
    have hrows : (m.addTxo scriptHash txo).rows txo.outpoint =
        (n.addTxo scriptHash txo).rows txo.outpoint := by simp only [addTxo, hrow]
    exact ⟨hadded, hrows⟩
  | spend prevout spender =>
    have hrow : m.rows prevout = n.rows prevout := h
    have hspent : m.spent prevout spender = n.spent prevout spender := by simp only [spent, hrow]
    have hrows : (m.spend prevout spender).rows prevout =
        (n.spend prevout spender).rows prevout := by simp only [spend, hrow]
    exact ⟨hspent, hrows⟩
  | setStage stage => exact ⟨rfl, rfl⟩

end Index

/-! ## What a unit touches -/

namespace WriteUnit

variable {α : Type}

/-- What the operations of a unit on tables are about. -/
def touches (unit : WriteUnit α) (t : Tables) : List Op.Key :=
  (unit.events t).map fun event ↦ event.op.key

def touchesOn : WriteUnit α → Index → List Op.Key
  | done _, _ | abort _, _ => []
  | step op next, m => op.key :: (next (m.exec op).1).touchesOn (m.exec op).2

/-- The result of a unit that has all the room it needs. -/
def result (unit : WriteUnit α) (t : Tables) : Except StoreError α :=
  (unit.run t).map Prod.fst

/-- An index behind a unit, which leaves it alone if it gives up. -/
def after (unit : WriteUnit α) (m : Index) : Index :=
  match unit.runOn m with
  | .ok (_, m') => m'
  | .error _ => m

variable {unit : WriteUnit α} {t : Tables} {m n : Index}

theorem touches_eq_touchesOn (h : t.Represents m) : unit.touches t = unit.touchesOn m := by
  induction unit generalizing t m with
  | done a => rfl
  | abort e => rfl
  | step op next ih =>
    obtain ⟨t', hexec, ht'⟩ := h.exec op
    unfold touches at ih ⊢
    rw [events, hexec, List.map_cons, ih _ ht', touchesOn]

theorem result_eq (h : t.Represents m) : unit.result t = (unit.runOn m).map Prod.fst := by
  unfold result
  cases hrun : unit.runOn m with
  | ok r =>
    obtain ⟨t', ht', -⟩ := h.run_of_runOn_ok hrun
    rw [ht']
    rfl
  | error e => rw [h.run_of_runOn_error hrun]; rfl

theorem represents_after (h : t.Represents m) {a : α} {t' : Tables}
    (hrun : unit.run t = .ok (a, t')) : t'.Represents (unit.after m) := by
  unfold after
  cases hrunOn : unit.runOn m with
  | ok r =>
    obtain ⟨t'', ht'', hrepresents⟩ := h.run_of_runOn_ok hrunOn
    rw [hrun, Except.ok.injEq, Prod.mk.injEq] at ht''
    rwa [ht''.2]
  | error e =>
    rw [h.run_of_runOn_error hrunOn] at hrun
    cases hrun

theorem after_of_result_error (h : t.Represents m) {e : StoreError}
    (hresult : unit.result t = .error e) : unit.after m = m := by
  rw [result_eq h] at hresult
  unfold after
  cases hrunOn : unit.runOn m with
  | ok r =>
    rw [hrunOn] at hresult
    cases hresult
  | error e => rfl

/-- A unit changes what it touches and nothing else. -/
theorem value_of_runOn {a : α} {m' : Index} (h : unit.runOn m = .ok (a, m')) {k : Op.Key}
    (hk : k ∉ unit.touchesOn m) : m'.value k = m.value k := by
  induction unit generalizing m with
  | done b =>
    rw [runOn, Except.ok.injEq, Prod.mk.injEq] at h
    rw [h.2]
  | abort e => cases h
  | step op next ih =>
    rw [touchesOn, List.mem_cons, not_or] at hk
    calc
      m'.value k = (m.exec op).2.value k := ih _ h hk.2
      _ = m.value k := Index.value_exec_of_ne hk.1

theorem value_after (hk : k ∉ unit.touchesOn m) : (unit.after m).value k = m.value k := by
  unfold after
  split
  · next h => exact value_of_runOn h hk
  · rfl

/-- What a unit comes to depends on what it touches and on nothing else. -/
theorem runOn_congr (h : ∀ k ∈ unit.touchesOn m, m.value k = n.value k) :
    unit.touchesOn n = unit.touchesOn m ∧
      (∀ a m', unit.runOn m = .ok (a, m') → ∃ n', unit.runOn n = .ok (a, n') ∧
        ∀ k ∈ unit.touchesOn m, m'.value k = n'.value k) ∧
      ∀ e, unit.runOn m = .error e → unit.runOn n = .error e := by
  induction unit generalizing m n with
  | done b =>
    refine ⟨rfl, fun a m' hrun ↦ ⟨n, ?_, fun k hk ↦ absurd hk List.not_mem_nil⟩, fun e hrun ↦ ?_⟩
    · cases hrun
      rfl
    · cases hrun
  | abort e => exact ⟨rfl, nofun, fun e' hrun ↦ hrun⟩
  | step op next ih =>
    simp only [touchesOn, List.forall_mem_cons] at h ⊢
    obtain ⟨hresult, hvalue⟩ := Index.exec_congr h.1
    have hrest : ∀ k ∈ (next (m.exec op).1).touchesOn (m.exec op).2,
        (m.exec op).2.value k = (n.exec op).2.value k := by
      intro k hk
      by_cases hop : k = op.key
      · rw [hop, hvalue]
      · rw [Index.value_exec_of_ne hop, Index.value_exec_of_ne hop, h.2 k hk]
    obtain ⟨htouches, hok, herror⟩ := ih _ hrest
    rw [runOn, runOn, ← hresult]
    refine ⟨by rw [htouches], fun a m' hrun ↦ ?_, herror⟩
    obtain ⟨n', hrun', hsame⟩ := hok a m' hrun
    refine ⟨n', hrun', ?_, hsame⟩
    by_cases hagain : op.key ∈ (next (m.exec op).1).touchesOn (m.exec op).2
    · exact hsame _ hagain
    · calc
        m'.value op.key = (m.exec op).2.value op.key := value_of_runOn hrun hagain
        _ = (n.exec op).2.value op.key := hvalue
        _ = n'.value op.key := (value_of_runOn hrun' (htouches ▸ hagain)).symm

/-- What a unit comes to, and how it leaves what it touches. -/
theorem after_congr (h : ∀ k ∈ unit.touchesOn m, m.value k = n.value k) :
    (unit.runOn n).map Prod.fst = (unit.runOn m).map Prod.fst ∧
      ∀ k ∈ unit.touchesOn m, (unit.after n).value k = (unit.after m).value k := by
  obtain ⟨-, hok, herror⟩ := runOn_congr h
  unfold after
  cases hrun : unit.runOn m with
  | ok r =>
    obtain ⟨n', hrun', hsame⟩ := hok r.1 r.2 hrun
    rw [hrun']
    exact ⟨rfl, fun k hk ↦ (hsame k hk).symm⟩
  | error e =>
    rw [herror e hrun]
    exact ⟨rfl, fun k hk ↦ (h k hk).symm⟩

end WriteUnit

/-! ## Writers that take turns -/

/-- What a write fails with where its unit would not: the map is full and may not grow, there cannot
be a larger map, or the medium fails. -/
def Medium.Refuses (medium : Medium) (e : StoreError) : Prop :=
  (∃ size, e = .full size) ∨ e = .engine .outOfMemory ∨ medium.FailsWith e

def Medium.HasRoom (medium : Medium) : Prop :=
  ∀ attempt number mapSize t, medium.answer attempt number mapSize t = .fits

namespace Store

structure Turn {ι : Type} (α : ι → Type) where
  writer : ι
  medium : Medium
  result : Except StoreError (α writer)

/-- Units written one after another, with what each write came to. -/
inductive Turns {ι : Type} {α : ι → Type} (units : (i : ι) → WriteUnit (α i)) :
    Store → List (Turn α) → Store → Prop where
  | nil (s : Store) : Turns units s [] s
  | cons {s s' : Store} {turns : List (Turn α)} (i : ι) (medium : Medium) :
    Turns units (s.write medium (units i)).2 turns s' →
      Turns units s (⟨i, medium, (s.write medium (units i)).1⟩ :: turns) s'

/-- A write comes to what its unit comes to, or it is refused. -/
theorem write_eq_result_or_refused {α : Type} (s : Store) (medium : Medium) (unit : WriteUnit α) :
    (s.write medium unit).1 = unit.result s.tables ∨
      ∃ e, (s.write medium unit).1 = .error e ∧ medium.Refuses e := by
  obtain ⟨full, s₁, -, htables, -, -, hsettles⟩ := s.exists_last_transaction medium unit 9 0
  change s₁.Settles medium _ _ (s.write medium unit) at hsettles
  generalize houtcome : s₁.transaction medium unit (0 + full) = outcome at hsettles
  generalize s.write medium unit = w at hsettles ⊢
  rw [← htables]
  cases hsettles with
  | committed a stored tables =>
    have hrun : unit.run s₁.tables = .ok (a, tables) := WriteUnit.run_of_attempt_committed houtcome
    left
    rw [WriteUnit.result, hrun]
    rfl
  | failed e =>
    obtain hrun | hmedium := reason_of_transaction_failed houtcome
    · left
      rw [WriteUnit.result, hrun]
      rfl
    · exact .inr ⟨e, rfl, .inr (.inr hmedium)⟩
  | limited => exact .inr ⟨_, rfl, .inl ⟨_, rfl⟩⟩
  | unaccepted => exact .inr ⟨_, rfl, .inr (.inl rfl)⟩
  | exhausted => exact .inr ⟨_, rfl, .inl ⟨_, rfl⟩⟩

/-- A unit that gives up gives up in its transaction if there is always room. -/
theorem attempt_of_run_error {α : Type} {unit : WriteUnit α} {answer : Nat → Tables → Answer}
    (hfits : ∀ number t, answer number t = .fits) {number : Nat} {stored : Bool} {t : Tables}
    {e : StoreError} (h : unit.run t = .error e) :
    unit.attempt answer number stored t = .failed e := by
  induction unit generalizing number stored t with
  | done a => cases h
  | abort e' =>
    cases h
    rfl
  | step op next ih =>
    unfold WriteUnit.run at h
    unfold WriteUnit.attempt
    split at h
    · cases h
      rfl
    · next r after hexec =>
      simp only [hfits]
      exact ih r h

/-- No unit is refused where there is room. -/
theorem write_eq_result_of_hasRoom {α : Type} (s : Store) {medium : Medium}
    (hroom : medium.HasRoom) (unit : WriteUnit α) :
    (s.write medium unit).1 = unit.result s.tables := by
  unfold WriteUnit.result
  cases hrun : unit.run s.tables with
  | ok r =>
    obtain ⟨s', hwrite⟩ := write_of_fits hroom hrun
    rw [hwrite]
    rfl
  | error e =>
    rw [write, maxAttempts, tryWrite, attempt_of_run_error (hroom 0 · s.mapSize ·) hrun]
    rfl

/-- The tables behind a write: those that its unit leaves, or those from before. -/
theorem represents_write {α : Type} {s : Store} {m : Index} (h : s.tables.Represents m)
    (medium : Medium) (unit : WriteUnit α) :
    ((s.write medium unit).1 = unit.result s.tables →
      (s.write medium unit).2.tables.Represents (unit.after m)) ∧
    ((s.write medium unit).1 ≠ unit.result s.tables →
      (s.write medium unit).2.tables.Represents m) := by
  cases hwrite : s.write medium unit with
  | mk result s' =>
    cases result with
    | ok a =>
      have hrun := tables_of_write_ok hwrite
      have hresult : unit.result s.tables = .ok a := by
        rw [WriteUnit.result, hrun]
        rfl
      exact ⟨fun _ ↦ WriteUnit.represents_after h hrun, fun hne ↦ absurd hresult.symm hne⟩
    | error e =>
      rw [tables_of_write_error hwrite]
      refine ⟨fun hresult ↦ ?_, fun _ ↦ h⟩
      rwa [WriteUnit.after_of_result_error h hresult.symm]

/-! ## The end of all turns -/

section Turns

variable {ι : Type} {α : ι → Type} {units : (i : ι) → WriteUnit (α i)} {s s' : Store}
  {turns : List (Turn α)}

/-- Whether the writer's unit comes to what it would come to alone on the given tables. -/
def Served (units : (i : ι) → WriteUnit (α i)) (t : Tables) (turns : List (Turn α)) (i : ι) :
    Prop :=
  ∃ turn ∈ turns, turn.writer = i ∧ turn.result = (units turn.writer).result t

theorem served_cons {t : Tables} {turn : Turn α} {i : ι} :
    Served units t (turn :: turns) i ↔
      (turn.writer = i ∧ turn.result = (units turn.writer).result t) ∨ Served units t turns i := by
  simp only [Served, List.mem_cons, or_and_right, exists_or, exists_eq_left]

theorem served_iff_mem {t : Tables} (h : ∀ turn ∈ turns, turn.result = (units turn.writer).result t)
    (i : ι) : Served units t turns i ↔ i ∈ turns.map Turn.writer := by
  rw [List.mem_map]
  exact exists_congr fun turn ↦ and_congr_right fun hturn ↦ and_iff_left (h turn hturn)

/-- Behind all turns everything is as the one unit has left it that has touched it. -/
theorem Turns.exists_index (h : Turns units s turns s') {t : Tables} {m m₀ : Index}
    (ht : t.Represents m₀) (hm : s.tables.Represents m)
    (hnodup : (turns.map Turn.writer).Nodup)
    (hdisjoint : ∀ i j, i ≠ j → ∀ k ∈ (units i).touchesOn m₀, k ∉ (units j).touchesOn m₀)
    (hsame : ∀ turn ∈ turns, ∀ k ∈ (units turn.writer).touchesOn m₀, m.value k = m₀.value k) :
    (∀ turn ∈ turns, (turn.result = (units turn.writer).result t ∨
        ∃ e, turn.result = .error e ∧ turn.medium.Refuses e) ∧
      (turn.medium.HasRoom → turn.result = (units turn.writer).result t)) ∧
    ∃ m', s'.tables.Represents m' ∧
      (∀ k, (∀ i, Served units t turns i → k ∉ (units i).touchesOn m₀) → m'.value k = m.value k) ∧
      ∀ i, Served units t turns i → ∀ k ∈ (units i).touchesOn m₀,
        m'.value k = ((units i).after m₀).value k := by
  induction h generalizing m with
  | nil s =>
    refine ⟨fun turn hturn ↦ absurd hturn List.not_mem_nil, m, hm, fun k _ ↦ rfl, ?_⟩
    rintro i ⟨turn, hturn, -⟩
    exact absurd hturn List.not_mem_nil
  | @cons s s' turns i medium _ ih =>
    rw [List.map_cons, List.nodup_cons] at hnodup
    rw [List.forall_mem_cons] at hsame
    have hothers : ∀ turn ∈ turns, i ≠ turn.writer := by
      intro turn hturn heq
      have hwriter : turn.writer ∈ turns.map Turn.writer := List.mem_map_of_mem hturn
      exact hnodup.1 (heq ▸ hwriter)
    -- The unit finds what it touches as it was before all turns.
    have hfound : ∀ k ∈ (units i).touchesOn m₀, m₀.value k = m.value k :=
      fun k hk ↦ (hsame.1 k hk).symm
    obtain ⟨hresults, hafter⟩ := WriteUnit.after_congr hfound
    obtain ⟨htouches, -⟩ := WriteUnit.runOn_congr hfound
    have hresult : (units i).result s.tables = (units i).result t := by
      rw [WriteUnit.result_eq hm, WriteUnit.result_eq ht, hresults]
    obtain ⟨hcommitted, hkept⟩ := represents_write hm medium (units i)
    by_cases hserved : (s.write medium (units i)).1 = (units i).result s.tables
    · have hkeeps : ∀ turn ∈ turns, ∀ k ∈ (units turn.writer).touchesOn m₀,
          ((units i).after m).value k = m₀.value k := by
        intro turn hturn k hk
        have hk' : k ∉ (units i).touchesOn m :=
          htouches ▸ hdisjoint _ _ (hothers turn hturn).symm k hk
        rw [WriteUnit.value_after hk', hsame.2 turn hturn k hk]
      obtain ⟨hturns, m', hm', huntouched, htouched⟩ :=
        ih (hcommitted hserved) hnodup.2 hkeeps
      refine ⟨List.forall_mem_cons.2 ⟨⟨.inl (hserved.trans hresult), fun _ ↦ hserved.trans hresult⟩,
        hturns⟩, m', hm', ?_, ?_⟩
      · intro k hk
        have hk' : k ∉ (units i).touchesOn m :=
          htouches ▸ hk i (served_cons.2 (.inl ⟨rfl, hserved.trans hresult⟩))
        rw [huntouched k fun j hj ↦ hk j (served_cons.2 (.inr hj)), WriteUnit.value_after hk']
      · intro j hj k hk
        obtain ⟨rfl, -⟩ | hj := served_cons.1 hj
        · rw [huntouched k, hafter k hk]
          rintro j ⟨turn, hturn, rfl, -⟩
          exact hdisjoint _ _ (hothers turn hturn) k hk
        · exact htouched j hj k hk
    · obtain ⟨hturns, m', hm', huntouched, htouched⟩ := ih (hkept hserved) hnodup.2 hsame.2
      have hnot (j : ι) : Served units t (⟨i, medium, (s.write medium (units i)).1⟩ :: turns) j ↔
          Served units t turns j := by
        rw [served_cons, or_iff_right]
        exact fun hhead ↦ hserved (hhead.2.trans hresult.symm)
      have hrefused := (s.write_eq_result_or_refused medium (units i)).resolve_left hserved
      have hroom : ¬ medium.HasRoom :=
        fun hroom ↦ hserved (s.write_eq_result_of_hasRoom hroom (units i))
      simp only [hnot]
      exact ⟨List.forall_mem_cons.2 ⟨⟨.inr hrefused, fun h ↦ absurd h hroom⟩, hturns⟩, m', hm',
        huntouched, htouched⟩

end Turns

end Store

/-! ## Agreement -/

namespace Tables

/-- Whether two states of the tables say the same about something. -/
def Agree (t t' : Tables) : Op.Key → Prop
  | .outpoint o => t.scriptHashOf? o = t'.scriptHashOf? o ∧
      ∀ scriptHash txo, txo.outpoint = o → (t.Lists scriptHash txo ↔ t'.Lists scriptHash txo)
  | .header hash => t.header? hash = t'.header? hash
  | .stage => t.stage = t'.stage

theorem Represents.agree {t t' : Tables} {m m' : Index} (h : t.Represents m)
    (h' : t'.Represents m') {k : Op.Key} (hvalue : m.value k = m'.value k) : t.Agree t' k := by
  cases k with
  | outpoint o =>
    have hrow : m.rows o = m'.rows o := hvalue
    refine ⟨by rw [h.scriptHashOf?_eq, h'.scriptHashOf?_eq, hrow], ?_⟩
    rintro scriptHash txo rfl
    rw [h.lists_iff, h'.lists_iff, hrow]
  | header hash =>
    have hheader : m.headers hash = m'.headers hash := hvalue
    change t.header? hash = t'.header? hash
    rw [h.header?_eq, h'.header?_eq, hheader]
  | stage =>
    have hstage : m.stage = m'.stage := hvalue
    change t.stage = t'.stage
    rw [h.stage_eq, h'.stage_eq, hstage]

end Tables

/-- Writers of units that touch different things take turns in two orders. Every unit comes to what
it would come to alone, unless it is refused. What a unit touches is in the end as that unit alone
would leave it, which is as before if it gives up, and everything else is as before. So both orders
end in the same tables if the same units are refused. -/
theorem Store.Turns.agree_of_disjoint {ι : Type} {α : ι → Type} {units : (i : ι) → WriteUnit (α i)}
    {s s₁ s₂ : Store} {turns₁ turns₂ : List (Turn α)} (hreachable : s.Reachable)
    (hdisjoint : ∀ i j, i ≠ j →
      ((units i).touches s.tables).Disjoint ((units j).touches s.tables))
    (h₁ : Turns units s turns₁ s₁) (h₂ : Turns units s turns₂ s₂)
    (hnodup : (turns₁.map Turn.writer).Nodup)
    (hperm : (turns₁.map Turn.writer).Perm (turns₂.map Turn.writer)) :
    (∀ turn ∈ turns₁, (turn.result = (units turn.writer).result s.tables ∨
        ∃ e, turn.result = .error e ∧ turn.medium.Refuses e) ∧
      (turn.medium.HasRoom → turn.result = (units turn.writer).result s.tables)) ∧
    (∀ i, Served units s.tables turns₁ i → ∀ a t, (units i).run s.tables = .ok (a, t) →
      ∀ k ∈ (units i).touches s.tables, s₁.tables.Agree t k) ∧
    (∀ i, Served units s.tables turns₁ i → ∀ e, (units i).run s.tables = .error e →
      ∀ k ∈ (units i).touches s.tables, s₁.tables.Agree s.tables k) ∧
    (∀ k, (∀ i, Served units s.tables turns₁ i → k ∉ (units i).touches s.tables) →
      s₁.tables.Agree s.tables k) ∧
    ((∀ i, Served units s.tables turns₁ i ↔ Served units s.tables turns₂ i) →
      s₁.tables = s₂.tables) := by
  obtain ⟨m, hm⟩ := hreachable.represents
  have hkeys (i : ι) : (units i).touches s.tables = (units i).touchesOn m :=
    WriteUnit.touches_eq_touchesOn hm
  simp only [hkeys] at hdisjoint ⊢
  have hapart : ∀ i j, i ≠ j → ∀ k ∈ (units i).touchesOn m, k ∉ (units j).touchesOn m :=
    fun i j hne k hi hj ↦ hdisjoint i j hne hi hj
  obtain ⟨hresults, m₁, hm₁, huntouched₁, htouched₁⟩ :=
    h₁.exists_index hm hm hnodup hapart fun _ _ _ _ ↦ rfl
  obtain ⟨-, m₂, hm₂, huntouched₂, htouched₂⟩ :=
    h₂.exists_index hm hm (hperm.nodup_iff.1 hnodup) hapart fun _ _ _ _ ↦ rfl
  refine ⟨hresults, ?_, ?_, ?_, ?_⟩
  · intro i hi a t hrun k hk
    exact hm₁.agree (WriteUnit.represents_after hm hrun) (htouched₁ i hi k hk)
  · intro i hi e hrun k hk
    have hresult : (units i).result s.tables = .error e := by
      rw [WriteUnit.result, hrun]
      rfl
    apply hm₁.agree hm
    rw [htouched₁ i hi k hk, WriteUnit.after_of_result_error hm hresult]
  · intro k hk
    exact hm₁.agree hm (huntouched₁ k hk)
  · intro hserved
    have hsame : m₁ = m₂ := by
      apply Index.eq_of_value
      intro k
      by_cases hk : ∃ i, Served units s.tables turns₁ i ∧ k ∈ (units i).touchesOn m
      · obtain ⟨i, hi, hk⟩ := hk
        rw [htouched₁ i hi k hk, htouched₂ i ((hserved i).1 hi) k hk]
      · simp only [not_exists, not_and] at hk
        rw [huntouched₁ k hk, huntouched₂ k fun i hi ↦ hk i ((hserved i).2 hi)]
    exact hm₁.unique (hsame ▸ hm₂)

/-- Two units that each add an output to the same bucket and spend it, in both orders. -/
theorem Store.Turns.agree_ofSharedBucket :
    let txo (first : Bool) : Txo := ⟨⟨Hash.zero, if first then 1 else 2⟩, some 5, 50, none⟩
    let units (first : Bool) : WriteUnit Spent := do
      let _ ← WriteUnit.addTxo Hash.zero (txo first)
      WriteUnit.spend (txo first).outpoint ⟨Hash.zero, 3⟩
    let s : Store := ⟨Tables.empty, 0, 0, .fresh 0, default⟩
    let s₁ := ((s.write .boundless (units true)).2.write .boundless (units false)).2
    let s₂ := ((s.write .boundless (units false)).2.write .boundless (units true)).2
    ∃ turns₁ turns₂, Turns units s turns₁ s₁ ∧ Turns units s turns₂ s₂ ∧
      (∀ first, Served units s.tables turns₁ first ∧ Served units s.tables turns₂ first) ∧
      s₁.tables = s₂.tables ∧
      ∀ first, s₁.tables.scriptHashOf? (txo first).outpoint = .ok (some Hash.zero) := by
  intro txo units s s₁ s₂
  have hreachable : s.Reachable := .fresh rfl
  have htouches (first : Bool) : (units first).touches s.tables =
      List.replicate 2 (.outpoint (txo first).outpoint) := by
    cases first <;> decide +kernel
  have hdisjoint : ∀ i j, i ≠ j →
      ((units i).touches s.tables).Disjoint ((units j).touches s.tables) := by
    intro i j hne k hi hj
    rw [htouches] at hi hj
    have hsame := (List.eq_of_mem_replicate hi).symm.trans (List.eq_of_mem_replicate hj)
    clear hi hj
    revert i j
    decide +kernel
  have hroom : Medium.boundless.HasRoom := fun _ _ _ _ ↦ rfl
  obtain ⟨turns₁, h₁, hwriters₁, hroom₁⟩ : ∃ turns, Turns units s turns s₁ ∧
      turns.map Turn.writer = [true, false] ∧ ∀ turn ∈ turns, turn.medium.HasRoom :=
    ⟨_, .cons true .boundless (.cons false .boundless (.nil s₁)), rfl, by simp [hroom]⟩
  obtain ⟨turns₂, h₂, hwriters₂, hroom₂⟩ : ∃ turns, Turns units s turns s₂ ∧
      turns.map Turn.writer = [false, true] ∧ ∀ turn ∈ turns, turn.medium.HasRoom :=
    ⟨_, .cons false .boundless (.cons true .boundless (.nil s₂)), rfl, by simp [hroom]⟩
  have hperm : (turns₁.map Turn.writer).Perm (turns₂.map Turn.writer) := by
    rw [hwriters₁, hwriters₂]
    exact .swap _ _ _
  have hnodup : (turns₁.map Turn.writer).Nodup := by
    rw [hwriters₁]
    decide
  obtain ⟨hresults₁, htouched₁, -, -, hsame⟩ :=
    agree_of_disjoint hreachable hdisjoint h₁ h₂ hnodup hperm
  obtain ⟨hresults₂, -⟩ :=
    agree_of_disjoint hreachable hdisjoint h₂ h₁ (hperm.nodup_iff.1 hnodup) hperm.symm
  have hserved₁ (first : Bool) : Served units s.tables turns₁ first := by
    rw [served_iff_mem fun turn hturn ↦ (hresults₁ turn hturn).2 (hroom₁ turn hturn), hwriters₁]
    cases first <;> decide
  have hserved₂ (first : Bool) : Served units s.tables turns₂ first := by
    rw [served_iff_mem fun turn hturn ↦ (hresults₂ turn hturn).2 (hroom₂ turn hturn), hwriters₂]
    cases first <;> decide
  refine ⟨turns₁, turns₂, h₁, h₂, fun first ↦ ⟨hserved₁ first, hserved₂ first⟩,
    hsame fun first ↦ ⟨fun _ ↦ hserved₂ first, fun _ ↦ hserved₁ first⟩, fun first ↦ ?_⟩
  have hkey : .outpoint (txo first).outpoint ∈ (units first).touches s.tables := by
    rw [htouches]
    exact .head _
  have halone : (match (units first).run s.tables with
      | .ok (_, t) => decide (t.scriptHashOf? (txo first).outpoint = .ok (some Hash.zero))
      | .error _ => false) = true := by
    cases first <;> decide +kernel
  split at halone
  · next a t hrun =>
    exact (htouched₁ first (hserved₁ first) a t hrun _ hkey).1.trans (of_decide_eq_true halone)
  · cases halone

/-- In a map that has room for two pages, the second of two units is refused, whichever it is. -/
theorem Store.refused_ofTwoPages :
    let s : Store := ⟨Tables.empty, 45056, 0, ((Ground.fresh 45056).makeTables 45056).2,
      ⟨45056, 0, some 45056, false⟩⟩
    let output : WriteUnit Added := .addTxo Hash.zero ⟨⟨Hash.zero, 1⟩, some 5, 50, none⟩
    let header : WriteUnit Unit := .putHeader Hash.zero ⟨1, Hash.zero, Hash.zero, 2, 3, 4⟩
    let behindOutput := (s.write s.counting output).2
    let behindHeader := (s.write s.counting header).2
    s.Reachable ∧ (output.touches s.tables).Disjoint (header.touches s.tables) ∧
      (s.write s.counting output).1 = .ok .new ∧ (s.write s.counting header).1 = .ok () ∧
      (behindOutput.write behindOutput.counting header).1 = .error (.full 45056) ∧
      (behindHeader.write behindHeader.counting output).1 = .error (.full 45056) ∧
      (behindOutput.write behindOutput.counting header).2.tables ≠
        (behindHeader.write behindHeader.counting output).2.tables := by
  intro s output header behindOutput behindHeader
  refine ⟨.fresh rfl, List.disjoint_singleton.2 (by decide +kernel), by decide +kernel,
    by decide +kernel, by decide +kernel, by decide +kernel, fun hsame ↦ ?_⟩
  have hcount := congrArg Tables.txoCount hsame
  revert hcount
  decide +kernel

end TxoIndex

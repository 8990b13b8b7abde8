import Mathlib.Data.List.Sort
import TxoIndex.Electrum
import TxoIndex.Proofs.Store.Ledger

/-!
# Balances

A balance is computed from the records that a script hash has at the time, but it is known from the
history alone: it is what the events have put under the script hash without a spender, less what
other events have marked as spent among that. Everything else that a history may hold leaves the
balance alone, and so does a unit that is not committed.

The server answers with the same sum. It lists one entry for every unspent output, and the values of
the entries add up to the balance, unless the sum takes more than sixty-four bits.
-/

namespace TxoIndex

/-! ## What a history owes -/

/-- The outputs that events have put under a script hash without a spender. -/
def txosReceived (scriptHash : ScriptHash) (events : List Event) : List Txo :=
  (txosCreated scriptHash events).filter fun txo ↦ !txo.isSpent

/-- Those of them that an input has marked as spent. -/
def txosGone (scriptHash : ScriptHash) (events : List Event) : List Txo :=
  (txosReceived scriptHash events).filter fun txo ↦ spendersSet txo.outpoint events ≠ []

def txosLeft (scriptHash : ScriptHash) (events : List Event) : List Txo :=
  (txosReceived scriptHash events).filter fun txo ↦ spendersSet txo.outpoint events = []

namespace Query

theorem total_eq_sum (txos : List Txo) : total txos = (txos.map fun txo ↦ txo.value.toNat).sum := by
  induction txos with
  | nil => rfl
  | cons txo txos ih => rw [total, ih, List.map_cons, List.sum_cons]

theorem total_eq_of_perm {txos txos' : List Txo} (h : txos.Perm txos') :
    total txos = total txos' := by
  rw [total_eq_sum, total_eq_sum, (h.map _).sum_nat]

theorem total_filter_add_total_filter_not (txos : List Txo) (p : Txo → Bool) :
    total (txos.filter p) + total (txos.filter (!p ·)) = total txos := by
  induction txos with
  | nil => rfl
  | cons txo txos ih =>
    cases hp : p txo <;> simp only [List.filter_cons, hp, total] <;> simp [total] <;> omega

theorem total_gone_add_total_left (scriptHash : ScriptHash) (events : List Event) :
    total (txosGone scriptHash events) + total (txosLeft scriptHash events) =
      total (txosReceived scriptHash events) := by
  have hleft : txosLeft scriptHash events = (txosReceived scriptHash events).filter fun txo ↦
      !decide (spendersSet txo.outpoint events ≠ []) := by
    unfold txosLeft
    simp only [ne_eq, decide_not, Bool.not_not]
  rw [hleft]
  exact total_filter_add_total_filter_not _ _

/-- An output is unspent after events if it was created so and none of them has spent it. -/
theorem filter_after (scriptHash : ScriptHash) (events : List Event) :
    ((txosCreated scriptHash events).map (Txo.after · events)).filter (fun txo ↦ !txo.isSpent) =
      txosLeft scriptHash events := by
  unfold txosLeft txosReceived
  induction txosCreated scriptHash events with
  | nil => rfl
  | cons txo txos ih =>
    rw [List.map_cons, List.filter_cons, ih, List.filter_filter, List.filter_filter,
      List.filter_cons]
    cases hspent : txo.spentBy with
    | some spender => simp [Txo.isSpent, Txo.after, hspent]
    | none =>
      cases hset : spendersSet txo.outpoint events with
      | cons spender spenders => simp [Txo.isSpent, Txo.after, hspent, hset]
      | nil =>
        have hsame : txo.after events = txo := by
          rw [Txo.after, hset, List.head?_nil, Option.or_none]
        simp [Txo.isSpent, hsame, hspent]

/-- What is unspent under a script hash is what the events have left there. -/
theorem exists_unspent {t : Tables} {events : List Event} (h : Op.Path Tables.empty events t)
    (scriptHash : ScriptHash) :
    ∃ txos, unspent t scriptHash = .ok txos ∧ txos.Perm (txosLeft scriptHash events) ∧
      (txos.map Txo.outpoint).Nodup ∧
      ∀ txo, txo ∈ txos ↔ t.Lists scriptHash txo ∧ txo.isSpent = false := by
  obtain ⟨hnodup, txos, htxos, hperm⟩ := h.exists_perm scriptHash
  have hsorted := List.mergeSort_perm txos precedes
  have hlisted : (listed txos).getD [] = txos := by
    cases txos <;> rfl
  refine ⟨(txos.mergeSort precedes).filter (!·.isSpent), ?_, ?_, ?_, ?_⟩
  · simp only [unspent, history, txos?, htxos]
    change Except.ok _ = _
    rw [hlisted]
  · rw [← filter_after]
    exact (hsorted.trans hperm).filter _
  · apply (List.filter_sublist.map _).nodup
    rw [((hsorted.trans hperm).map _).nodup_iff, List.map_map]
    exact hnodup
  · intro txo
    rw [List.mem_filter, hsorted.mem_iff, Bool.not_eq_true', Tables.Lists, htxos]
    apply and_congr_left'
    cases txos <;> simp [listed]

theorem balance_eq {t : Tables} {scriptHash : ScriptHash} {txos : List Txo}
    (h : unspent t scriptHash = .ok txos) :
    balance t scriptHash =
      if total txos < UInt64.size then .ok (total txos) else .error .overflow := by
  unfold balance
  rw [h]
  rfl

end Query

/-! ## What leaves a balance alone -/

/-- Whether an operation that is told this leaves the outputs under a script hash alone: it is about
an output of another one, or it is told that nothing is new. -/
def Event.Spares (scriptHash : ScriptHash) (t : Tables) : Event → Prop
  | ⟨.putHeader .., _⟩ | ⟨.setStage _, _⟩ => True
  | ⟨.addTxo scriptHash' _, result⟩ => scriptHash' ≠ scriptHash ∨ result ≠ Added.new
  | ⟨.spend prevout _, result⟩ =>
    t.scriptHashOf? prevout ≠ .ok (some scriptHash) ∨ result ≠ Spent.spent

namespace Index

variable {m : Index} {t : Tables} {scriptHash : ScriptHash} {op : Op}

/-- An operation that leaves the outputs under a script hash alone creates none there. -/
theorem scriptHash_row?_of_spares (h : (m.event op).Spares scriptHash t) {row : FundingRow}
    (hrow : (m.event op).row? = some row) : row.scriptHash ≠ scriptHash := by
  cases op with
  | putHeader hash header => cases hrow
  | spend prevout spender => cases hrow
  | setStage stage => cases hrow
  | addTxo scriptHash' txo =>
    have hadded : (m.added txo).row? scriptHash' txo = some row := hrow
    have hspares : scriptHash' ≠ scriptHash ∨ m.added txo ≠ .new := h
    unfold Added.row? at hadded
    split at hadded
    · next hnew =>
      obtain rfl := Option.some.inj hadded
      exact hspares.resolve_right (· hnew)
    · cases hadded

/-- Nor does it set a spender there. -/
theorem spender?_of_spares (ht : t.Represents m) (h : (m.event op).Spares scriptHash t)
    {o : Outpoint} {txo : Txo} (hrow : m.rows o = some ⟨scriptHash, txo⟩) :
    (m.event op).spender? o = none := by
  cases op with
  | putHeader hash header => rfl
  | addTxo scriptHash txo => rfl
  | setStage stage => rfl
  | spend prevout spender =>
    change (if prevout = o then (m.spent prevout spender).spender? spender else none) = none
    have hspares : t.scriptHashOf? prevout ≠ .ok (some scriptHash) ∨
        m.spent prevout spender ≠ .spent := h
    rw [ht.scriptHashOf?_eq] at hspares
    split
    · next heq =>
      rw [heq, hrow, Option.map_some] at hspares
      have hresult : m.spent o spender ≠ .spent := hspares.resolve_left (· rfl)
      rw [heq, Spent.spender?, if_neg (fun hspent ↦ hresult hspent.1)]
    · rfl

/-- So the rows there stay as they are. -/
theorem rows_exec_of_spares (ht : t.Represents m) (h : (m.event op).Spares scriptHash t)
    (o : Outpoint) (txo : Txo) :
    m.rows o = some ⟨scriptHash, txo⟩ ↔ (m.exec op).2.rows o = some ⟨scriptHash, txo⟩ := by
  rw [rows_exec]
  cases hrow : m.rows o with
  | some row =>
    rw [Option.some_or, Option.map_some]
    by_cases hscript : row.scriptHash = scriptHash
    · subst hscript
      have hnil : spendersSet o [m.event op] = [] := by
        rw [spendersSet_cons, spender?_of_spares ht h hrow]
        rfl
      rw [hnil, FundingRow.spendByAll_nil]
    · have hother : row ≠ ⟨scriptHash, txo⟩ := mt (congrArg FundingRow.scriptHash) hscript
      have hother' : row.spendByAll (spendersSet o [m.event op]) ≠ ⟨scriptHash, txo⟩ :=
        mt (congrArg FundingRow.scriptHash) hscript
      rw [Option.some.injEq, Option.some.injEq, iff_false_intro hother, iff_false_intro hother']
  | none =>
    rw [Option.none_or, Option.map_eq_some_iff]
    refine ⟨fun hsome ↦ absurd hsome (Option.some_ne_none _).symm, ?_⟩
    rintro ⟨row, hcreated, hafter⟩
    rw [rowCreated?_singleton, Option.filter_eq_some_iff] at hcreated
    have hscript := scriptHash_row?_of_spares h hcreated.1
    exact absurd (congrArg FundingRow.scriptHash hafter) hscript

end Index

/-- An operation that leaves the outputs under a script hash alone leaves its balance alone. -/
theorem Op.Path.balance_of_spares {t t' : Tables} {events : List Event}
    (h : Op.Path Tables.empty events t) {scriptHash : ScriptHash} {op : Op} {r : op.Result}
    (hexec : op.exec t = .ok (r, t')) (hspares : Event.Spares scriptHash t ⟨op, r⟩) :
    Query.balance t' scriptHash = Query.balance t scriptHash := by
  obtain ⟨m, hm, -⟩ := h.exists_index Tables.Represents.empty
  obtain ⟨rfl, hm'⟩ := hm.of_exec hexec
  have hsame := hm.txos?_congr hm' (Index.rows_exec_of_spares hm hspares)
  simp only [Query.balance, Query.unspent, Query.history, Query.txos?, hsame]

/-! ## Answers -/

def Json.natural? (key : String) (answer : Json) : Option Nat :=
  match answer.field? key with
  | some (.number (.integer (.ofNat n))) => some n
  | _ => none

namespace Electrum

theorem natural?_balanceJson (confirmed : Nat) :
    (balanceJson confirmed).natural? "confirmed" = some confirmed := by
  rfl

theorem natural?_unspentJson (txo : Txo) :
    (unspentJson txo).natural? "value" = some txo.value.toNat := by
  rfl

theorem mapM_natural?_unspentJson (txos : List Txo) :
    (txos.map unspentJson).mapM (Json.natural? "value") =
      some (txos.map fun txo ↦ txo.value.toNat) := by
  induction txos with
  | nil => rfl
  | cons txo txos ih =>
    rw [List.map_cons, List.mapM_cons, natural?_unspentJson, ih]
    rfl

variable {t : Tables} {scriptHash : ScriptHash} {text : String}

theorem ask_text (method : Method) (htext : Query.parseScriptHash text = .ok scriptHash)
    (params : List Json) (query : ScriptHash → Except QueryError Json) :
    ask method (.string text :: params) query = (query scriptHash).mapError CallError.query := by
  have hparam : scriptHashParam method (.string text :: params) = .ok scriptHash := by
    rw [scriptHashParam, htext]
  cases hquery : query scriptHash with
  | ok answer =>
    simp only [ask, hparam, bind, Except.bind, hquery]
    rfl
  | error e =>
    simp only [ask, hparam, bind, Except.bind, hquery]
    rfl

theorem call_getBalance (network : Network) (htext : Query.parseScriptHash text = .ok scriptHash)
    (params : List Json) {txos : List Txo} (htxos : Query.unspent t scriptHash = .ok txos) :
    call t network .scriptHashGetBalance (.string text :: params) =
      if Query.total txos < UInt64.size then .ok (balanceJson (Query.total txos))
      else .error (.query .overflow) := by
  simp only [call, ask_text _ htext, Query.balance_eq htxos]
  split <;> rfl

theorem call_listUnspent (network : Network) (htext : Query.parseScriptHash text = .ok scriptHash)
    (params : List Json) {txos : List Txo} (htxos : Query.unspent t scriptHash = .ok txos)
    {method : Method} (hmethod : method ∈ [.scriptHashListUnspent, .scriptHashUtxos]) :
    call t network method (.string text :: params) = .ok (.array (txos.map unspentJson)) := by
  simp only [List.mem_cons, List.not_mem_nil, or_false] at hmethod
  rcases hmethod with rfl | rfl <;> simp only [call, ask_text _ htext, htxos] <;> rfl

end Electrum

/-! ## Conservation -/

/-- The balance of a script hash is what a history from empty tables on has put under it without a
spender, less what it has marked as spent among that, and there is none if this takes more than
sixty-four bits. Nothing else changes it, and the server answers with it and with its parts. -/
theorem Store.History.balance_eq_received_sub_gone {s₀ s : Store} {log : List Event}
    (hempty : s₀.tables = Tables.empty) (hlog : s₀.History log s) (scriptHash : ScriptHash) :
    let received := Query.total (txosReceived scriptHash log)
    let gone := Query.total (txosGone scriptHash log)
    gone ≤ received ∧
      Query.balance s.tables scriptHash =
        (if received - gone < UInt64.size then .ok (received - gone) else .error .overflow) ∧
      (∀ (view : List Event) (t t' : Tables) (op : Op) (r : op.Result),
        Op.Path s.tables view t → op.exec t = .ok (r, t') → Event.Spares scriptHash t ⟨op, r⟩ →
          Query.balance t' scriptHash = Query.balance t scriptHash) ∧
      (∀ (medium : Medium) {α : Type} (unit : WriteUnit α) (e : StoreError) (s' : Store),
        s.write medium unit = (.error e, s') →
          Query.balance s'.tables scriptHash = Query.balance s.tables scriptHash) ∧
      ∀ (network : Network) (text : String) (params : List Json),
        Query.parseScriptHash text = .ok scriptHash →
          ∃ (txos : List Txo) (values : List Nat),
          (∀ method ∈ [.scriptHashListUnspent, .scriptHashUtxos],
            Electrum.call s.tables network method (.string text :: params) =
              .ok (.array (txos.map Electrum.unspentJson))) ∧
          txos.Perm (txosLeft scriptHash log) ∧ (txos.map Txo.outpoint).Nodup ∧
          (∀ txo, txo ∈ txos ↔ s.tables.Lists scriptHash txo ∧ txo.isSpent = false) ∧
          (txos.map Electrum.unspentJson).mapM (Json.natural? "value") = some values ∧
          match Electrum.call s.tables network .scriptHashGetBalance (.string text :: params) with
          | .ok answer => answer.natural? "confirmed" = some values.sum
          | .error e => e = .query .overflow ∧ UInt64.size ≤ values.sum := by
  have hpath : Op.Path Tables.empty log s.tables := hempty ▸ hlog.path
  obtain ⟨txos, hunspent, hperm, hnodup, hmem⟩ := Query.exists_unspent hpath scriptHash
  have hsplit := Query.total_gone_add_total_left scriptHash log
  have htotal : Query.total txos = Query.total (txosReceived scriptHash log) -
      Query.total (txosGone scriptHash log) := by
    rw [Query.total_eq_of_perm hperm]
    omega
  refine ⟨by omega, ?_, ?_, ?_, ?_⟩
  · rw [Query.balance_eq hunspent, htotal]
  · intro view t t' op r hview hexec hspares
    exact (hpath.append hview).balance_of_spares hexec hspares
  · intro medium α unit e s' hwrite
    rw [tables_of_write_error hwrite]
  · intro network text params htext
    refine ⟨txos, txos.map fun txo ↦ txo.value.toNat, ?_, hperm, hnodup, hmem,
      Electrum.mapM_natural?_unspentJson txos, ?_⟩
    · intro method hmethod
      exact Electrum.call_listUnspent network htext params hunspent hmethod
    · rw [Electrum.call_getBalance network htext params hunspent, ← Query.total_eq_sum]
      by_cases hfits : Query.total txos < UInt64.size
      · rw [if_pos hfits]
        exact Electrum.natural?_balanceJson _
      · rw [if_neg hfits]
        exact ⟨rfl, Nat.le_of_not_lt hfits⟩

/-- Of four outputs of a script hash one is spent, one was never unspent, and one comes in a unit
that gives up. -/
theorem Store.History.balance_ofFourOutputs :
    let txo (vout : UInt32) (value : UInt64) (spentBy : Option Outpoint) : Txo :=
      ⟨⟨Hash.zero, vout⟩, some 5, value, spentBy⟩
    let s₀ : Store := ⟨Tables.empty, 0, 0, .fresh 0, default⟩
    let kept : WriteUnit Spent := do
      let _ ← WriteUnit.addTxo Hash.zero (txo 1 50 none)
      let _ ← WriteUnit.addTxo Hash.zero (txo 2 60 (some Outpoint.null))
      let _ ← WriteUnit.addTxo Hash.zero (txo 3 70 (some ⟨Hash.zero, 9⟩))
      let _ ← WriteUnit.addTxo (Hash.single []) (txo 1 80 none)
      let _ ← WriteUnit.spend ⟨Hash.zero, 1⟩ ⟨Hash.zero, 7⟩
      WriteUnit.spend ⟨Hash.zero, 1⟩ ⟨Hash.zero, 8⟩
    let lost : WriteUnit Unit := do
      let _ ← WriteUnit.addTxo Hash.zero (txo 4 90 none)
      .abort .noHeaders
    let s := ((s₀.write .boundless kept).2.write .boundless lost).2
    let text := "0000000000000000000000000000000000000000000000000000000000000000"
    Query.balance s.tables Hash.zero = .ok 60 ∧
      Electrum.call s.tables .bitcoin .scriptHashGetBalance [.string text] =
        .ok (Electrum.balanceJson 60) ∧
      ∃ txos : List Txo, txos.length = 1 ∧
        Electrum.call s.tables .bitcoin .scriptHashListUnspent [.string text] =
          .ok (.array (txos.map Electrum.unspentJson)) := by
  intro txo s₀ kept lost s text
  have hlog : s₀.History ([] ++ s₀.commits .boundless kept ++
      (s₀.write .boundless kept).2.commits .boundless lost) s :=
    .write .boundless lost (.write .boundless kept .start)
  obtain ⟨-, hbalance, -, -, hanswers⟩ := balance_eq_received_sub_gone rfl hlog Hash.zero
  have hreceived : Query.total (txosReceived Hash.zero ([] ++ s₀.commits .boundless kept ++
      (s₀.write .boundless kept).2.commits .boundless lost)) = 110 := by decide +kernel
  have hgone : Query.total (txosGone Hash.zero ([] ++ s₀.commits .boundless kept ++
      (s₀.write .boundless kept).2.commits .boundless lost)) = 50 := by decide +kernel
  have htext : Query.parseScriptHash text = .ok Hash.zero := by decide +kernel
  rw [hreceived, hgone] at hbalance
  have hconfirmed : Query.balance s.tables Hash.zero = .ok 60 := hbalance
  obtain ⟨txos, values, hlist, hperm, -, -, -, -⟩ := hanswers .bitcoin text [] htext
  refine ⟨hconfirmed, ?_, txos, ?_, hlist _ (by decide)⟩
  · simp only [Electrum.call, Electrum.ask_text _ htext, hconfirmed]
    rfl
  · rw [hperm.length_eq]
    decide +kernel

end TxoIndex

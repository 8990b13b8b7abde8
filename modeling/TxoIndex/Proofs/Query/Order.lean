import TxoIndex.Proofs.Query.Balance

/-!
# The order of a history

A history lists the outputs of a script hash by height, then by the bytes of the transaction's name,
then by index, and all outputs of unknown height come last. The outputs of one script hash in the
tables have different outpoints, so no two of them stand level, and there is only one list of them
in this order. The tables keep them in the order of their records instead, where the height comes
after the outpoint, and where an index is compared by its bytes, the least significant one first.

What is unspent is a part of the history in the same order, and so is what the server lists.
-/

namespace TxoIndex

instance : Std.TransCmp (compare : Outpoint → Outpoint → Ordering) :=
  inferInstanceAs (Std.TransCmp (compareLex (compareOn Outpoint.txid) (compareOn Outpoint.vout)))

instance : Std.LawfulEqCmp (compare : Outpoint → Outpoint → Ordering) where
  compare_self {o} := (Std.ReflCmp.compare_self :
    compareLex (compareOn Outpoint.txid) (compareOn Outpoint.vout) o o = .eq)
  eq_of_compare {o p} h := by
    obtain ⟨htxid, hvout⟩ := Ordering.then_eq_eq.1 h
    exact Outpoint.ext (Std.LawfulEqCmp.eq_of_compare htxid)
      (Std.LawfulEqCmp.eq_of_compare hvout)

theorem Outpoint.compare_eq_lt {o p : Outpoint} :
    compare o p = .lt ↔
      compare o.txid.bytes p.txid.bytes = .lt ∨ o.txid = p.txid ∧ o.vout.toNat < p.vout.toNat := by
  change (compare o.txid p.txid).then (compare o.vout p.vout) = .lt ↔ _
  rw [Ordering.then_eq_lt, Std.LawfulEqCmp.compare_eq_iff_eq, Std.compare_eq_lt (a := o.vout),
    UInt32.lt_iff_toNat_lt]
  exact Iff.rfl

namespace Query

/-! ## Which output comes first -/

/-- Whether the first height comes before the second one. An unknown height comes after every known
one. -/
def HeightBefore : Option UInt32 → Option UInt32 → Prop
  | some h, some h' => h < h'
  | some _, none => True
  | none, _ => False

instance (h h' : Option UInt32) : Decidable (HeightBefore h h') :=
  match h, h' with
  | some h, some h' => inferInstanceAs (Decidable (h < h'))
  | some _, none => isTrue trivial
  | none, _ => isFalse id

/-- The first output comes before the second one: by its height, among outputs of one height by the
bytes of the transaction's name, and among outputs of one transaction by its index. -/
inductive Before (x y : Txo) : Prop where
  | height : HeightBefore x.height y.height → Before x y
  | txid : x.height = y.height →
    compare x.outpoint.txid.bytes y.outpoint.txid.bytes = .lt → Before x y
  | vout : x.height = y.height → x.outpoint.txid = y.outpoint.txid →
    x.outpoint.vout.toNat < y.outpoint.vout.toNat → Before x y

theorem before_iff {x y : Txo} :
    Before x y ↔ HeightBefore x.height y.height ∨ x.height = y.height ∧
      (compare x.outpoint.txid.bytes y.outpoint.txid.bytes = .lt ∨
        x.outpoint.txid = y.outpoint.txid ∧ x.outpoint.vout.toNat < y.outpoint.vout.toNat) := by
  constructor
  · intro hbefore
    cases hbefore with
    | height hheight => exact .inl hheight
    | txid hheight htxid => exact .inr ⟨hheight, .inl htxid⟩
    | vout hheight htxid hvout => exact .inr ⟨hheight, .inr ⟨htxid, hvout⟩⟩
  · rintro (hheight | ⟨hheight, htxid | ⟨htxid, hvout⟩⟩)
    · exact .height hheight
    · exact .txid hheight htxid
    · exact .vout hheight htxid hvout

instance (x y : Txo) : Decidable (Before x y) := decidable_of_iff _ before_iff.symm

def order : Txo → Txo → Ordering :=
  compareLex (compareOn sortHeight) (compareOn Txo.outpoint)

instance : Std.TransCmp order :=
  inferInstanceAs (Std.TransCmp (compareLex (compareOn sortHeight) (compareOn Txo.outpoint)))

theorem precedes_eq_isLE (x y : Txo) : precedes x y = (order x y).isLE := rfl

/-- Outputs with different outpoints do not stand level. -/
theorem outpoint_eq_of_order_eq {x y : Txo} (h : order x y = .eq) : x.outpoint = y.outpoint :=
  Std.LawfulEqCmp.eq_of_compare (Ordering.then_eq_eq.1 h).2

/-! ### Heights in records -/

theorem lt_unknownHeight_of_ne {h : UInt32} (hne : h ≠ Txo.unknownHeight) :
    h < Txo.unknownHeight := by
  rw [UInt32.lt_iff_toNat_lt]
  have hlt := h.toNat_lt
  have htoNat : h.toNat ≠ Txo.unknownHeight.toNat := mt UInt32.toNat_inj.1 hne
  change h.toNat ≠ 4294967295 at htoNat
  change h.toNat < 4294967295
  omega

variable {x y : Txo}

/-- The marker of an unknown height takes the place of no known one. -/
theorem sortHeight_lt_iff (hx : x.IsStored) :
    sortHeight x < sortHeight y ↔ HeightBefore x.height y.height := by
  unfold sortHeight
  cases hheight : x.height with
  | none =>
    have hnot : ¬ Txo.unknownHeight < y.height.getD Txo.unknownHeight := by
      rw [UInt32.lt_iff_toNat_lt]
      have hlt := (y.height.getD Txo.unknownHeight).toNat_lt
      change ¬ 4294967295 < _
      omega
    exact iff_of_false hnot id
  | some h =>
    cases hheight' : y.height with
    | none =>
      have hknown : h ≠ Txo.unknownHeight := by
        rintro rfl
        exact hx.1 hheight
      exact iff_of_true (lt_unknownHeight_of_ne hknown) trivial
    | some h' => exact Iff.rfl

theorem sortHeight_eq_iff (hx : x.IsStored) (hy : y.IsStored) :
    sortHeight x = sortHeight y ↔ x.height = y.height := by
  constructor
  · intro heq
    calc
      x.height = readBack Txo.unknownHeight (some (sortHeight x)) :=
        (readBack_some_getD hx.1).symm
      _ = readBack Txo.unknownHeight (some (sortHeight y)) := by rw [heq]
      _ = y.height := readBack_some_getD hy.1
  · intro heq
    rw [sortHeight, heq, sortHeight]

theorem order_eq_lt_iff (hx : x.IsStored) (hy : y.IsStored) : order x y = .lt ↔ Before x y := by
  have hlex : order x y =
      (compare (sortHeight x) (sortHeight y)).then (compare x.outpoint y.outpoint) := rfl
  rw [hlex, Ordering.then_eq_lt, Std.compare_eq_lt (a := sortHeight x),
    Std.LawfulEqCmp.compare_eq_iff_eq, sortHeight_lt_iff hx, sortHeight_eq_iff hx hy,
    Outpoint.compare_eq_lt, before_iff]

theorem Before.asymm (hx : x.IsStored) (hy : y.IsStored) (h : Before x y) : ¬ Before y x := by
  intro h'
  have hlt := (order_eq_lt_iff hx hy).2 h
  have hgt : order x y = .gt := Std.OrientedCmp.gt_of_lt ((order_eq_lt_iff hy hx).2 h')
  rw [hlt] at hgt
  cases hgt

/-! ## Sorting -/

variable {txos txos' : List Txo}

/-- Outputs of different outpoints are sorted strictly. -/
theorem pairwise_before_mergeSort (hstored : ∀ txo ∈ txos, txo.IsStored)
    (hnodup : (txos.map Txo.outpoint).Nodup) :
    (txos.mergeSort precedes).Pairwise Before := by
  have hperm : (txos.mergeSort precedes).Perm txos := List.mergeSort_perm txos precedes
  have hsorted : (txos.mergeSort precedes).Pairwise fun x y ↦ precedes x y := by
    apply List.pairwise_mergeSort
    · intro x y z hxy hyz
      rw [precedes_eq_isLE] at hxy hyz ⊢
      exact Std.TransCmp.isLE_trans hxy hyz
    · intro x y
      have hswap : order y x = (order x y).swap := Std.OrientedCmp.eq_swap
      rw [precedes_eq_isLE, precedes_eq_isLE, hswap]
      cases order x y <;> rfl
  have hdistinct : (txos.mergeSort precedes).Pairwise fun x y ↦ x.outpoint ≠ y.outpoint := by
    rw [← List.pairwise_map, ← List.nodup_iff_pairwise_ne, (hperm.map _).nodup_iff]
    exact hnodup
  apply (hsorted.and hdistinct).imp_of_mem
  intro x y hx hy hxy
  rw [← order_eq_lt_iff (hstored x (hperm.mem_iff.1 hx)) (hstored y (hperm.mem_iff.1 hy))]
  cases horder : order x y with
  | lt => rfl
  | eq => exact absurd (outpoint_eq_of_order_eq horder) hxy.2
  | gt =>
    have hle := hxy.1
    rw [precedes_eq_isLE, horder] at hle
    cases hle

/-- Outputs are in this order in one way only. -/
theorem eq_of_pairwise_before (hstored : ∀ txo ∈ txos, txo.IsStored) (hperm : txos'.Perm txos)
    (hbefore' : txos'.Pairwise Before) (hbefore : txos.Pairwise Before) : txos' = txos := by
  apply hperm.eq_of_pairwise _ hbefore' hbefore
  intro x y hx hy hxy hyx
  exact absurd hyx (hxy.asymm (hstored x (hperm.mem_iff.1 hx)) (hstored y hy))

end Query

namespace Tables.IsListing

variable {m : Index} {scriptHash : ScriptHash} {txos : List Txo}

theorem isStored (h : IsListing m scriptHash txos) : ∀ txo ∈ txos, txo.IsStored := by
  intro txo hmem
  exact (m.valid (h.mem_iff.1 hmem)).2

/-- The tables list outputs in the order of their records. -/
theorem pairwise_encode (h : IsListing m scriptHash txos) :
    txos.Pairwise fun x y ↦ compare x.encode y.encode = .lt := by
  apply (List.pairwise_map.1 h.ascending).imp
  intro x y hlt
  have hne : y.outpoint ≠ x.outpoint := by
    intro heq
    rw [heq, Bytes.compare_self] at hlt
    cases hlt
  rw [← hlt]
  exact Outpoint.compare_key hne x.key_prefix_encode y.key_prefix_encode

end Tables.IsListing

/-! ## Answers -/

/-- The entry tells the output: the name of its transaction, its index, its height, which is zero if
it is unknown, and its value. -/
structure Electrum.Tells (entry : Json) (txo : Txo) : Prop where
  tx_hash : entry.field? "tx_hash" = some (.string txo.outpoint.txid.display)
  tx_pos : entry.natural? "tx_pos" = some txo.outpoint.vout.toNat
  height : entry.natural? "height" = some (txo.height.getD 0).toNat
  value : entry.natural? "value" = some txo.value.toNat

theorem Electrum.tells_unspentJson (txo : Txo) : Tells (unspentJson txo) txo :=
  ⟨rfl, rfl, rfl, rfl⟩

/-- The history of a script hash are the outputs that the tables list there, put in order of height,
name of the transaction and index, and this is the only list of them in this order. What is unspent
are those of them without a spender, in the same order, and the server lists these one by one. -/
theorem Store.history_in_order {s : Store} (hreachable : s.Reachable) (scriptHash : ScriptHash) :
    ∃ txos history unspent : List Txo,
      Query.txos? s.tables scriptHash = .ok (listed txos) ∧
      (txos.Pairwise fun x y ↦ compare x.encode y.encode = .lt) ∧
      Query.history s.tables scriptHash = .ok history ∧
      history.Perm txos ∧ history.Pairwise Query.Before ∧
      (∀ other : List Txo, other.Perm txos → other.Pairwise Query.Before → other = history) ∧
      Query.unspent s.tables scriptHash = .ok unspent ∧
      unspent = history.filter (fun txo ↦ txo.spentBy = none) ∧
      ∀ (network : Network) (text : String) (params : List Json),
        Query.parseScriptHash text = .ok scriptHash →
          ∀ method ∈ [.scriptHashListUnspent, .scriptHashUtxos], ∃ entries : List Json,
            Electrum.call s.tables network method (.string text :: params) =
              .ok (.array entries) ∧ entries.Forall₂ Electrum.Tells unspent := by
  obtain ⟨m, hm⟩ := hreachable.represents
  obtain ⟨txos, htxos, hlisting⟩ := hm.exists_isListing scriptHash
  have hread : Query.txos? s.tables scriptHash = .ok (listed txos) := by
    rw [Query.txos?, htxos]
  have hhistory : Query.history s.tables scriptHash = .ok (txos.mergeSort Query.precedes) := by
    rw [Query.history, hread]
    cases txos <;> rfl
  have hbefore := Query.pairwise_before_mergeSort hlisting.isStored hlisting.nodup_outpoints
  have hperm : (txos.mergeSort Query.precedes).Perm txos := List.mergeSort_perm txos _
  have hunspent : Query.unspent s.tables scriptHash =
      .ok ((txos.mergeSort Query.precedes).filter fun txo ↦ txo.spentBy = none) := by
    rw [Query.unspent, hhistory]
    change Except.ok _ = _
    congr 2
    funext txo
    cases hspent : txo.spentBy <;> simp [Txo.isSpent, hspent]
  refine ⟨txos, _, _, hread, hlisting.pairwise_encode, hhistory, hperm, hbefore, ?_, hunspent, rfl,
    ?_⟩
  · intro other hother hbefore'
    apply Query.eq_of_pairwise_before _ (hother.trans hperm.symm) hbefore' hbefore
    intro txo hmem
    exact hlisting.isStored txo (hperm.mem_iff.1 hmem)
  · intro network text params htext method hmethod
    refine ⟨_, Electrum.call_listUnspent network htext params hunspent hmethod, ?_⟩
    rw [List.forall₂_map_left_iff, List.forall₂_same]
    intro txo _
    exact Electrum.tells_unspentJson txo

/-- Four outputs of one transaction: by their records the index 256 comes before the index 1, and an
unknown height counts for nothing. -/
theorem Store.history_ofFourIndexes :
    let txo (vout : UInt32) (height : Option UInt32) (spentBy : Option Outpoint) : Txo :=
      ⟨⟨Hash.zero, vout⟩, height, 50, spentBy⟩
    let spent := txo 2 (some 3) (some ⟨Hash.zero, 9⟩)
    let unit : WriteUnit Added := do
      let _ ← WriteUnit.addTxo Hash.zero (txo 1 (some 5) none)
      let _ ← WriteUnit.addTxo Hash.zero (txo 0 none none)
      let _ ← WriteUnit.addTxo Hash.zero (txo 256 (some 5) none)
      WriteUnit.addTxo Hash.zero spent
    let s := (Store.write .boundless unit ⟨Tables.empty, 0, 0, .fresh 0, default⟩).2
    let text := "0000000000000000000000000000000000000000000000000000000000000000"
    s.Reachable ∧
      Query.txos? s.tables Hash.zero =
        .ok (some [txo 0 none none, txo 256 (some 5) none, txo 1 (some 5) none, spent]) ∧
      Query.history s.tables Hash.zero =
        .ok [spent, txo 1 (some 5) none, txo 256 (some 5) none, txo 0 none none] ∧
      Query.unspent s.tables Hash.zero =
        .ok [txo 1 (some 5) none, txo 256 (some 5) none, txo 0 none none] ∧
      ∃ entries : List Json,
        Electrum.call s.tables .bitcoin .scriptHashListUnspent [.string text] =
          .ok (.array entries) ∧
        entries.Forall₂ Electrum.Tells
          [txo 1 (some 5) none, txo 256 (some 5) none, txo 0 none none] := by
  intro txo spent unit s text
  have hreachable : s.Reachable := .write .boundless unit (.fresh rfl)
  obtain ⟨txos, history, unspent, htxos, -, hhistory, -, -, hunique, hunspent, hfilter, hanswers⟩ :=
    Store.history_in_order hreachable Hash.zero
  have hread : Query.txos? s.tables Hash.zero =
      .ok (some [txo 0 none none, txo 256 (some 5) none, txo 1 (some 5) none, spent]) := by
    decide +kernel
  have hlisted : listed txos =
      some [txo 0 none none, txo 256 (some 5) none, txo 1 (some 5) none, spent] := by
    rw [htxos, Except.ok.injEq] at hread
    exact hread
  obtain rfl : txos = [txo 0 none none, txo 256 (some 5) none, txo 1 (some 5) none, spent] := by
    cases txos with
    | nil => cases hlisted
    | cons first rest => exact Option.some.inj hlisted
  obtain rfl : [spent, txo 1 (some 5) none, txo 256 (some 5) none, txo 0 none none] = history := by
    apply hunique
    · decide +kernel
    · decide +kernel
  have hleft : unspent = [txo 1 (some 5) none, txo 256 (some 5) none, txo 0 none none] := by
    rw [hfilter]
    decide +kernel
  subst hleft
  have htext : Query.parseScriptHash text = .ok Hash.zero := by decide +kernel
  exact ⟨hreachable, hread, hhistory, hunspent,
    hanswers .bitcoin text [] htext .scriptHashListUnspent (by decide)⟩

end TxoIndex

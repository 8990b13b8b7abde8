import TxoIndex.Proofs.Store.Consistency

/-!
# Listed outputs

What tables list under a script hash are the rows with this script hash, in the order of the keys of
their outpoints. So the list is determined by the rows: if the rows of two indexes agree in their
script hashes and in some view of their outputs, the lists agree in this view, element by element.
-/

namespace TxoIndex

/-- A list, or `none` instead of an empty one. -/
def listed {α : Type} (l : List α) : Option (List α) := if l.isEmpty then none else some l

theorem map_listed {α β : Type} (f : α → β) (l : List α) :
    (listed l).map (List.map f) = listed (l.map f) := by
  unfold listed
  rw [List.isEmpty_map]
  split <;> rfl

namespace Tables

/-- Reading the outputs of a script hash gives this one among them. -/
def Lists (t : Tables) (scriptHash : ScriptHash) (txo : Txo) : Prop :=
  ∃ txos, t.txos? scriptHash = .ok (some txos) ∧ txo ∈ txos

instance (t : Tables) (scriptHash : ScriptHash) (txo : Txo) :
    Decidable (t.Lists scriptHash txo) :=
  match h : t.txos? scriptHash with
  | .ok (some txos) => decidable_of_iff (txo ∈ txos) (by simp [Lists, h])
  | .ok none => isFalse (by simp [Lists, h])
  | .error _ => isFalse (by simp [Lists, h])

/-- The outputs under a script hash, in the order of their outpoints. -/
structure IsListing (m : Index) (scriptHash : ScriptHash) (txos : List Txo) : Prop where
  mem_iff {txo : Txo} : txo ∈ txos ↔ m.rows txo.outpoint = some ⟨scriptHash, txo⟩
  ascending : (txos.map fun txo ↦ txo.outpoint.key).Pairwise fun x y ↦ compare x y = .lt

namespace IsListing

variable {m m' : Index} {scriptHash : ScriptHash} {txos txos' : List Txo} {γ : Type}

/-- The outpoints of the list are known from the script hashes of the rows. -/
theorem mem_keys_iff (h : IsListing m scriptHash txos) {key : Bytes} :
    key ∈ txos.map (fun txo ↦ txo.outpoint.key) ↔
      ∃ o : Outpoint, (m.rows o).map FundingRow.scriptHash = some scriptHash ∧ o.key = key := by
  rw [List.mem_map]
  constructor
  · rintro ⟨txo, htxo, rfl⟩
    exact ⟨txo.outpoint, by rw [h.mem_iff.1 htxo, Option.map_some], rfl⟩
  · rintro ⟨o, ho, rfl⟩
    obtain ⟨⟨_, txo⟩, hrow, rfl⟩ := Option.map_eq_some_iff.1 ho
    obtain rfl : txo.outpoint = o := (m.valid hrow).1
    exact ⟨txo, h.mem_iff.2 hrow, rfl⟩

/-- No two outputs of the list have the same outpoint. -/
theorem nodup_outpoints (h : IsListing m scriptHash txos) : (txos.map Txo.outpoint).Nodup := by
  rw [List.nodup_iff_pairwise_ne, List.pairwise_map]
  apply (List.pairwise_map.1 h.ascending).imp
  intro x y hlt heq
  rw [heq, Bytes.compare_self] at hlt
  cases hlt

theorem map_eq (h : IsListing m scriptHash txos) (h' : IsListing m' scriptHash txos')
    {g g' : Txo → γ} (hrows : ∀ o, (m.rows o).map (fun row ↦ (row.scriptHash, g row.txo)) =
      (m'.rows o).map fun row ↦ (row.scriptHash, g' row.txo)) : txos.map g = txos'.map g' := by
  have hscripts (o : Outpoint) :
      (m.rows o).map FundingRow.scriptHash = (m'.rows o).map FundingRow.scriptHash := by
    have hfst := congrArg (Option.map Prod.fst) (hrows o)
    rw [Option.map_map, Option.map_map] at hfst
    exact hfst
  have hkeys : txos.map (fun txo ↦ txo.outpoint.key) = txos'.map fun txo ↦ txo.outpoint.key := by
    apply Bucket.eq_of_ascending h.ascending h'.ascending
    intro key
    rw [h.mem_keys_iff, h'.mem_keys_iff]
    simp only [hscripts]
  have houtpoints : txos.Forall₂ (fun x y ↦ x.outpoint = y.outpoint) txos' := by
    rw [← List.forall₂_eq_eq_eq, List.forall₂_map_left_iff, List.forall₂_map_right_iff] at hkeys
    exact hkeys.imp fun x y ↦ Outpoint.key_inj.1
  rw [← List.forall₂_eq_eq_eq, List.forall₂_map_left_iff, List.forall₂_map_right_iff]
  apply List.forall₂_iff_zip.2
  refine ⟨houtpoints.length_eq, fun {x y} hxy ↦ ?_⟩
  have hx := h.mem_iff.1 (List.of_mem_zip hxy).1
  have hy := h'.mem_iff.1 (List.of_mem_zip hxy).2
  have hsame := hrows x.outpoint
  rw [hx, List.forall₂_zip houtpoints hxy, hy, Option.map_some, Option.map_some,
    Option.some.injEq, Prod.mk.injEq] at hsame
  exact hsame.2

end IsListing

namespace Represents

variable {t t' : Tables} {m m' : Index} {scriptHash : ScriptHash} {γ : Type}

/-- What is listed under a script hash. -/
theorem exists_isListing (h : t.Represents m) (scriptHash : ScriptHash) :
    ∃ txos, t.txos? scriptHash = .ok (listed txos) ∧ IsListing m scriptHash txos := by
  rcases h.txos?_eq scriptHash with ⟨hnone, hholds⟩ | ⟨txos, hsome, hne, -, hascending, hnodup⟩
  · refine ⟨[], hnone, ?_, List.Pairwise.nil⟩
    intro txo
    refine ⟨fun hmem ↦ absurd hmem List.not_mem_nil, fun hrow ↦ absurd (h.holds hrow) (hholds _)⟩
  · refine ⟨txos, ?_, h.mem_txos_iff hsome, ?_⟩
    · rw [hsome, listed, if_neg (by rwa [List.isEmpty_iff])]
    · rw [List.pairwise_map]
      apply (hascending.and (List.pairwise_map.1 hnodup)).imp
      rintro x y ⟨hlt, hne⟩
      rw [← hlt]
      exact (Outpoint.compare_key hne.symm x.key_prefix_encode y.key_prefix_encode).symm

/-- Rows that agree under a script hash are listed alike there. -/
theorem txos?_congr (h : t.Represents m) (h' : t'.Represents m')
    (hrows : ∀ o txo, m.rows o = some ⟨scriptHash, txo⟩ ↔ m'.rows o = some ⟨scriptHash, txo⟩) :
    t.txos? scriptHash = t'.txos? scriptHash := by
  obtain ⟨txos, htxos, hlisting⟩ := h.exists_isListing scriptHash
  obtain ⟨txos', htxos', hlisting'⟩ := h'.exists_isListing scriptHash
  have hperm : txos.Perm txos' := by
    rw [List.perm_ext_iff_of_nodup hlisting.nodup_outpoints.of_map
      hlisting'.nodup_outpoints.of_map]
    intro txo
    rw [hlisting.mem_iff, hlisting'.mem_iff, hrows]
  have hsame : txos = txos' := by
    apply hperm.eq_of_pairwise _ (List.pairwise_map.1 hlisting.ascending)
      (List.pairwise_map.1 hlisting'.ascending)
    intro x y _ _ hxy hyx
    have hswap : compare x.outpoint.key y.outpoint.key =
        (compare y.outpoint.key x.outpoint.key).swap := Std.OrientedCmp.eq_swap
    rw [hswap, hyx] at hxy
    cases hxy
  rw [htxos, htxos', hsame]

theorem lists_iff (h : t.Represents m) {txo : Txo} :
    t.Lists scriptHash txo ↔ m.rows txo.outpoint = some ⟨scriptHash, txo⟩ := by
  constructor
  · rintro ⟨txos, htxos, hmem⟩
    exact (h.mem_txos_iff htxos).1 hmem
  · intro hrow
    obtain ⟨txos, htxos, hlisting⟩ := h.exists_isListing scriptHash
    have hmem := hlisting.mem_iff.2 hrow
    refine ⟨txos, ?_, hmem⟩
    rw [htxos, listed, if_neg (by simpa using List.ne_nil_of_mem hmem)]

/-- Rows that agree in a view are listed alike in this view. -/
theorem map_txos?_eq (h : t.Represents m) (h' : t'.Represents m') {g g' : Txo → γ}
    (hrows : ∀ o, (m.rows o).map (fun row ↦ (row.scriptHash, g row.txo)) =
      (m'.rows o).map fun row ↦ (row.scriptHash, g' row.txo)) (scriptHash : ScriptHash) :
    (t.txos? scriptHash).map (Option.map (List.map g)) =
      (t'.txos? scriptHash).map (Option.map (List.map g')) := by
  obtain ⟨txos, htxos, hlisting⟩ := h.exists_isListing scriptHash
  obtain ⟨txos', htxos', hlisting'⟩ := h'.exists_isListing scriptHash
  rw [htxos, htxos', Except.map, Except.map, map_listed, map_listed,
    hlisting.map_eq hlisting' hrows]

end Represents

end Tables

end TxoIndex

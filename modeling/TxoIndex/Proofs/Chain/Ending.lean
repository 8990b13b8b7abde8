import Mathlib.Logic.Relation
import TxoIndex.Proofs.Chain.Traversal

/-!
# The end of the traversal

The traversal has no set of the hashes that it visited. If headers lead back to the zero hash, some
hash on its stack always leads there, and it goes round for ever; this is the only way not to come
to an end. At its end the tip is a hash of the greatest height.
-/

namespace TxoIndex

namespace HeaderLinks

/-- Headers lead from one hash to another, or the hashes are the same. -/
def LeadsTo (links : HeaderLinks) : BlockHash → BlockHash → Prop :=
  Relation.ReflTransGen fun parent child ↦ child ∈ links.childrenOf parent

theorem IsHeight.exists_root {links : HeaderLinks} {hash : BlockHash} {height : Nat}
    (h : links.IsHeight hash height) :
    ∃ root ∈ links.childrenOf Hash.zero, links.LeadsTo root hash := by
  induction h with
  | start hmem => exact ⟨_, hmem, .refl⟩
  | child _ hmem ih =>
    obtain ⟨root, hroot, hleads⟩ := ih
    exact ⟨root, hroot, hleads.tail hmem⟩

/-- If headers lead from the zero hash to itself, no hash that leads there is the last one. -/
theorem exists_child_leadsTo_zero {links : HeaderLinks} (hcycle : ¬ links.IsGrounded)
    {hash : BlockHash} (h : links.LeadsTo hash Hash.zero) :
    ∃ child ∈ links.childrenOf hash, links.LeadsTo child Hash.zero := by
  rcases Relation.ReflTransGen.cases_head h with rfl | ⟨child, hchild, hleads⟩
  · obtain ⟨height, hheight⟩ := not_forall_not.1 hcycle
    exact hheight.exists_root
  · exact ⟨child, hchild, hleads⟩

end HeaderLinks

namespace HeightTraversal

variable {links : HeaderLinks} {t : HeightTraversal}

/-! ## Coming to an end -/

/-- Whether some number of steps leaves nothing to be visited. -/
def Ends (links : HeaderLinks) : Prop := ∃ bound, (run links bound (start links)).stack = []

/-- Some hash to be visited leads to the zero hash. -/
def IsCyclic (links : HeaderLinks) (t : HeightTraversal) : Prop :=
  ∃ top ∈ t.stack, links.LeadsTo top.1 Hash.zero

theorem IsCyclic.step (hcycle : ¬ links.IsGrounded) (h : IsCyclic links t) :
    IsCyclic links (t.step links) := by
  obtain ⟨top, htop, hleads⟩ := h
  unfold HeightTraversal.step
  split
  · exact ⟨top, htop, hleads⟩
  next hash height rest hstack =>
  rw [hstack] at htop
  rcases List.mem_cons.1 htop with rfl | hrest
  · obtain ⟨child, hchild, hleads'⟩ := HeaderLinks.exists_child_leadsTo_zero hcycle hleads
    exact ⟨(child, height + 1), List.mem_append_left _ (List.mem_map_of_mem hchild), hleads'⟩
  · exact ⟨top, List.mem_append_right _ hrest, hleads⟩

theorem IsCyclic.run (hcycle : ¬ links.IsGrounded) (h : IsCyclic links t) (bound : Nat) :
    IsCyclic links (t.run links bound) := by
  induction bound generalizing t with
  | zero => exact h
  | succ bound ih =>
    unfold HeightTraversal.run
    split
    · exact h
    · exact ih (h.step hcycle)

/-- The traversal comes to an end, unless headers lead back to the zero hash. -/
theorem ends_iff_isGrounded (hforest : links.IsForest) : Ends links ↔ links.IsGrounded := by
  constructor
  · intro ⟨bound, hend⟩
    by_contra hcycle
    obtain ⟨height, hheight⟩ := not_forall_not.1 hcycle
    obtain ⟨root, hroot, hleads⟩ := hheight.exists_root
    have hstart : IsCyclic links (start links) := ⟨(root, 0), List.mem_map_of_mem hroot, hleads⟩
    obtain ⟨top, htop, -⟩ := hstart.run hcycle bound
    rw [hend] at htop
    cases htop
  · intro hgrounded
    have hrun := (orderly_start hforest).run hforest hgrounded (sound_start links)
      (Nat.le_add_left links.headers.size _)
    exact ⟨links.headers.size, hrun.2⟩

theorem ends_ofHeaders_iff {headers : List Header} :
    Ends (.ofHeaders headers) ↔ (HeaderLinks.ofHeaders headers).IsGrounded :=
  ends_iff_isGrounded (HeaderLinks.isForest_ofHeaders headers)

/-! ## The tip -/

/-- The tip after a visit is the hash visited or what it was, whichever is higher. -/
theorem exists_higher (tip : Option (BlockHash × Nat)) (hash : BlockHash) (height : Nat) :
    ∃ best top, higher tip hash height = some (best, top) ∧ height ≤ top ∧
      (∀ {best' top'}, tip = some (best', top') → top' ≤ top) ∧
      (tip = some (best, top) ∨ (best, top) = (hash, height)) := by
  cases tip with
  | none => exact ⟨hash, height, rfl, Nat.le_refl height, nofun, .inr rfl⟩
  | some tip =>
    obtain ⟨best, top⟩ := tip
    by_cases htop : top < height
    · refine ⟨hash, height, if_pos htop, Nat.le_refl height, ?_, .inr rfl⟩
      rintro _ _ ⟨rfl, rfl⟩
      exact Nat.le_of_lt htop
    · refine ⟨best, top, if_neg htop, Nat.le_of_not_lt htop, ?_, .inl rfl⟩
      rintro _ _ ⟨rfl, rfl⟩
      exact Nat.le_refl top

/-- The tip is a highest one of the hashes that were visited. -/
structure Topped (links : HeaderLinks) (t : HeightTraversal) : Prop where
  isHeight {best : BlockHash} {top : Nat} : t.tip = some (best, top) → links.IsHeight best top
  exists_le {hash : BlockHash} {height : Nat} : t.heights[hash]? = some height →
    ∃ best top, t.tip = some (best, top) ∧ height ≤ top

theorem topped_start (links : HeaderLinks) : Topped links (start links) where
  isHeight h := by
    cases h
  exists_le h := by
    simp [start] at h

theorem Topped.step (hsound : Sound links t) (h : Topped links t) :
    Topped links (t.step links) := by
  unfold HeightTraversal.step
  split
  · exact h
  next hash height rest hstack =>
  have hheight : links.IsHeight hash height := hsound.stack (hstack ▸ List.mem_cons_self)
  obtain ⟨best, top, htip, hle, hbefore, hcases⟩ := exists_higher t.tip hash height
  constructor
  · intro best' top' htip'
    rw [htip, Option.some.injEq] at htip'
    rcases hcases with hold | hnew
    · exact h.isHeight (htip' ▸ hold)
    · rw [hnew, Prod.mk.injEq] at htip'
      obtain ⟨rfl, rfl⟩ := htip'
      exact hheight
  · intro hash' height' hget
    refine ⟨best, top, htip, ?_⟩
    rw [Std.ExtTreeMap.getElem?_insert] at hget
    split at hget
    · rwa [← Option.some.inj hget]
    · obtain ⟨best', top', htip', hle'⟩ := h.exists_le hget
      exact Nat.le_trans hle' (hbefore htip')

theorem Topped.run (hsound : Sound links t) (h : Topped links t) (bound : Nat) :
    Topped links (t.run links bound) := by
  induction bound generalizing t with
  | zero => exact h
  | succ bound ih =>
    unfold HeightTraversal.run
    split
    · exact h
    · exact ih hsound.step (h.step hsound)

end HeightTraversal

namespace Chain

variable {headers headers' : List Header}

theorem topped_ofHeaders (headers : List Header) :
    HeightTraversal.Topped (.ofHeaders headers) (HeightTraversal.run (.ofHeaders headers)
      (HeaderLinks.ofHeaders headers).headers.size (.start (.ofHeaders headers))) :=
  (HeightTraversal.topped_start _).run (HeightTraversal.sound_start _) _

/-- The tip has the greatest height. There is one as soon as there are heights. -/
theorem tipHeight_eq_some_iff (hgrounded : (HeaderLinks.ofHeaders headers).IsGrounded)
    {top : Nat} : (ofHeaders headers).tip.map Prod.snd = some top ↔
      (∃ hash, (ofHeaders headers).height? hash = some top) ∧
        ∀ hash height, (ofHeaders headers).height? hash = some height → height ≤ top := by
  have htop := topped_ofHeaders headers
  have hheight? {best : BlockHash} {top : Nat} (htip : (ofHeaders headers).tip = some (best, top)) :
      (ofHeaders headers).height? best = some top :=
    (height?_eq_some_iff hgrounded).2 (htop.isHeight htip)
  constructor
  · intro h
    obtain ⟨⟨best, top⟩, htip, rfl⟩ := Option.map_eq_some_iff.1 h
    refine ⟨⟨best, hheight? htip⟩, fun hash height hheight ↦ ?_⟩
    obtain ⟨best', top', htip', hle⟩ := htop.exists_le hheight
    rw [show (ofHeaders headers).tip = some (best', top') from htip', Option.some.injEq] at htip
    rwa [← htip]
  · rintro ⟨⟨hash, hheight⟩, hgreatest⟩
    obtain ⟨best, top', htip, hle⟩ := htop.exists_le hheight
    have hge : top' ≤ top := hgreatest best top' (hheight? htip)
    rw [show (ofHeaders headers).tip = some (best, top') from htip, Option.map_some,
      Nat.le_antisymm hge hle]

/-- The height of the tip is told by the heights. -/
theorem tipHeight_congr (hgrounded : (HeaderLinks.ofHeaders headers).IsGrounded)
    (hgrounded' : (HeaderLinks.ofHeaders headers').IsGrounded)
    (h : ∀ hash, (ofHeaders headers).height? hash = (ofHeaders headers').height? hash) :
    (ofHeaders headers).tip.map Prod.snd = (ofHeaders headers').tip.map Prod.snd := by
  apply Option.ext
  intro top
  rw [tipHeight_eq_some_iff hgrounded, tipHeight_eq_some_iff hgrounded']
  simp only [h]

end Chain

end TxoIndex

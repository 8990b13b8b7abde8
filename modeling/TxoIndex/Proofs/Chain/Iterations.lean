import TxoIndex.Proofs.Chain.Linking

/-!
# Iterations of the traversal

Heights are assigned by a loop that goes on until nothing is left on its stack. Here it is looked at
without a bound on the number of its iterations, after any number of them. Whatever was put on the
stack was taken from it or is still there, and as long as no header is named by the zero hash, it is
all different and the name of some header. So the loop comes to its end after at most as many
iterations as there are names, and no height on the way is as great as this number.

Nothing is assumed about the parents: they may be missing, shared, the header itself, or lead round
in a circle, and different headers may have one name.
-/

namespace TxoIndex

namespace HeightTraversal

variable {links : HeaderLinks} {visited : List (BlockHash × Nat)} {t : HeightTraversal}

/-- Where the loop stands that has taken some hashes from the stack, the latest last. -/
inductive Reaches (links : HeaderLinks) : List (BlockHash × Nat) → HeightTraversal → Prop where
  | initial : Reaches links [] (start links)
  | visit {visited : List (BlockHash × Nat)} {t : HeightTraversal} {top : BlockHash × Nat}
    {rest : List (BlockHash × Nat)} : Reaches links visited t → t.stack = top :: rest →
    Reaches links (visited ++ [top]) (t.step links)

/-- The hashes that were put on the stack when these were taken from it, the earliest first. -/
def pushed (links : HeaderLinks) (visited : List (BlockHash × Nat)) : List BlockHash :=
  links.childrenOf Hash.zero ++ visited.flatMap fun top ↦ links.childrenOf top.1

theorem stack_step {top : BlockHash × Nat} {rest : List (BlockHash × Nat)}
    (h : t.stack = top :: rest) :
    (t.step links).stack = (links.childrenOf top.1).map (·, top.2 + 1) ++ rest := by
  rw [HeightTraversal.step, h]

namespace Reaches

theorem bounded (h : Reaches links visited t) : Bounded visited.length t := by
  induction h with
  | initial => exact bounded_start links
  | visit _ _ ih =>
    rw [List.length_append, List.length_singleton]
    exact ih.step

/-- What was put on the stack was taken from it or is still there. -/
theorem perm_pushed (h : Reaches links visited t) :
    (visited.map Prod.fst ++ t.stack.map Prod.fst).Perm (pushed links visited) := by
  induction h with
  | initial =>
    have hstack : (start links).stack.map Prod.fst = links.childrenOf Hash.zero :=
      map_fst_children _ 0
    rw [hstack, pushed, List.flatMap_nil, List.append_nil]
    exact List.Perm.refl _
  | @visit visited t top rest _ hstack ih =>
    have hpushed : pushed links (visited ++ [top]) =
        pushed links visited ++ links.childrenOf top.1 := by
      simp only [pushed, List.flatMap_append, List.flatMap_singleton, List.append_assoc]
    rw [hstack, List.map_cons] at ih
    rw [hpushed, stack_step hstack, List.map_append, List.map_append, map_fst_children,
      List.map_singleton]
    have hbefore : (visited.map Prod.fst ++ [top.1] ++ rest.map Prod.fst).Perm
        (pushed links visited) := by
      rw [List.append_assoc]
      exact ih
    calc
      List.Perm _ (visited.map Prod.fst ++ [top.1] ++
          (rest.map Prod.fst ++ links.childrenOf top.1)) :=
        List.perm_append_comm.append_left _
      List.Perm _ (pushed links visited ++ links.childrenOf top.1) := by
        rw [← List.append_assoc]
        exact hbefore.append_right _

section Grounded

variable (hforest : links.IsForest) (hgrounded : links.IsGrounded)

include hforest hgrounded

theorem sound_and_orderly (h : Reaches links visited t) : Sound links t ∧ Orderly links t := by
  induction h with
  | initial => exact ⟨sound_start links, orderly_start hforest⟩
  | visit _ _ ih => exact ⟨ih.1.step, ih.2.step hforest hgrounded ih.1⟩

/-- The visited hashes are those that have a height, and they are different. -/
theorem nodup_visited (h : Reaches links visited t) :
    (visited.map Prod.fst).Nodup ∧ ∀ hash, hash ∈ visited.map Prod.fst ↔ hash ∈ t.heights := by
  induction h with
  | initial =>
    refine ⟨List.nodup_nil, fun hash ↦ ?_⟩
    have hnone : hash ∉ (start links).heights := Std.ExtTreeMap.not_mem_empty
    exact iff_of_false List.not_mem_nil hnone
  | @visit visited t top rest hbefore hstack ih =>
    obtain ⟨hnodup, hheights⟩ := ih
    have hordered := (hbefore.sound_and_orderly hforest hgrounded).2
    have htop : top.1 ∈ t.stack.map Prod.fst :=
      List.mem_map_of_mem (hstack ▸ List.mem_cons_self)
    have hfresh : top.1 ∉ visited.map Prod.fst := mt (hheights top.1).1 (hordered.notMem htop)
    rw [List.map_append, List.map_singleton]
    refine ⟨?_, fun hash ↦ ?_⟩
    · rw [← List.concat_eq_append]
      exact hnodup.concat hfresh
    · rw [HeightTraversal.step, hstack, List.mem_append, hheights, List.mem_singleton,
        Std.ExtTreeMap.mem_insert, Std.LawfulEqCmp.compare_eq_iff_eq, @eq_comm _ hash, or_comm]

/-- No hash is put on the stack twice. -/
theorem nodup_pushed (h : Reaches links visited t) : (pushed links visited).Nodup := by
  rw [← h.perm_pushed.nodup_iff, List.nodup_append]
  obtain ⟨hnodup, hheights⟩ := h.nodup_visited hforest hgrounded
  have hordered := (h.sound_and_orderly hforest hgrounded).2
  refine ⟨hnodup, hordered.nodup, ?_⟩
  rintro hash hvisited _ hwaiting rfl
  exact hordered.notMem hwaiting ((hheights hash).1 hvisited)

end Grounded

/-- What was put on the stack are children of some hash. -/
theorem exists_mem_childrenOf {hash : BlockHash} (h : hash ∈ pushed links visited) :
    ∃ parent, hash ∈ links.childrenOf parent := by
  rcases List.mem_append.1 h with hroot | hchild
  · exact ⟨Hash.zero, hroot⟩
  · obtain ⟨top, -, hmem⟩ := List.mem_flatMap.1 hchild
    exact ⟨top.1, hmem⟩

/-- The loop comes to wherever the bounded traversal does. -/
theorem exists_run (h : Reaches links visited t) (bound : Nat) :
    ∃ later, Reaches links (visited ++ later) (t.run links bound) := by
  induction bound generalizing visited t with
  | zero => exact ⟨[], by rwa [List.append_nil]⟩
  | succ bound ih =>
    unfold HeightTraversal.run
    cases hstack : t.stack with
    | nil => exact ⟨[], by rwa [List.append_nil]⟩
    | cons top rest =>
      obtain ⟨later, hlater⟩ := ih (h.visit hstack)
      refine ⟨top :: later, ?_⟩
      rw [List.append_cons]
      exact hlater

end Reaches

/-- While something is on the stack, the loop has made fewer iterations than there are names. -/
theorem Reaches.length_add_length_le {headers : List Header}
    (hgrounded : (HeaderLinks.ofHeaders headers).IsGrounded)
    (h : Reaches (.ofHeaders headers) visited t) :
    visited.length + t.stack.length ≤ (headers.map Header.hash).toFinset.card := by
  have hforest := HeaderLinks.isForest_ofHeaders headers
  have hnames : (pushed (.ofHeaders headers) visited).toFinset ⊆
      (headers.map Header.hash).toFinset := by
    intro hash hpushed
    obtain ⟨parent, hchild⟩ := exists_mem_childrenOf (List.mem_toFinset.1 hpushed)
    obtain ⟨header, hmem, rfl, -⟩ := HeaderLinks.exists_header_of_mem_childrenOf hchild
    exact List.mem_toFinset.2 (List.mem_map_of_mem hmem)
  calc
    visited.length + t.stack.length =
        (visited.map Prod.fst ++ t.stack.map Prod.fst).length := by
      rw [List.length_append, List.length_map, List.length_map]
    _ = (pushed (.ofHeaders headers) visited).length := h.perm_pushed.length_eq
    _ = (pushed (.ofHeaders headers) visited).toFinset.card := by
      rw [List.toFinset_card_of_nodup (h.nodup_pushed hforest hgrounded)]
    _ ≤ (headers.map Header.hash).toFinset.card := Finset.card_le_card hnames

end HeightTraversal

namespace Chain

open HeightTraversal

/-- The loop that assigns the heights ends, unless a header is named by the zero hash. No hash is
put on its stack twice, it makes at most as many iterations as there are different names, and every
height on the way is less than this number. So the next height still is a word of thirty-two bits if
the number of headers is one. At the end the loop has assigned the heights of the chain. -/
theorem loop_ends {headers : List Header}
    (hzero : ∀ header ∈ headers, header.hash ≠ Hash.zero) :
    let names := (headers.map Header.hash).toFinset.card
    (∀ visited t, Reaches (.ofHeaders headers) visited t →
      (visited.map Prod.fst ++ t.stack.map Prod.fst).Perm (pushed (.ofHeaders headers) visited) ∧
      (pushed (.ofHeaders headers) visited).Nodup ∧
      visited.length ≤ names ∧
      ∀ hash height, (hash, height) ∈ t.stack ∨ t.heights[hash]? = some height →
        height < names ∧ (headers.length < UInt32.size → height + 1 < UInt32.size)) ∧
    ∃ visited t, Reaches (.ofHeaders headers) visited t ∧ t.stack = [] ∧
      ofHeaders headers = ⟨(HeaderLinks.ofHeaders headers).headers, t.heights, t.tip⟩ := by
  intro names
  have hforest := HeaderLinks.isForest_ofHeaders headers
  have hgrounded := HeaderLinks.isGrounded_ofHeaders hzero
  have hlength : names ≤ headers.length := by
    rw [← List.length_map (f := Header.hash)]
    exact List.toFinset_card_le _
  constructor
  · intro visited t h
    have hiterations := h.length_add_length_le hgrounded
    refine ⟨h.perm_pushed, h.nodup_pushed hforest hgrounded, by omega, ?_⟩
    intro hash height hassigned
    have hlt : height < names := by
      rcases hassigned with hwaiting | hheight
      · have hle : height ≤ visited.length := h.bounded.stack_le hwaiting
        have hpos : 0 < t.stack.length := List.length_pos_of_mem hwaiting
        omega
      · have hlt : height < visited.length := h.bounded.heights_lt hheight
        omega
    exact ⟨hlt, by omega⟩
  · obtain ⟨visited, h⟩ := Reaches.initial.exists_run (HeaderLinks.ofHeaders headers).headers.size
    refine ⟨_, _, h, ?_, rfl⟩
    exact ((orderly_start hforest).run hforest hgrounded (sound_start _)
      (Nat.le_add_left _ _)).2

/-- Two headers on top of a third one, of which one comes twice, and one whose parent is missing. -/
def fork : List Header :=
  let header (prev : BlockHash) (nonce : UInt32) : Header := ⟨1, prev, Hash.zero, 0, 0, nonce⟩
  let root := header Hash.zero 0
  let left := header root.hash 1
  [left, header root.hash 2, header (Hash.single []) 3, root, left]

theorem mem_tail_fork {header : Header} : header ∈ fork.tail ↔ header ∈ fork := by
  simp [fork]
  tauto

theorem nodup_names_fork : (Hash.zero :: fork.tail.map Header.hash).Nodup := by
  decide +kernel

theorem hash_ne_zero_of_mem_fork : ∀ header ∈ fork, header.hash ≠ Hash.zero := by
  intro header hmem hzero
  have hname : header.hash ∈ fork.tail.map Header.hash :=
    List.mem_map_of_mem (mem_tail_fork.2 hmem)
  exact (List.nodup_cons.1 nodup_names_fork).1 (hzero ▸ hname)

theorem loop_ends_ofFork :
    (∀ header ∈ fork, header.hash ≠ Hash.zero) ∧
      ∃ visited t, Reaches (.ofHeaders fork) visited t ∧ t.stack = [] ∧
        ofHeaders fork = ⟨(HeaderLinks.ofHeaders fork).headers, t.heights, t.tip⟩ ∧
        (visited.map Prod.fst).Perm (pushed (.ofHeaders fork) visited) ∧
        (pushed (.ofHeaders fork) visited).Nodup ∧ visited.length ≤ 4 ∧
        ∀ (hash : BlockHash) (height : Nat), t.heights[hash]? = some height → height < 4 := by
  have hnames : (fork.map Header.hash).toFinset.card = 4 := by
    have htail : (fork.map Header.hash).toFinset = (fork.tail.map Header.hash).toFinset := by
      ext hash
      simp only [List.mem_toFinset, List.mem_map, mem_tail_fork]
    rw [htail, List.toFinset_card_of_nodup (List.nodup_cons.1 nodup_names_fork).2,
      List.length_map]
    rfl
  obtain ⟨hall, visited, t, hreaches, hstack, hchain⟩ := loop_ends hash_ne_zero_of_mem_fork
  obtain ⟨hperm, hnodup, hlength, hheights⟩ := hall visited t hreaches
  rw [hstack, List.map_nil, List.append_nil] at hperm
  rw [hnames] at hlength
  refine ⟨hash_ne_zero_of_mem_fork, visited, t, hreaches, hstack, hchain, hperm, hnodup,
    hlength, ?_⟩
  intro hash height hheight
  rw [← hnames]
  exact (hheights hash height (.inr hheight)).1

end Chain

end TxoIndex

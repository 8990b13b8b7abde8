import TxoIndex.Chain

/-!
# Bounds of heights

The traversal visits one hash in a step and puts its children one higher, so after some steps no
height exceeds their number. There are as many steps as different headers at most.
-/

namespace TxoIndex

namespace HeightTraversal

/-- After some steps, the heights are below their number, and those to be assigned next are not
above it. -/
structure Bounded (steps : Nat) (t : HeightTraversal) : Prop where
  stack_le {hash : BlockHash} {height : Nat} : (hash, height) ∈ t.stack → height ≤ steps
  heights_lt {hash : BlockHash} {height : Nat} : t.heights[hash]? = some height → height < steps

theorem bounded_start (links : HeaderLinks) : Bounded 0 (start links) where
  stack_le hmem := by
    obtain ⟨_, _, heq⟩ := List.mem_map.1 hmem
    exact Nat.le_of_eq (Prod.mk.inj heq).2.symm
  heights_lt h := by
    simp [start] at h

theorem Bounded.step {links : HeaderLinks} {steps : Nat} {t : HeightTraversal}
    (h : Bounded steps t) : Bounded (steps + 1) (t.step links) := by
  unfold HeightTraversal.step
  split
  · exact ⟨fun hmem ↦ Nat.le_succ_of_le (h.stack_le hmem),
      fun hheight ↦ Nat.lt_succ_of_lt (h.heights_lt hheight)⟩
  · next hash height rest hstack =>
    have hheight : height ≤ steps := h.stack_le (hstack ▸ List.mem_cons_self)
    refine ⟨fun hmem ↦ ?_, fun hget ↦ ?_⟩
    · rcases List.mem_append.1 hmem with hchild | hrest
      · obtain ⟨_, _, heq⟩ := List.mem_map.1 hchild
        rw [← (Prod.mk.inj heq).2]
        exact Nat.succ_le_succ hheight
      · exact Nat.le_succ_of_le (h.stack_le (hstack ▸ List.mem_cons_of_mem _ hrest))
    · rw [Std.ExtTreeMap.getElem?_insert] at hget
      split at hget
      · rw [← Option.some.inj hget]
        exact Nat.lt_succ_of_le hheight
      · exact Nat.lt_succ_of_lt (h.heights_lt hget)

theorem Bounded.run {links : HeaderLinks} {bound steps : Nat} {t : HeightTraversal}
    (h : Bounded steps t) {hash : BlockHash} {height : Nat}
    (hheight : (HeightTraversal.run links bound t).heights[hash]? = some height) :
    height < steps + bound := by
  induction bound generalizing steps t with
  | zero => exact h.heights_lt hheight
  | succ bound ih =>
    unfold HeightTraversal.run at hheight
    split at hheight
    · exact Nat.lt_of_lt_of_le (h.heights_lt hheight) (Nat.le_add_right _ _)
    · have hlt := ih h.step hheight
      omega

end HeightTraversal

theorem HeaderLinks.size_ofHeaders_le (headers : List Header) :
    (HeaderLinks.ofHeaders headers).headers.size ≤ headers.length := by
  have hfold (links : HeaderLinks) :
      (headers.foldl HeaderLinks.add links).headers.size ≤ links.headers.size + headers.length := by
    induction headers generalizing links with
    | nil => exact Nat.le_refl _
    | cons header headers ih =>
      have hadd : (links.add header).headers.size ≤ links.headers.size + 1 :=
        Std.ExtTreeMap.size_insert_le
      have hrest := ih (links.add header)
      rw [List.foldl_cons, List.length_cons]
      omega
  have hempty : HeaderLinks.empty.headers.size = 0 := Std.ExtTreeMap.size_empty
  calc
    (HeaderLinks.ofHeaders headers).headers.size ≤
        HeaderLinks.empty.headers.size + headers.length := hfold HeaderLinks.empty
    _ = headers.length := by rw [hempty, Nat.zero_add]

/-- A height is less than the number of headers. -/
theorem Chain.height?_lt {headers : List Header} {hash : BlockHash} {height : Nat}
    (h : (Chain.ofHeaders headers).height? hash = some height) : height < headers.length := by
  have hlt := (HeightTraversal.bounded_start _).run h
  have hsize := HeaderLinks.size_ofHeaders_le headers
  omega

end TxoIndex

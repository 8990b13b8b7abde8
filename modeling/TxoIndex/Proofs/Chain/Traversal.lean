import Mathlib.Data.List.Perm.Subperm
import TxoIndex.Proofs.Chain.Heights

/-!
# Heights by descent

A hash has a height if headers lead to it from a header whose parent is the zero hash. A header is
put among the children of its parent when its name is seen for the first time, so every hash has one
parent, and with it one height at most. The traversal assigns heights of this kind only. If no
headers lead back to the zero hash, it never comes to a hash twice, so it comes to an end, and then
it has assigned all heights.

More headers add children and take none away. So heights stay what they are when there are more
headers, and a hash can only gain one.
-/

namespace TxoIndex

namespace HeaderLinks

/-! ## Children -/

/-- Every child is a header and the child of one hash, once. -/
structure IsForest (links : HeaderLinks) : Prop where
  mem_headers {hash child : BlockHash} : child ∈ links.childrenOf hash → child ∈ links.headers
  nodup (hash : BlockHash) : (links.childrenOf hash).Nodup
  parent_unique {hash hash' child : BlockHash} : child ∈ links.childrenOf hash →
    child ∈ links.childrenOf hash' → hash = hash'

theorem childrenOf_add (links : HeaderLinks) (header : Header) (hash : BlockHash) :
    (links.add header).childrenOf hash =
      if header.hash ∉ links.headers ∧ hash = header.prev then
        header.hash :: links.childrenOf hash
      else links.childrenOf hash := by
  simp only [childrenOf, add, Std.ExtTreeMap.contains_iff_mem]
  by_cases hmem : header.hash ∈ links.headers
  · simp [hmem]
  · by_cases hhash : hash = header.prev
    · subst hhash
      simp [hmem]
    · simp [hmem, hhash, Std.ExtTreeMap.getD_insert, Ne.symm hhash]

theorem mem_headers_add {links : HeaderLinks} {header : Header} {hash : BlockHash} :
    hash ∈ (links.add header).headers ↔ hash = header.hash ∨ hash ∈ links.headers := by
  rw [add, Std.ExtTreeMap.mem_insert, Std.LawfulEqCmp.compare_eq_iff_eq, @eq_comm _ hash]

theorem childrenOf_subset_add (links : HeaderLinks) (header : Header) (hash : BlockHash) :
    links.childrenOf hash ⊆ (links.add header).childrenOf hash := by
  rw [childrenOf_add]
  split
  · exact List.subset_cons_self _ _
  · exact List.Subset.refl _

theorem mem_childrenOf_add {links : HeaderLinks} {header : Header} {hash child : BlockHash}
    (h : child ∈ (links.add header).childrenOf hash) :
    child ∈ links.childrenOf hash ∨
      (child = header.hash ∧ header.hash ∉ links.headers ∧ hash = header.prev) := by
  rw [childrenOf_add] at h
  split at h
  · next hnew =>
    rcases List.mem_cons.1 h with hchild | hchild
    · exact .inr ⟨hchild, hnew⟩
    · exact .inl hchild
  · exact .inl h

theorem IsForest.add {links : HeaderLinks} (h : links.IsForest) (header : Header) :
    (links.add header).IsForest where
  mem_headers hchild := by
    rw [mem_headers_add]
    rcases mem_childrenOf_add hchild with hold | ⟨hnew, -⟩
    · exact .inr (h.mem_headers hold)
    · exact .inl hnew
  nodup hash := by
    rw [childrenOf_add]
    split
    · next hnew => exact List.nodup_cons.2 ⟨mt h.mem_headers hnew.1, h.nodup hash⟩
    · exact h.nodup hash
  parent_unique hchild hchild' := by
    rcases mem_childrenOf_add hchild with hold | ⟨rfl, hnew, hprev⟩
    · rcases mem_childrenOf_add hchild' with hold' | ⟨rfl, hnew', -⟩
      · exact h.parent_unique hold hold'
      · exact absurd (h.mem_headers hold) hnew'
    · rcases mem_childrenOf_add hchild' with hold' | ⟨-, -, hprev'⟩
      · exact absurd (h.mem_headers hold') hnew
      · rw [hprev, hprev']

theorem isForest_ofHeaders (headers : List Header) : (ofHeaders headers).IsForest := by
  have hfold {links : HeaderLinks} (h : links.IsForest) : (headers.foldl add links).IsForest := by
    induction headers generalizing links with
    | nil => exact h
    | cons header headers ih => exact ih (h.add header)
  apply hfold
  have hnil (hash : BlockHash) : empty.childrenOf hash = [] := Std.ExtTreeMap.getD_empty
  constructor
  · intro hash child hchild
    simp [hnil] at hchild
  · intro hash
    simp [hnil]
  · intro hash hash' child hchild
    simp [hnil] at hchild

theorem mem_headers_ofHeaders {headers : List Header} {hash : BlockHash} :
    hash ∈ (ofHeaders headers).headers ↔ ∃ header ∈ headers, header.hash = hash := by
  have hfold (links : HeaderLinks) : hash ∈ (headers.foldl add links).headers ↔
      (∃ header ∈ headers, header.hash = hash) ∨ hash ∈ links.headers := by
    induction headers generalizing links with
    | nil => simp
    | cons header headers ih =>
      rw [List.foldl_cons, ih, mem_headers_add, @eq_comm _ hash]
      simp only [List.mem_cons, exists_eq_or_imp, or_assoc, or_left_comm]
  have hempty : hash ∉ empty.headers := Std.ExtTreeMap.not_mem_empty
  rw [ofHeaders, hfold, or_iff_left hempty]

theorem childrenOf_subset_append (headers headers' : List Header) (hash : BlockHash) :
    (ofHeaders headers).childrenOf hash ⊆ (ofHeaders (headers ++ headers')).childrenOf hash := by
  rw [ofHeaders, ofHeaders, List.foldl_append]
  generalize headers.foldl add empty = links
  induction headers' generalizing links with
  | nil => exact List.Subset.refl _
  | cons header headers' ih =>
    exact List.Subset.trans (links.childrenOf_subset_add header hash) (ih (links.add header))

/-! ## Heights -/

/-- Headers lead to a hash from a start, in as many steps as its height tells. -/
inductive IsHeight (links : HeaderLinks) : BlockHash → Nat → Prop where
  | start {hash : BlockHash} : hash ∈ links.childrenOf Hash.zero → IsHeight links hash 0
  | child {parent hash : BlockHash} {height : Nat} : IsHeight links parent height →
    hash ∈ links.childrenOf parent → IsHeight links hash (height + 1)

theorem IsHeight.mono {links links' : HeaderLinks}
    (hlinks : ∀ hash, links.childrenOf hash ⊆ links'.childrenOf hash) {hash : BlockHash}
    {height : Nat} (h : links.IsHeight hash height) : links'.IsHeight hash height := by
  induction h with
  | start hmem => exact .start (hlinks _ hmem)
  | child _ hmem ih => exact .child ih (hlinks _ hmem)

theorem IsForest.mem_headers_of_isHeight {links : HeaderLinks} (hforest : links.IsForest)
    {hash : BlockHash} {height : Nat} (h : links.IsHeight hash height) : hash ∈ links.headers := by
  cases h with
  | start hmem => exact hforest.mem_headers hmem
  | child _ hmem => exact hforest.mem_headers hmem

/-- No headers lead back to the zero hash. -/
def IsGrounded (links : HeaderLinks) : Prop := ∀ height, ¬ links.IsHeight Hash.zero height

theorem isGrounded_ofHeaders {headers : List Header}
    (h : ∀ header ∈ headers, header.hash ≠ Hash.zero) : (ofHeaders headers).IsGrounded := by
  intro height hheight
  obtain ⟨header, hmem, hhash⟩ :=
    mem_headers_ofHeaders.1 ((isForest_ofHeaders headers).mem_headers_of_isHeight hheight)
  exact h header hmem hhash

theorem IsHeight.unique {links : HeaderLinks} (hforest : links.IsForest)
    (hgrounded : links.IsGrounded) {hash : BlockHash} {height height' : Nat}
    (h : links.IsHeight hash height) (h' : links.IsHeight hash height') : height = height' := by
  induction h generalizing height' with
  | start hmem =>
    cases h' with
    | start => rfl
    | child hparent hmem' =>
      rw [← hforest.parent_unique hmem hmem'] at hparent
      exact absurd hparent (hgrounded _)
  | child hparent hmem ih =>
    cases h' with
    | start hmem' =>
      rw [hforest.parent_unique hmem hmem'] at hparent
      exact absurd hparent (hgrounded _)
    | child hparent' hmem' =>
      rw [← hforest.parent_unique hmem hmem'] at hparent'
      rw [ih hparent']

end HeaderLinks

/-! ## The traversal -/

namespace HeightTraversal

variable {links : HeaderLinks} {t : HeightTraversal}

/-- The heights that are assigned, or will be next, are heights. -/
structure Sound (links : HeaderLinks) (t : HeightTraversal) : Prop where
  stack {hash : BlockHash} {height : Nat} : (hash, height) ∈ t.stack → links.IsHeight hash height
  heights {hash : BlockHash} {height : Nat} : t.heights[hash]? = some height →
    links.IsHeight hash height

theorem sound_start (links : HeaderLinks) : Sound links (start links) where
  stack hmem := by
    obtain ⟨root, hroot, heq⟩ := List.mem_map.1 hmem
    obtain ⟨rfl, rfl⟩ := Prod.mk.inj heq
    exact .start hroot
  heights h := by
    simp [start] at h

theorem Sound.step (h : Sound links t) : Sound links (t.step links) := by
  unfold HeightTraversal.step
  split
  · exact h
  · next hash height rest hstack =>
    have hheight : links.IsHeight hash height := h.stack (hstack ▸ List.mem_cons_self)
    refine ⟨fun hmem ↦ ?_, fun hget ↦ ?_⟩
    · rcases List.mem_append.1 hmem with hnext | hrest
      · obtain ⟨child, hchild, heq⟩ := List.mem_map.1 hnext
        obtain ⟨rfl, rfl⟩ := Prod.mk.inj heq
        exact .child hheight hchild
      · exact h.stack (hstack ▸ List.mem_cons_of_mem _ hrest)
    · rw [Std.ExtTreeMap.getElem?_insert] at hget
      split at hget
      · next heq =>
        rwa [← Std.LawfulEqCmp.eq_of_compare heq, ← Option.some.inj hget]
      · exact h.heights hget

theorem Sound.run (h : Sound links t) (bound : Nat) : Sound links (t.run links bound) := by
  induction bound generalizing t with
  | zero => exact h
  | succ bound ih =>
    unfold HeightTraversal.run
    split
    · exact h
    · exact ih h.step

/-- The hashes to be visited are different and were not visited before. They and the visited hashes
are the children of the zero hash and of the visited hashes. -/
structure Orderly (links : HeaderLinks) (t : HeightTraversal) : Prop where
  nodup : (t.stack.map Prod.fst).Nodup
  notMem {hash : BlockHash} : hash ∈ t.stack.map Prod.fst → hash ∉ t.heights
  seen_iff {hash : BlockHash} : hash ∈ t.heights ∨ hash ∈ t.stack.map Prod.fst ↔
    ∃ parent, (parent = Hash.zero ∨ parent ∈ t.heights) ∧ hash ∈ links.childrenOf parent

theorem map_fst_children (children : List BlockHash) (height : Nat) :
    (children.map (·, height)).map Prod.fst = children := by
  rw [List.map_map]
  exact List.map_id' children

theorem orderly_start (hforest : links.IsForest) : Orderly links (start links) := by
  have hnone (hash : BlockHash) : hash ∉ (start links).heights := Std.ExtTreeMap.not_mem_empty
  have hstack : (start links).stack.map Prod.fst = links.childrenOf Hash.zero :=
    map_fst_children _ 0
  refine ⟨?_, fun _ ↦ hnone _, ?_⟩
  · rw [hstack]
    exact hforest.nodup _
  · intro hash
    simp only [hnone, hstack, false_or, or_false, exists_eq_left]

theorem Orderly.step (hforest : links.IsForest) (hgrounded : links.IsGrounded)
    (hsound : Sound links t) (h : Orderly links t) : Orderly links (t.step links) := by
  unfold HeightTraversal.step
  split
  · exact h
  next hash height rest hstack =>
  obtain ⟨hnodup, hnotMem, hseen⟩ := h
  have hheight : links.IsHeight hash height := hsound.stack (hstack ▸ List.mem_cons_self)
  have hfresh : hash ∉ t.heights := hnotMem (hstack ▸ List.mem_cons_self)
  have hzero : hash ≠ Hash.zero := fun heq ↦ hgrounded height (heq ▸ hheight)
  -- No child was seen before, since its only parent is visited just now.
  have hchildren {child : BlockHash} (hchild : child ∈ links.childrenOf hash) :
      ¬ (child ∈ t.heights ∨ child ∈ t.stack.map Prod.fst) := by
    rw [hseen]
    rintro ⟨parent, hparent, hmem⟩
    rw [hforest.parent_unique hmem hchild] at hparent
    exact hparent.elim hzero hfresh
  have hvisited (x : BlockHash) : x ∈ t.heights.insert hash height ↔ x = hash ∨ x ∈ t.heights := by
    rw [Std.ExtTreeMap.mem_insert, Std.LawfulEqCmp.compare_eq_iff_eq, @eq_comm _ hash]
  rw [hstack, List.map_cons] at hnodup hnotMem hseen hchildren
  obtain ⟨htop, hnodup⟩ := List.nodup_cons.1 hnodup
  have hstack' : ((links.childrenOf hash).map (·, height + 1) ++ rest).map Prod.fst =
      links.childrenOf hash ++ rest.map Prod.fst := by
    rw [List.map_append, map_fst_children]
  constructor
  · rw [hstack', List.nodup_append]
    refine ⟨hforest.nodup hash, hnodup, fun child hchild x hx heq ↦ ?_⟩
    exact hchildren hchild (.inr (List.mem_cons_of_mem _ (heq ▸ hx)))
  · intro x hx
    rw [hstack', List.mem_append] at hx
    rw [hvisited, not_or]
    rcases hx with hchild | hrest
    · refine ⟨?_, fun hmem ↦ hchildren hchild (.inl hmem)⟩
      rintro rfl
      exact hchildren hchild (.inr List.mem_cons_self)
    · refine ⟨?_, hnotMem (List.mem_cons_of_mem _ hrest)⟩
      rintro rfl
      exact htop hrest
  · intro x
    rw [hstack']
    calc
      _ ↔ x ∈ links.childrenOf hash ∨ x ∈ t.heights ∨ x ∈ hash :: rest.map Prod.fst := by
        rw [hvisited, List.mem_append, List.mem_cons]
        grind
      _ ↔ x ∈ links.childrenOf hash ∨
          ∃ parent, (parent = Hash.zero ∨ parent ∈ t.heights) ∧ x ∈ links.childrenOf parent := by
        rw [hseen]
      _ ↔ _ := by
        simp only [hvisited]
        grind

/-- The visited hashes are headers, and so is the hash to be visited next. -/
theorem Sound.size_heights_lt (hforest : links.IsForest) (h : Sound links t) {hash : BlockHash}
    {height : Nat} (htop : (hash, height) ∈ t.stack) (hfresh : hash ∉ t.heights) :
    t.heights.size < links.headers.size := by
  have hkeys : hash :: t.heights.keys ⊆ links.headers.keys := by
    apply List.cons_subset.2
    refine ⟨?_, fun x hx ↦ ?_⟩
    · exact Std.ExtTreeMap.mem_keys.2 (hforest.mem_headers_of_isHeight (h.stack htop))
    · rw [Std.ExtTreeMap.mem_keys, Std.ExtTreeMap.mem_iff_isSome_getElem?] at hx
      obtain ⟨height', hheight'⟩ := Option.isSome_iff_exists.1 hx
      exact Std.ExtTreeMap.mem_keys.2 (hforest.mem_headers_of_isHeight (h.heights hheight'))
  have hnodup : (hash :: t.heights.keys).Nodup :=
    List.nodup_cons.2 ⟨mt Std.ExtTreeMap.mem_keys.1 hfresh, Std.ExtTreeMap.nodup_keys⟩
  have hlength := (hnodup.subperm hkeys).length_le
  rw [List.length_cons, Std.ExtTreeMap.length_keys, Std.ExtTreeMap.length_keys] at hlength
  exact hlength

/-- The traversal comes to an end, in good order, if it may visit every header. -/
theorem Orderly.run (hforest : links.IsForest) (hgrounded : links.IsGrounded) {bound : Nat}
    (hsound : Sound links t) (h : Orderly links t)
    (hbound : links.headers.size ≤ t.heights.size + bound) :
    Orderly links (t.run links bound) ∧ (t.run links bound).stack = [] := by
  -- While a hash is to be visited, fewer hashes than headers were visited.
  have hsize {t : HeightTraversal} (hsound : Sound links t) (h : Orderly links t)
      {top : BlockHash × Nat} {rest : List (BlockHash × Nat)} (hstack : t.stack = top :: rest) :
      top.1 ∉ t.heights ∧ t.heights.size < links.headers.size := by
    have hmem : top ∈ t.stack := hstack ▸ List.mem_cons_self
    have hfresh : top.1 ∉ t.heights := h.notMem (List.mem_map_of_mem hmem)
    exact ⟨hfresh, hsound.size_heights_lt hforest hmem hfresh⟩
  induction bound generalizing t with
  | zero =>
    refine ⟨h, ?_⟩
    cases hstack : t.stack with
    | nil => exact hstack
    | cons top rest => exact absurd (hsize hsound h hstack).2 (by omega)
  | succ bound ih =>
    unfold HeightTraversal.run
    cases hstack : t.stack with
    | nil => exact ⟨h, hstack⟩
    | cons top rest =>
      have hgrown : (t.step links).heights.size = t.heights.size + 1 := by
        rw [HeightTraversal.step, hstack, Std.ExtTreeMap.size_insert]
        exact if_neg (mt Std.ExtTreeMap.contains_iff_mem.1 (hsize hsound h hstack).1)
      exact ih hsound.step (h.step hforest hgrounded hsound) (by omega)

end HeightTraversal

/-! ## Chains -/

namespace Chain

variable {headers : List Header} {hash : BlockHash} {height : Nat}

theorem isHeight_of_height? (h : (ofHeaders headers).height? hash = some height) :
    (HeaderLinks.ofHeaders headers).IsHeight hash height :=
  ((HeightTraversal.sound_start _).run _).heights h

/-- All heights are assigned. -/
theorem height?_eq_some_iff (hgrounded : (HeaderLinks.ofHeaders headers).IsGrounded) :
    (ofHeaders headers).height? hash = some height ↔
      (HeaderLinks.ofHeaders headers).IsHeight hash height := by
  have hforest := HeaderLinks.isForest_ofHeaders headers
  obtain ⟨hend, hstack⟩ := (HeightTraversal.orderly_start hforest).run hforest hgrounded
    (HeightTraversal.sound_start _) (Nat.le_add_left _ _)
  have hvisited {parent hash : BlockHash} (hparent : parent = Hash.zero ∨
      ∃ height, (ofHeaders headers).height? parent = some height)
      (hmem : hash ∈ (HeaderLinks.ofHeaders headers).childrenOf parent) :
      ∃ height, (ofHeaders headers).height? hash = some height := by
    have hseen := @HeightTraversal.Orderly.seen_iff _ _ hend hash
    simp only [hstack, List.map_nil, List.not_mem_nil, or_false,
      Std.ExtTreeMap.mem_iff_isSome_getElem?, Option.isSome_iff_exists] at hseen
    exact hseen.2 ⟨parent, hparent, hmem⟩
  refine ⟨isHeight_of_height?, fun h ↦ ?_⟩
  suffices hsome : ∃ height, (ofHeaders headers).height? hash = some height by
    obtain ⟨height', hheight'⟩ := hsome
    rw [hheight', (isHeight_of_height? hheight').unique hforest hgrounded h]
  induction h with
  | start hmem => exact hvisited (.inl rfl) hmem
  | child _ hmem ih => exact hvisited (.inr ih) hmem

/-- A height does not change when there are more headers. -/
theorem height?_append (headers' : List Header)
    (hgrounded : (HeaderLinks.ofHeaders (headers ++ headers')).IsGrounded)
    (h : (ofHeaders headers).height? hash = some height) :
    (ofHeaders (headers ++ headers')).height? hash = some height :=
  (height?_eq_some_iff hgrounded).2
    ((isHeight_of_height? h).mono (HeaderLinks.childrenOf_subset_append headers headers'))

end Chain

end TxoIndex

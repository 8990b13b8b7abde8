import Mathlib.Data.Finset.Card
import Mathlib.Data.Set.Function
import TxoIndex.Proofs.Chain.Ending

/-!
# Links of the same headers

A header whose name was seen before does not become the child of another hash. So the links depend
on the order of the headers only where two different ones have the same name. If there are none, a
name is a child of the parent that its header names, whatever the order; more headers give more
children, and lists of the same headers give the same heights.
-/

namespace TxoIndex

namespace HeaderLinks

variable {headers headers' : List Header}

/-! ## Children -/

theorem ofHeaders_concat (headers : List Header) (header : Header) :
    ofHeaders (headers ++ [header]) = (ofHeaders headers).add header := by
  rw [ofHeaders, ofHeaders, List.foldl_append]
  rfl

theorem exists_header_of_mem_childrenOf {hash child : BlockHash}
    (h : child ∈ (ofHeaders headers).childrenOf hash) :
    ∃ header ∈ headers, header.hash = child ∧ header.prev = hash := by
  induction headers using List.reverseRecOn with
  | nil =>
    have hnil : (ofHeaders []).childrenOf hash = [] := Std.ExtTreeMap.getD_empty
    rw [hnil] at h
    cases h
  | append_singleton headers header ih =>
    rw [ofHeaders_concat] at h
    rcases mem_childrenOf_add h with hold | ⟨hname, -, hprev⟩
    · obtain ⟨found, hfound, hparent⟩ := ih hold
      exact ⟨found, List.mem_append_left _ hfound, hparent⟩
    · exact ⟨header, List.mem_append_right _ List.mem_cons_self, hname.symm, hprev.symm⟩

/-- A header is the child of the parent that it names, unless another one has its name. -/
theorem hash_mem_childrenOf (hnames : Set.InjOn Header.hash {header | header ∈ headers})
    {header : Header} (h : header ∈ headers) :
    header.hash ∈ (ofHeaders headers).childrenOf header.prev := by
  induction headers using List.reverseRecOn with
  | nil => cases h
  | append_singleton headers last ih =>
    have hnames' : Set.InjOn Header.hash {header | header ∈ headers} :=
      hnames.mono fun _ ↦ List.mem_append_left [last]
    have hbefore (hmem : header ∈ headers) :
        header.hash ∈ (ofHeaders (headers ++ [last])).childrenOf header.prev :=
      childrenOf_subset_append headers [last] _ (ih hnames' hmem)
    rcases List.mem_append.1 h with hmem | hlast
    · exact hbefore hmem
    obtain rfl : header = last := List.mem_singleton.1 hlast
    by_cases hseen : header.hash ∈ (ofHeaders headers).headers
    · obtain ⟨same, hsame, hhash⟩ := mem_headers_ofHeaders.1 hseen
      have heq : same = header := hnames (List.mem_append_left _ hsame) h hhash
      exact hbefore (heq ▸ hsame)
    · rw [ofHeaders_concat, childrenOf_add, if_pos ⟨hseen, rfl⟩]
      exact List.mem_cons_self

theorem mem_childrenOf_ofHeaders (hnames : Set.InjOn Header.hash {header | header ∈ headers})
    {hash child : BlockHash} : child ∈ (ofHeaders headers).childrenOf hash ↔
      ∃ header ∈ headers, header.hash = child ∧ header.prev = hash := by
  refine ⟨exists_header_of_mem_childrenOf, ?_⟩
  rintro ⟨header, hmem, rfl, rfl⟩
  exact hash_mem_childrenOf hnames hmem

theorem childrenOf_subset_of_subset (hnames : Set.InjOn Header.hash {header | header ∈ headers'})
    (hsubset : headers ⊆ headers') (hash : BlockHash) :
    (ofHeaders headers).childrenOf hash ⊆ (ofHeaders headers').childrenOf hash := by
  intro child hchild
  obtain ⟨header, hmem, hparent⟩ := exists_header_of_mem_childrenOf hchild
  exact (mem_childrenOf_ofHeaders hnames).2 ⟨header, hsubset hmem, hparent⟩

/-! ## Heights -/

theorem IsHeight.of_subset (hnames : Set.InjOn Header.hash {header | header ∈ headers'})
    (hsubset : headers ⊆ headers') {hash : BlockHash} {height : Nat}
    (h : (ofHeaders headers).IsHeight hash height) : (ofHeaders headers').IsHeight hash height :=
  h.mono (childrenOf_subset_of_subset hnames hsubset)

theorem IsGrounded.of_subset (hnames : Set.InjOn Header.hash {header | header ∈ headers'})
    (hsubset : headers ⊆ headers') (h : (ofHeaders headers').IsGrounded) :
    (ofHeaders headers).IsGrounded :=
  fun height hheight ↦ h height (hheight.of_subset hnames hsubset)

/-! ## Sizes -/

/-- There are as many linked headers as names. -/
theorem size_ofHeaders (headers : List Header) :
    (ofHeaders headers).headers.size = (headers.map Header.hash).toFinset.card := by
  have hkeys : (ofHeaders headers).headers.keys.toFinset = (headers.map Header.hash).toFinset := by
    ext hash
    rw [List.mem_toFinset, List.mem_toFinset, Std.ExtTreeMap.mem_keys, mem_headers_ofHeaders,
      List.mem_map]
  rw [← hkeys, List.toFinset_card_of_nodup Std.ExtTreeMap.nodup_keys, Std.ExtTreeMap.length_keys]

/-- More headers link more, unless they repeat the names that are there. -/
theorem size_ofHeaders_le_of_subset (hsubset : headers ⊆ headers') :
    (ofHeaders headers).headers.size ≤ (ofHeaders headers').headers.size ∧
      ((ofHeaders headers).headers.size = (ofHeaders headers').headers.size ↔
        ∀ header ∈ headers', header.hash ∈ headers.map Header.hash) := by
  have hnames : (headers.map Header.hash).toFinset ⊆ (headers'.map Header.hash).toFinset := by
    intro hash
    rw [List.mem_toFinset, List.mem_toFinset]
    exact fun hmem ↦ List.map_subset _ hsubset hmem
  rw [size_ofHeaders, size_ofHeaders]
  refine ⟨Finset.card_le_card hnames, fun hcard header hmem ↦ ?_, fun hall ↦ ?_⟩
  · have hfull := Finset.eq_of_subset_of_card_le hnames hcard.ge
    rw [← List.mem_toFinset, hfull, List.mem_toFinset]
    exact List.mem_map_of_mem hmem
  · apply congrArg Finset.card
    apply hnames.antisymm
    intro hash
    rw [List.mem_toFinset, List.mem_toFinset]
    intro hhash
    obtain ⟨header, hmem, rfl⟩ := List.mem_map.1 hhash
    exact hall header hmem

end HeaderLinks

/-! ## Chains -/

namespace Chain

variable {headers headers' : List Header}

/-- Two chains of as many headers, with the same heights and with tips of the same height. -/
structure Agrees (c c' : Chain) : Prop where
  size_eq : c.size = c'.size
  height?_eq (hash : BlockHash) : c.height? hash = c'.height? hash
  tipHeight_eq : c.tip.map Prod.snd = c'.tip.map Prod.snd

/-- The heights of some of the headers are those of all of them. -/
theorem height?_of_subset (hnames : Set.InjOn Header.hash {header | header ∈ headers'})
    (hgrounded : (HeaderLinks.ofHeaders headers').IsGrounded) (hsubset : headers ⊆ headers')
    {hash : BlockHash} {height : Nat} (h : (ofHeaders headers).height? hash = some height) :
    (ofHeaders headers').height? hash = some height :=
  (height?_eq_some_iff hgrounded).2 ((isHeight_of_height? h).of_subset hnames hsubset)

/-- Lists of the same headers have the same chain, up to which of the highest blocks is its tip. -/
theorem agrees_of_subset (hnames : Set.InjOn Header.hash {header | header ∈ headers'})
    (hgrounded : (HeaderLinks.ofHeaders headers').IsGrounded) (hsubset : headers ⊆ headers')
    (hsubset' : headers' ⊆ headers) : (ofHeaders headers).Agrees (ofHeaders headers') := by
  have hgrounded' : (HeaderLinks.ofHeaders headers).IsGrounded :=
    hgrounded.of_subset hnames hsubset
  have hheights (hash : BlockHash) :
      (ofHeaders headers).height? hash = (ofHeaders headers').height? hash := by
    apply Option.ext
    intro height
    refine ⟨height?_of_subset hnames hgrounded hsubset, fun h ↦ ?_⟩
    exact height?_of_subset (hnames.mono hsubset) hgrounded' hsubset' h
  refine ⟨?_, hheights, tipHeight_congr hgrounded' hgrounded hheights⟩
  rw [size, size, ofHeaders, ofHeaders, (HeaderLinks.size_ofHeaders_le_of_subset hsubset).2]
  exact fun header hmem ↦ List.mem_map_of_mem (hsubset' hmem)

/-- The chain of some of the headers is that of all of them only if none is missing. -/
theorem agrees_iff_of_subset (hnames : Set.InjOn Header.hash {header | header ∈ headers'})
    (hgrounded : (HeaderLinks.ofHeaders headers').IsGrounded) (hsubset : headers ⊆ headers') :
    (ofHeaders headers).Agrees (ofHeaders headers') ↔ headers' ⊆ headers := by
  refine ⟨fun hagrees header hmem ↦ ?_, agrees_of_subset hnames hgrounded hsubset⟩
  have hall := (HeaderLinks.size_ofHeaders_le_of_subset hsubset).2.1 hagrees.size_eq
  obtain ⟨same, hsame, hhash⟩ := List.mem_map.1 (hall header hmem)
  have heq : same = header := hnames (hsubset hsame) hmem hhash
  exact heq ▸ hsame

end Chain

end TxoIndex

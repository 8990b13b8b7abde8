import Mathlib.Data.List.Chain
import TxoIndex.Proofs.Chain.Iterations

/-!
# Lines of headers

A line is a list of headers of which the first has the zero hash for its parent and every other one
the header before it. If different headers have different names, a block has a height exactly if a
line of the given headers ends with it, and the height is the number of the headers before it. What
no line leads to has no height: what lacks an ancestor, and what is its own ancestor.

So the heights, the number of headers and the height of the tip are told by the set of the headers.
Which of several highest blocks is the tip is told by their order.
-/

namespace TxoIndex

/-- Headers that lead to a hash from the zero hash, each of them the parent of the next one. -/
structure IsLine (line : List Header) (hash : BlockHash) : Prop where
  start : ∀ header ∈ line.head?, header.prev = Hash.zero
  linked : line.IsChain fun parent child ↦ child.prev = parent.hash
  ends : line.getLast?.map Header.hash = some hash

namespace IsLine

variable {line : List Header} {header : Header}

theorem singleton (h : header.prev = Hash.zero) : IsLine [header] header.hash where
  start := by
    rintro _ ⟨rfl⟩
    exact h
  linked := List.isChain_singleton header
  ends := rfl

/-- A line goes on with a child of its last header. -/
theorem concat (h : IsLine line header.prev) : IsLine (line ++ [header]) header.hash := by
  obtain ⟨parent, hparent, hhash⟩ := Option.map_eq_some_iff.1 h.ends
  have hne : line ≠ [] := by
    rintro rfl
    cases hparent
  constructor
  · rw [List.head?_append_of_ne_nil _ hne]
    exact h.start
  · refine List.isChain_append.2 ⟨h.linked, List.isChain_singleton header, ?_⟩
    rw [hparent]
    rintro _ ⟨rfl⟩ _ ⟨rfl⟩
    exact hhash.symm
  · rw [List.getLast?_concat]
    rfl

/-- A line ends with a child of the zero hash or of the last header of a shorter line. -/
theorem of_concat {hash : BlockHash} (h : IsLine (line ++ [header]) hash) :
    header.hash = hash ∧ (line = [] ∧ header.prev = Hash.zero ∨ IsLine line header.prev) := by
  have hhash : header.hash = hash := by
    have hends := h.ends
    rw [List.getLast?_concat] at hends
    exact Option.some.inj hends
  refine ⟨hhash, ?_⟩
  rcases line.eq_nil_or_concat' with rfl | ⟨before, parent, rfl⟩
  · exact .inl ⟨rfl, h.start header rfl⟩
  have hne : before ++ [parent] ≠ [] := List.append_ne_nil_of_right_ne_nil _ (List.cons_ne_nil _ _)
  obtain ⟨hlinked, -, hlast⟩ := List.isChain_append.1 h.linked
  refine .inr ⟨?_, hlinked, ?_⟩
  · have hstart := h.start
    rwa [List.head?_append_of_ne_nil _ hne] at hstart
  · rw [List.getLast?_concat, hlast parent List.getLast?_concat header rfl]
    rfl

end IsLine

namespace HeaderLinks

variable {headers : List Header} {hash : BlockHash} {height : Nat}

theorem IsHeight.exists_line (h : (ofHeaders headers).IsHeight hash height) :
    ∃ line ⊆ headers, line.length = height + 1 ∧ IsLine line hash := by
  induction h with
  | start hmem =>
    obtain ⟨header, hheader, rfl, hprev⟩ := exists_header_of_mem_childrenOf hmem
    exact ⟨[header], (List.singleton_sublist.2 hheader).subset, rfl, .singleton hprev⟩
  | child _ hmem ih =>
    obtain ⟨line, hline, hlength, hends⟩ := ih
    obtain ⟨header, hheader, rfl, rfl⟩ := exists_header_of_mem_childrenOf hmem
    refine ⟨line ++ [header], ?_, ?_, hends.concat⟩
    · exact List.append_subset.2 ⟨hline, (List.singleton_sublist.2 hheader).subset⟩
    · rw [List.length_append, List.length_singleton, hlength]

theorem IsHeight.of_line (hnames : Set.InjOn Header.hash {header | header ∈ headers})
    {line : List Header} (hline : line ⊆ headers) (hlength : line.length = height + 1)
    (h : IsLine line hash) : (ofHeaders headers).IsHeight hash height := by
  induction line using List.reverseRecOn generalizing hash height with
  | nil => cases hlength
  | append_singleton line header ih =>
    obtain ⟨hline, hheader⟩ := List.append_subset.1 hline
    rw [List.length_append, List.length_singleton, Nat.add_right_cancel_iff] at hlength
    obtain ⟨rfl, hparent⟩ := h.of_concat
    have hchild := hash_mem_childrenOf hnames (hheader List.mem_cons_self)
    rcases hparent with ⟨rfl, hprev⟩ | hends
    · obtain rfl : 0 = height := hlength
      exact .start (hprev ▸ hchild)
    · obtain ⟨before, rfl⟩ : ∃ before, height = before + 1 := by
        refine Nat.exists_eq_succ_of_ne_zero ?_
        rintro rfl
        rw [List.eq_nil_of_length_eq_zero hlength] at hends
        cases hends.ends
      exact .child (ih hline hlength hends) hchild

/-- A hash has a height if a line of headers leads to it. -/
theorem isHeight_iff_exists_line (hnames : Set.InjOn Header.hash {header | header ∈ headers}) :
    (ofHeaders headers).IsHeight hash height ↔
      ∃ line ⊆ headers, line.length = height + 1 ∧ IsLine line hash := by
  refine ⟨IsHeight.exists_line, ?_⟩
  rintro ⟨line, hline, hlength, hends⟩
  exact .of_line hnames hline hlength hends

/-- There are as many linked headers as different ones. -/
theorem size_ofHeaders_eq_card (hnames : Set.InjOn Header.hash {header | header ∈ headers}) :
    (ofHeaders headers).headers.size = headers.toFinset.card := by
  have himage : (headers.map Header.hash).toFinset = headers.toFinset.image Header.hash := by
    ext hash
    simp only [List.mem_toFinset, List.mem_map, Finset.mem_image]
  rw [size_ofHeaders, himage]
  apply Finset.card_image_of_injOn
  rw [List.coe_toFinset]
  exact hnames

end HeaderLinks

namespace Chain

variable {headers : List Header}

/-- Heights are told by the lines of the headers and the tip is a highest one of them, unless
different headers have one name or some header has the zero hash for its name. Repeated headers are
counted once, and only the choice among the highest blocks depends on the order. -/
theorem heights_and_tip (hnames : Set.InjOn Header.hash {header | header ∈ headers})
    (hzero : ∀ header ∈ headers, header.hash ≠ Hash.zero) :
    (∀ hash height, (ofHeaders headers).height? hash = some height ↔
      ∃ line ⊆ headers, line.length = height + 1 ∧ IsLine line hash) ∧
    (ofHeaders headers).size = headers.toFinset.card ∧
    ((ofHeaders headers).tip = none ↔
      ∀ header ∈ headers, (ofHeaders headers).height? header.hash = none) ∧
    (∀ best top, (ofHeaders headers).tip = some (best, top) →
      (∃ header ∈ headers, header.hash = best) ∧
      (ofHeaders headers).height? best = some top ∧
      ∀ hash height, (ofHeaders headers).height? hash = some height → height ≤ top) ∧
    ∀ headers' ⊆ headers, headers ⊆ headers' → (ofHeaders headers').Agrees (ofHeaders headers) := by
  have hgrounded := HeaderLinks.isGrounded_ofHeaders hzero
  have htop := topped_ofHeaders headers
  have hheader {hash : BlockHash} {height : Nat}
      (h : (ofHeaders headers).height? hash = some height) :
      ∃ header ∈ headers, header.hash = hash :=
    HeaderLinks.mem_headers_ofHeaders.1
      ((HeaderLinks.isForest_ofHeaders headers).mem_headers_of_isHeight (isHeight_of_height? h))
  have htip {best : BlockHash} {top : Nat} (h : (ofHeaders headers).tip = some (best, top)) :
      (ofHeaders headers).height? best = some top :=
    (height?_eq_some_iff hgrounded).2 (htop.isHeight h)
  refine ⟨fun hash height ↦ ?_, HeaderLinks.size_ofHeaders_eq_card hnames, ⟨?_, ?_⟩, ?_, ?_⟩
  · rw [height?_eq_some_iff hgrounded, HeaderLinks.isHeight_iff_exists_line hnames]
  · intro hnone header _
    apply Option.eq_none_iff_forall_ne_some.2
    intro height hheight
    obtain ⟨best, top, hsome, -⟩ := htop.exists_le hheight
    rw [show (ofHeaders headers).tip = some (best, top) from hsome] at hnone
    cases hnone
  · intro hnone
    apply Option.eq_none_iff_forall_ne_some.2
    rintro ⟨best, top⟩ hsome
    obtain ⟨header, hmem, rfl⟩ := hheader (htip hsome)
    have hheight := htip hsome
    rw [hnone header hmem] at hheight
    cases hheight
  · intro best top hsome
    have hheight := htip hsome
    have hgreatest := (tipHeight_eq_some_iff hgrounded).1 (congrArg (Option.map Prod.snd) hsome)
    exact ⟨hheader hheight, hheight, hgreatest.2⟩
  · intro headers' hsubset hsubset'
    exact agrees_of_subset hnames hgrounded hsubset hsubset'

theorem heights_and_tip_ofFork :
    Set.InjOn Header.hash {header | header ∈ fork} ∧
      (∀ header ∈ fork, header.hash ≠ Hash.zero) ∧
      (ofHeaders fork).height? fork[3].hash = some 0 ∧
      (ofHeaders fork).height? fork[4].hash = some 1 ∧ (ofHeaders fork).size = 4 ∧
      (∃ best top, (ofHeaders fork).tip = some (best, top) ∧ 1 ≤ top) ∧
      (ofHeaders fork.reverse).Agrees (ofHeaders fork) := by
  have hnodup : (fork.tail.map Header.hash).Nodup := (List.nodup_cons.1 nodup_names_fork).2
  have hnames : Set.InjOn Header.hash {header | header ∈ fork} := by
    intro header hmem header' hmem'
    exact List.inj_on_of_nodup_map hnodup (mem_tail_fork.2 hmem) (mem_tail_fork.2 hmem')
  have hcard : fork.toFinset.card = 4 := by
    have htail : fork.toFinset = fork.tail.toFinset := by
      ext header
      rw [List.mem_toFinset, List.mem_toFinset, mem_tail_fork]
    rw [htail, List.toFinset_card_of_nodup hnodup.of_map]
    rfl
  have hroot : IsLine [fork[3]] fork[3].hash := .singleton rfl
  have hleft : IsLine ([fork[3]] ++ [fork[4]]) fork[4].hash := IsLine.concat hroot
  have hroot_subset : [fork[3]] ⊆ fork := (List.singleton_sublist.2 (List.getElem_mem _)).subset
  have hleft_subset : [fork[3]] ++ [fork[4]] ⊆ fork :=
    List.append_subset.2 ⟨hroot_subset, (List.singleton_sublist.2 (List.getElem_mem _)).subset⟩
  obtain ⟨hheights, hsize, htip, hgreatest, hagrees⟩ :=
    heights_and_tip hnames hash_ne_zero_of_mem_fork
  have hheight : (ofHeaders fork).height? fork[4].hash = some 1 :=
    (hheights _ 1).2 ⟨_, hleft_subset, rfl, hleft⟩
  refine ⟨hnames, hash_ne_zero_of_mem_fork, (hheights _ 0).2 ⟨_, hroot_subset, rfl, hroot⟩,
    hheight, hsize.trans hcard, ?_, ?_⟩
  · cases hsome : (ofHeaders fork).tip with
    | none =>
      have hnone := htip.1 hsome fork[4] (List.getElem_mem _)
      rw [hheight] at hnone
      cases hnone
    | some tip =>
      obtain ⟨best, top⟩ := tip
      exact ⟨best, top, rfl, (hgreatest best top hsome).2.2 _ 1 hheight⟩
  · have hsame (header : Header) : header ∈ fork.reverse ↔ header ∈ fork := List.mem_reverse
    exact hagrees fork.reverse (fun header ↦ (hsame header).1) (fun header ↦ (hsame header).2)

end Chain

end TxoIndex

import TxoIndex.Proofs.BlockFile.Headers
import TxoIndex.Proofs.Chain.Linking
import TxoIndex.Proofs.Preload.Counting
import TxoIndex.Proofs.Preload.Growth

/-!
# The chain of the stored headers

A preload computes heights from the headers that it reads past the bodies of the blocks, and stores
the headers of the blocks that it accepts. A record that is cut short behind its header is the
difference: its header was read, but there is no block. Where no such header is missing in the
store, the stored headers give back the chain of the headers pass. Otherwise its descendants have no
height in the chain of the stored headers, although their outputs were stored with one.
-/

namespace TxoIndex

/-- A list of the results of a function has no other members. -/
theorem mem_iff_of_forall₂_eq_ok {ε α β : Type} {f : α → Except ε β} {xs : List α} {ys : List β}
    (h : List.Forall₂ (fun x y ↦ f x = .ok y) xs ys) {y : β} : y ∈ ys ↔ ∃ x ∈ xs, f x = .ok y := by
  induction h with
  | nil => simp
  | cons hxy _ ih =>
    rw [List.mem_cons, ih, List.exists_mem_cons_iff, hxy, Except.ok.injEq, eq_comm]

/-! ## Headers of a file -/

namespace BlockFile

variable {magic : Magic} {file : Bytes} {header : Header}

/-- Whether this is the header of a record that is cut short behind it, where the reader of blocks
stops. -/
def IsCutHeader (magic : Magic) (file : Bytes) (header : Header) : Prop :=
  ∃ last length body, Yields (nextBlock magic) (.start file) (blocks magic file) last ∧
    CutShort magic last length body ∧ Header.ofBlockBytes body = .ok header

theorem size_le_of_ofBlockBytes {bs : Bytes} (h : Header.ofBlockBytes bs = .ok header) :
    Header.size ≤ bs.length := by
  obtain ⟨rest, rfl⟩ := Header.ofBlockBytes_eq_ok_iff.1 h
  rw [List.length_append, Header.length_encode]
  exact Nat.le_add_right _ _

theorem HeadersOf.mem_iff {blocks : List Bytes} {headers : List Header}
    (h : HeadersOf blocks headers) :
    header ∈ headers ↔ ∃ block ∈ blocks, Header.ofBlockBytes block = .ok header := by
  rw [mem_iff_of_forall₂_eq_ok h]
  apply exists_congr
  intro block
  rw [List.mem_filter, decide_eq_true_iff, and_assoc]
  apply and_congr_right
  intro _
  exact and_iff_right_of_imp size_le_of_ofBlockBytes

/-- The headers of a file are those of its blocks, and the one of a record that is cut short. -/
theorem mem_headers_iff : header ∈ headers magic file ↔
    (∃ block ∈ blocks magic file, Header.ofBlockBytes block = .ok header) ∨
      IsCutHeader magic file header := by
  -- The headers behind the last block are the same for every way to come there.
  have hsplit {last : Reader}
      (hsteps : Yields (nextBlock magic) (.start file) (blocks magic file) last) :
      header ∈ headers magic file ↔
        (∃ block ∈ blocks magic file, Header.ofBlockBytes block = .ok header) ∨
          header ∈ (drainHeaders magic last).1 := by
    obtain ⟨front, hfront, hdrain⟩ := drainHeaders_of_yields hsteps
    rw [headers, hdrain, List.mem_append, hfront.mem_iff]
  constructor
  · intro hmem
    obtain ⟨last, hsteps, hlast⟩ := exists_yields_drain length_rest_nextBlock_lt (.start file)
    apply ((hsplit hsteps).1 hmem).imp_right
    intro hbehind
    obtain ⟨length, body, hcut, hheader⟩ := (drainHeaders_of_nextBlock_none hlast).2.2.1 _ hbehind
    exact ⟨last, length, body, hsteps, hcut, hheader⟩
  · rintro (hblock | ⟨last, length, body, hsteps, hcut, hheader⟩)
    · obtain ⟨last, hsteps, -⟩ := exists_yields_drain length_rest_nextBlock_lt (.start file)
      exact (hsplit hsteps).2 (.inl hblock)
    · obtain ⟨skipped, hrecord⟩ := hcut.nextRecord_eq
      have hbody : Header.size ≤ body.length := size_le_of_ofBlockBytes hheader
      have hlong : Header.size ≤ length := Nat.le_trans hbody (Nat.le_of_lt hcut.length_lt)
      rw [hsplit hsteps, drainHeaders_of_cutBehind hrecord hcut.length_lt hlong hbody hheader]
      exact .inr List.mem_cons_self

end BlockFile

/-! ## Headers of a store -/

/-- A store with a header lists its headers, and nothing else. -/
theorem Tables.Represents.exists_listHeaders {t : Tables} {m : Index} (h : t.Represents m)
    {hash : BlockHash} {header : Header} (hheader : m.headers hash = some header) :
    ∃ headers, t.listHeaders = .ok headers ∧
      ∀ header, header ∈ headers ↔ ∃ hash, m.headers hash = some header := by
  have hstored : t.headers.isEmpty = false := by
    rw [← Std.ExtTreeMap.isEmpty_toList, List.isEmpty_eq_false_iff_exists_mem]
    exact ⟨_, h.mem_toList_headers_iff.2 ⟨hash, header, hheader, rfl⟩⟩
  obtain ⟨headers, hheaders⟩ := h.exists_mapM_decodeHeader
  refine ⟨headers, ?_, fun header ↦ ?_⟩
  · rw [listHeaders, hstored, if_neg Bool.false_ne_true]
    exact hheaders
  · rw [mem_iff_of_forall₂_eq_ok (mapM_eq_ok_iff.1 hheaders)]
    constructor
    · rintro ⟨entry, hentry, hdecode⟩
      obtain ⟨hash, stored, hstored, rfl⟩ := h.mem_toList_headers_iff.1 hentry
      have hsame : stored = header :=
        Except.ok.inj ((decodeHeader_encode hash.bytes stored).symm.trans hdecode)
      exact ⟨hash, hsame ▸ hstored⟩
    · rintro ⟨hash, hstored⟩
      exact ⟨(hash.bytes, header.encode), h.mem_toList_headers_iff.2 ⟨hash, header, hstored, rfl⟩,
        decodeHeader_encode _ _⟩

namespace Preload

variable {preload : Preload}

/-! ## Headers of a preload -/

def IsCutHeader (preload : Preload) (header : Header) : Prop :=
  ∃ file ∈ preload.files.reduceOption, BlockFile.IsCutHeader preload.magic file header

theorem mem_headers_iff {header : Header} : header ∈ preload.headers ↔
    (∃ block ∈ preload.blocks, Header.ofBlockBytes block = .ok header) ∨
      preload.IsCutHeader header := by
  rw [headers, blocks, IsCutHeader]
  simp only [List.mem_flatMap, BlockFile.mem_headers_iff]
  constructor
  · rintro ⟨file, hfile, ⟨block, hblock, hheader⟩ | hcut⟩
    · exact .inl ⟨block, ⟨file, hfile, hblock⟩, hheader⟩
    · exact .inr ⟨file, hfile, hcut⟩
  · rintro (⟨block, ⟨file, hfile, hblock⟩, hheader⟩ | ⟨file, hfile, hcut⟩)
    · exact ⟨file, hfile, .inl ⟨block, hblock, hheader⟩⟩
    · exact ⟨file, hfile, .inr hcut⟩

theorem mem_headers_of_mem_accepted {b : Block} (h : b ∈ preload.accepted) :
    b.header ∈ preload.headers := by
  obtain ⟨block, hblock, hdecode⟩ := mem_successes.1 h
  obtain ⟨-, rfl⟩ := Block.decode_eq_ok_iff.1 hdecode
  exact mem_headers_iff.2 (.inl ⟨_, hblock, Header.ofBlockBytes_encode b⟩)

/-- If nothing was skipped, the headers are those of the accepted blocks and of the records that are
cut short. -/
theorem exists_mem_accepted_or_isCutHeader (hone : preload.workerCount = 1) {media : Media}
    {p p' : Progress} {summary : Summary} (hrun : preload.run media p = (.ok summary, p'))
    (hskipped : summary.counters.skippedBlocks = 0) {header : Header}
    (h : header ∈ preload.headers) :
    (∃ b ∈ preload.accepted, b.header = header) ∨ preload.IsCutHeader header := by
  apply (mem_headers_iff.1 h).imp_left
  rintro ⟨block, hblock, hheader⟩
  obtain ⟨b, hb, hdecode⟩ := exists_mem_accepted_of_skippedBlocks_eq_zero hone hrun hskipped hblock
  obtain ⟨-, rfl⟩ := Block.decode_eq_ok_iff.1 hdecode
  rw [Header.ofBlockBytes_encode, Except.ok.injEq] at hheader
  exact ⟨b, hb, hheader⟩

/-- The headers that are kept are those of the accepted blocks. -/
theorem exists_lastHeader?_eq_some_iff
    (hnames : Set.InjOn Header.hash {header | header ∈ preload.headers}) {header : Header} :
    (∃ hash, preload.lastHeader? hash = some header) ↔
      ∃ b ∈ preload.accepted, b.header = header := by
  constructor
  · rintro ⟨hash, hlast⟩
    obtain ⟨b, hb, rfl⟩ := Option.map_eq_some_iff.1 hlast
    exact ⟨b, List.mem_reverse.1 (List.mem_of_find?_eq_some hb), rfl⟩
  · rintro ⟨b, hb, rfl⟩
    let named (x : Block) : Bool := x.header.hash = b.header.hash
    have hfound : (preload.accepted.reverse.find? named).isSome := by
      rw [List.find?_isSome]
      exact ⟨b, List.mem_reverse.2 hb, decide_eq_true rfl⟩
    obtain ⟨last, hlast⟩ := Option.isSome_iff_exists.1 hfound
    have hmem : last ∈ preload.accepted := List.mem_reverse.1 (List.mem_of_find?_eq_some hlast)
    have hnamed : named last = true := List.find?_some hlast
    have hhash : last.header.hash = b.header.hash := of_decide_eq_true hnamed
    refine ⟨b.header.hash, ?_⟩
    rw [lastHeader?, hlast, Option.map_some, hnames (mem_headers_of_mem_accepted hmem)
      (mem_headers_of_mem_accepted hb) hhash]

/-- A preload of an empty store leaves the headers of the accepted blocks, if there are any. -/
theorem exists_listHeaders_of_run_ok (hone : preload.workerCount = 1)
    (hnames : Set.InjOn Header.hash {header | header ∈ preload.headers}) {media : Media}
    {p p' : Progress} {summary : Summary} (hfresh : p.store.tables = Tables.empty)
    (hrun : preload.run media p = (.ok summary, p')) (hstored : preload.accepted ≠ []) :
    ∃ headers, p'.store.tables.listHeaders = .ok headers ∧
      ∀ header, header ∈ headers ↔ ∃ b ∈ preload.accepted, b.header = header := by
  have hempty : p.store.tables.Represents Index.empty := hfresh ▸ Tables.Represents.empty
  obtain ⟨hcomplete, -⟩ := represents_of_run_ok hone hempty hrun
  have hkept (header : Header) :
      (∃ hash, (preload.complete Index.empty).headers hash = some header) ↔
        ∃ b ∈ preload.accepted, b.header = header := by
    rw [headers_complete_empty]
    exact exists_lastHeader?_eq_some_iff hnames
  obtain ⟨b, hb⟩ := List.exists_mem_of_ne_nil _ hstored
  obtain ⟨hash, hhash⟩ := (hkept b.header).2 ⟨b, hb, rfl⟩
  obtain ⟨headers, hheaders, hmem⟩ := hcomplete.exists_listHeaders hhash
  exact ⟨headers, hheaders, fun header ↦ (hmem header).trans (hkept header)⟩

/-- Every output was stored with the height of the block that created it. -/
theorem exists_creation?_of_rows {o : Outpoint} {row : FundingRow}
    (h : (preload.complete Index.empty).rows o = some row) :
    ∃ c, preload.creation? o = some c ∧
      row.txo.height = readBack Txo.unknownHeight (preload.storedHeight? c.block) := by
  cases hcreation : preload.creation? o with
  | none =>
    rw [rows_complete, firstRow?_allFunding, hcreation] at h
    cases h
  | some c =>
    obtain ⟨row', hrow', -, hheight⟩ := preload.exists_row_of_creation? hcreation
    rw [h, Option.some.injEq] at hrow'
    exact ⟨c, rfl, hrow' ▸ hheight⟩

/-! ## The two chains -/

/-- If the headers pass of a preload of an empty store comes to an end, and the preload goes through
without skipping a block or failing at a file, all files were read, and the chain of the stored
headers has heights of the chain of the headers pass, which are those of the stored outputs. The two
chains agree if and only if every header of a record that is cut short is also that of a stored
block. -/
theorem stored_chain_agrees_iff (hone : preload.workerCount = 1)
    (hnames : Set.InjOn Header.hash {header | header ∈ preload.headers})
    (hends : HeightTraversal.Ends (.ofHeaders preload.headers)) {media : Media} {p p' : Progress}
    {summary : Summary} (hfresh : p.store.tables = Tables.empty)
    (hrun : preload.run media p = (.ok summary, p'))
    (hskipped : summary.counters.skippedBlocks = 0) (hfailed : summary.counters.failedFiles = 0)
    (hstored : preload.accepted ≠ []) :
    (∀ file ∈ preload.files, file.isSome) ∧
    ∃ headers, p'.store.tables.listHeaders = .ok headers ∧
      (∀ header, header ∈ headers ↔ ∃ b ∈ preload.accepted, b.header = header) ∧
      HeightTraversal.Ends (.ofHeaders headers) ∧
      summary.headers = preload.chain.size ∧ summary.tip = preload.chain.tip ∧
      (Chain.ofHeaders headers).size ≤ summary.headers ∧
      (∀ hash height, (Chain.ofHeaders headers).height? hash = some height →
        preload.chain.height? hash = some height) ∧
      (∀ s txo, p'.store.tables.Lists s txo → ∃ c, preload.creation? txo.outpoint = some c ∧
        txo.height = readBack Txo.unknownHeight
          ((preload.chain.height? c.block).map UInt32.ofNat)) ∧
      ((Chain.ofHeaders headers).Agrees preload.chain ↔
        ∀ header, preload.IsCutHeader header → ∃ b ∈ preload.accepted, b.header = header) := by
  have hempty : p.store.tables.Represents Index.empty := hfresh ▸ Tables.Represents.empty
  obtain ⟨hcomplete, -⟩ := represents_of_run_ok hone hempty hrun
  obtain ⟨hsummary, htip, -⟩ := summary_of_run_ok hone hrun
  obtain ⟨headers, hheaders, haccepted⟩ :=
    exists_listHeaders_of_run_ok hone hnames hfresh hrun hstored
  have hsubset : headers ⊆ preload.headers := by
    intro header hheader
    obtain ⟨b, hb, rfl⟩ := (haccepted header).1 hheader
    exact mem_headers_of_mem_accepted hb
  have hgrounded : (HeaderLinks.ofHeaders preload.headers).IsGrounded :=
    HeightTraversal.ends_ofHeaders_iff.1 hends
  have hends' : HeightTraversal.Ends (.ofHeaders headers) :=
    HeightTraversal.ends_ofHeaders_iff.2 (hgrounded.of_subset hnames hsubset)
  refine ⟨fun _ ↦ isSome_of_failedFiles_eq_zero hone hrun hfailed, headers, hheaders, haccepted,
    hends', hsummary, htip, ?_, ?_, ?_, ?_⟩
  · rw [hsummary]
    exact (HeaderLinks.size_ofHeaders_le_of_subset hsubset).1
  · exact fun hash height ↦ Chain.height?_of_subset hnames hgrounded hsubset
  · exact fun s txo htxo ↦ exists_creation?_of_rows (hcomplete.lists_iff.1 htxo)
  · rw [chain, Chain.agrees_iff_of_subset hnames hgrounded hsubset]
    constructor
    · intro hall header hcut
      exact (haccepted header).1 (hall (mem_headers_iff.2 (.inr hcut)))
    · intro hall header hheader
      rw [haccepted]
      exact (exists_mem_accepted_or_isCutHeader hone hrun hskipped hheader).elim id (hall header)

/-! ## An example -/

/-- A file that ends within the transactions of the lower block, and one with the upper block. -/
def ofCutRecord : Preload where
  files :=
    let magic := [0xf9, 0xbe, 0xb4, 0xd9]
    [some ((BlockFile.frame magic Block.lower.encode).take 100),
      some (BlockFile.frame magic Block.upper.encode)]
  magic := [0xf9, 0xbe, 0xb4, 0xd9]
  workers := 1

/-- The same files, and one with the whole lower block. -/
def ofRepeatedRecord : Preload := ofCutRecord.grow [parentFile]

theorem results_ofCutRecord :
    ofCutRecord.headers = [Block.lower.header, Block.upper.header] ∧
      ofCutRecord.accepted = [Block.upper] ∧
      (ofCutRecord.run (fun _ ↦ .boundless) .fresh).1.toOption.map (fun summary ↦
        (summary.counters.skippedBlocks, summary.counters.failedFiles)) = some (0, 0) := by
  decide +kernel

theorem results_ofRepeatedRecord :
    ofRepeatedRecord.headers = [Block.lower.header, Block.upper.header, Block.lower.header] ∧
      ofRepeatedRecord.accepted = [Block.upper, Block.lower] ∧
      (ofRepeatedRecord.run (fun _ ↦ .boundless) .fresh).1.toOption.map (fun summary ↦
        (summary.counters.skippedBlocks, summary.counters.failedFiles)) = some (0, 0) := by
  decide +kernel

theorem hash_lower_and_upper : Block.lower.header.hash ≠ Block.upper.header.hash ∧
    Block.lower.header.hash ≠ Hash.zero ∧ Block.upper.header.hash ≠ Hash.zero := by decide +kernel

section Pair

variable {headers : List Header} (h : headers ⊆ [Block.lower.header, Block.upper.header])

include h

theorem injOn_hash_of_subset_pair : Set.InjOn Header.hash {header | header ∈ headers} := by
  have hpair : Set.InjOn Header.hash {Block.lower.header, Block.upper.header} :=
    Set.injOn_pair.2 fun heq ↦ absurd heq hash_lower_and_upper.1
  apply hpair.mono
  intro header hmem
  simpa using h hmem

theorem isGrounded_of_subset_pair : (HeaderLinks.ofHeaders headers).IsGrounded := by
  have hzero : ∀ header ∈ [Block.lower.header, Block.upper.header], header.hash ≠ Hash.zero := by
    simpa using hash_lower_and_upper.2
  exact HeaderLinks.isGrounded_ofHeaders fun header hmem ↦ hzero header (h hmem)

/-- With the lower block below it, the upper one has a height. -/
theorem height?_upper (hlower : Block.lower.header ∈ headers)
    (hupper : Block.upper.header ∈ headers) :
    (Chain.ofHeaders headers).height? Block.upper.header.hash = some 1 := by
  have hnames := injOn_hash_of_subset_pair h
  have hstart : (HeaderLinks.ofHeaders headers).IsHeight Block.lower.header.hash 0 :=
    .start (HeaderLinks.hash_mem_childrenOf hnames hlower)
  have hchild : Block.upper.header.hash ∈
      (HeaderLinks.ofHeaders headers).childrenOf Block.lower.header.hash :=
    HeaderLinks.hash_mem_childrenOf hnames hupper
  exact (Chain.height?_eq_some_iff (isGrounded_of_subset_pair h)).2 (.child hstart hchild)

end Pair

/-- With the whole record in a third file, both headers are stored. -/
theorem stored_chain_agrees_ofRepeatedRecord :
    ∃ summary p' headers, ofRepeatedRecord.run (fun _ ↦ .boundless) .fresh = (.ok summary, p') ∧
      p'.store.tables.listHeaders = .ok headers ∧
      (Chain.ofHeaders headers).size = summary.headers ∧
      (Chain.ofHeaders headers).height? Block.upper.header.hash = some 1 ∧
      (Chain.ofHeaders headers).tip.map Prod.snd = summary.tip.map Prod.snd := by
  have hone : ofRepeatedRecord.workerCount = 1 := rfl
  obtain ⟨hread, haccepted, hcounted⟩ := results_ofRepeatedRecord
  have hsubset : ofRepeatedRecord.headers ⊆ [Block.lower.header, Block.upper.header] := by
    simp [hread]
  have hstored : ofRepeatedRecord.accepted ≠ [] := by simp [haccepted]
  have hwhole : ∀ header ∈ ofRepeatedRecord.headers,
      ∃ b ∈ ofRepeatedRecord.accepted, b.header = header := by
    simp [hread, haccepted]
  obtain ⟨summary, p', hrun⟩ :=
    exists_run_ok hone Media.ample_boundless (p := .fresh) Tables.Represents.empty
  rw [hrun] at hcounted
  obtain ⟨hskipped, hfailed⟩ := Prod.mk.inj (Option.some.inj hcounted)
  obtain ⟨-, headers, hheaders, -, -, hsummary, htip, -, -, -, hagrees⟩ :=
    stored_chain_agrees_iff hone (injOn_hash_of_subset_pair hsubset)
      (HeightTraversal.ends_ofHeaders_iff.2 (isGrounded_of_subset_pair hsubset)) rfl hrun hskipped
      hfailed hstored
  obtain ⟨hsize, hheights, htips⟩ := hagrees.2 fun header hcut ↦
    hwhole header (mem_headers_iff.2 (.inr hcut))
  refine ⟨summary, p', headers, hrun, hheaders, ?_, ?_, ?_⟩
  · rw [hsize, hsummary]
  · rw [hheights]
    exact height?_upper hsubset (by simp [hread]) (by simp [hread])
  · rw [htips, htip]

/-- Without it, the stored chain has one header less, and the upper block has no height any more. -/
theorem stored_chain_ne_ofCutRecord :
    ∃ summary p' headers, ofCutRecord.run (fun _ ↦ .boundless) .fresh = (.ok summary, p') ∧
      summary.counters.skippedBlocks = 0 ∧ summary.counters.failedFiles = 0 ∧
      ofCutRecord.accepted = [Block.upper] ∧
      Set.InjOn Header.hash {header | header ∈ ofCutRecord.headers} ∧
      HeightTraversal.Ends (.ofHeaders ofCutRecord.headers) ∧
      p'.store.tables.listHeaders = .ok headers ∧
      (Chain.ofHeaders headers).size = 1 ∧ summary.headers = 2 ∧
      (Chain.ofHeaders headers).height? Block.upper.header.hash = none ∧
      ofCutRecord.chain.height? Block.upper.header.hash = some 1 ∧
      (Chain.ofHeaders headers).tip.map Prod.snd = none ∧
      summary.tip.map Prod.snd = some 1 := by
  have hone : ofCutRecord.workerCount = 1 := rfl
  obtain ⟨hread, haccepted, hcounted⟩ := results_ofCutRecord
  have hsubset : ofCutRecord.headers ⊆ [Block.lower.header, Block.upper.header] := by
    simp [hread]
  have hnames := injOn_hash_of_subset_pair hsubset
  have hgrounded := isGrounded_of_subset_pair hsubset
  have hstored : ofCutRecord.accepted ≠ [] := by simp [haccepted]
  have hheight : ofCutRecord.chain.height? Block.upper.header.hash = some 1 :=
    height?_upper hsubset (by simp [hread]) (by simp [hread])
  obtain ⟨summary, p', hrun⟩ :=
    exists_run_ok hone Media.ample_boundless (p := .fresh) Tables.Represents.empty
  rw [hrun] at hcounted
  obtain ⟨hskipped, hfailed⟩ := Prod.mk.inj (Option.some.inj hcounted)
  obtain ⟨hsummary, htip, -⟩ := summary_of_run_ok hone hrun
  obtain ⟨headers, hheaders, hmem⟩ := exists_listHeaders_of_run_ok hone hnames rfl hrun hstored
  -- The stored list has the header of the upper block only, whose parent is missing.
  have hupper (header : Header) : header ∈ headers ↔ header = Block.upper.header := by
    rw [hmem, haccepted]
    simp [eq_comm]
  have hsubset' : headers ⊆ [Block.lower.header, Block.upper.header] := by
    intro header hheader
    simp [(hupper header).1 hheader]
  have hnone (hash : BlockHash) (height : Nat) :
      (Chain.ofHeaders headers).height? hash ≠ some height := by
    intro hsome
    obtain ⟨root, hroot, -⟩ := (Chain.isHeight_of_height? hsome).exists_root
    obtain ⟨header, hheader, -, hprev⟩ := HeaderLinks.exists_header_of_mem_childrenOf hroot
    rw [(hupper header).1 hheader] at hprev
    exact hash_lower_and_upper.2.1 hprev
  refine ⟨summary, p', headers, hrun, hskipped, hfailed, haccepted, hnames,
    HeightTraversal.ends_ofHeaders_iff.2 hgrounded, hheaders, ?_, ?_, ?_, hheight, ?_, ?_⟩
  · have hname : (headers.map Header.hash).toFinset = {Block.upper.header.hash} := by
      ext hash
      simp [hupper, eq_comm]
    rw [Chain.size, Chain.ofHeaders, HeaderLinks.size_ofHeaders, hname, Finset.card_singleton]
  · rw [hsummary, Chain.size, chain, Chain.ofHeaders, HeaderLinks.size_ofHeaders, hread]
    simp [hash_lower_and_upper.1]
  · rw [Option.eq_none_iff_forall_ne_some]
    exact hnone _
  · rw [Option.eq_none_iff_forall_ne_some]
    intro top htop
    obtain ⟨⟨hash, hhash⟩, -⟩ :=
      (Chain.tipHeight_eq_some_iff (isGrounded_of_subset_pair hsubset')).1 htop
    exact hnone hash top hhash
  · rw [htip, chain, Chain.tipHeight_eq_some_iff hgrounded]
    refine ⟨⟨_, hheight⟩, fun hash height hsome ↦ ?_⟩
    have hlt : height < ofCutRecord.headers.length := Chain.height?_lt hsome
    rw [hread] at hlt
    exact Nat.le_of_lt_succ hlt

end Preload

end TxoIndex

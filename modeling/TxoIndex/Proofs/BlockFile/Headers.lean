import Mathlib.Data.List.Forall2
import TxoIndex.Proofs.Block.Walking
import TxoIndex.Proofs.BlockFile.Draining
import TxoIndex.Proofs.BlockFile.Records

/-!
# Headers and blocks of one file

A reader of headers passes over what a reader of blocks reads: records without room for a header,
and whatever follows a header in its record. Where the file holds the whole body of a record, both
stand at the same byte behind it. So the headers of a file are the headers of its blocks, in
whatever state the file is, with one exception: the last record may be cut short behind its header.
Then there is a header, but no block.
-/

namespace TxoIndex

/-- Eighty bytes are a header, whatever they are. -/
theorem Header.exists_ofBlockBytes_eq_ok {bs : Bytes} (h : Header.size ≤ bs.length) :
    ∃ header, Header.ofBlockBytes bs = .ok header := by
  have hfront : (bs.take Header.size).length = Header.size := by
    rw [List.length_take, Nat.min_eq_left h]
  obtain ⟨header, hheader⟩ := exists_header_encode_eq hfront
  refine ⟨header, Header.ofBlockBytes_eq_ok_iff.2 ⟨bs.drop Header.size, ?_⟩⟩
  rw [hheader, List.take_append_drop]

theorem Bytes.split?_of_le {n : Nat} {bs : Bytes} (h : n ≤ bs.length) :
    split? n bs = some (bs.take n, bs.drop n) := by
  rw [split?_eq_some_iff, List.length_take, Nat.min_eq_left h]
  exact ⟨rfl, (List.take_append_drop n bs).symm⟩

namespace BlockFile

variable {magic : Magic} {r r' found : Reader} {length : Nat}

/-! ## Single steps -/

/-- A step to the next block finds no record, a record that is cut short, or a whole one. -/
theorem nextBlock_cases (magic : Magic) (r : Reader) :
    (∃ r', nextRecord magic r = (none, r') ∧ nextBlock magic r = (none, r')) ∨
      ∃ length found, nextRecord magic r = (some length, found) ∧
        (found.rest.length < length ∧ nextBlock magic r = (none, { found with rest := [] }) ∨
          length ≤ found.rest.length ∧ nextBlock magic r =
            (some (found.rest.take length), { found with rest := found.rest.drop length })) := by
  cases hrecord : nextRecord magic r with
  | mk length? found =>
    cases length? with
    | none =>
      left
      refine ⟨found, rfl, ?_⟩
      rw [nextBlock, hrecord]
    | some length =>
      right
      refine ⟨length, found, rfl, ?_⟩
      rw [nextBlock, hrecord]
      rcases Nat.lt_or_ge found.rest.length length with hcut | hwhole
      · left
        simp only [Bytes.split?_eq_none_iff.2 hcut]
        exact ⟨hcut, trivial⟩
      · right
        simp only [Bytes.split?_of_le hwhole]
        exact ⟨hwhole, trivial⟩

theorem nextHeader_of_none (h : nextRecord magic r = (none, r')) :
    nextHeader magic r = (none, r') := by
  rw [nextHeader]
  split
  · next hr =>
    rw [h, Prod.mk.injEq] at hr
    rw [hr.2]
  · next hr => simp [h] at hr

theorem nextHeader_of_some (h : nextRecord magic r = (some length, found)) :
    nextHeader magic r =
      if length < Header.size then nextHeader magic { found with rest := found.rest.drop length }
      else
        match Bytes.split? Header.size found.rest with
        | none => (none, { found with rest := [] })
        | some (front, rest) =>
          match Decoder.exactly Header.decoder front with
          | .ok header => (some header, { found with rest := rest.drop (length - Header.size) })
          | .error _ =>
            nextHeader magic { found with rest := rest.drop (length - Header.size) } := by
  rw [nextHeader]
  split
  · next hr => simp [h] at hr
  · next hr =>
    rw [h, Prod.mk.injEq, Option.some.injEq] at hr
    obtain ⟨rfl, rfl⟩ := hr
    split
    · rfl
    · split
      · next hsplit => simp only [hsplit]
      · next front rest hsplit =>
        cases hdecode : Header.decoder.exactly front with
        | ok header => simp only [hsplit, hdecode]
        | error e => simp only [hsplit, hdecode]

/-- A record without room for a header is passed over. -/
theorem nextHeader_of_short (h : nextRecord magic r = (some length, found))
    (hshort : length < Header.size) : nextHeader magic r =
      nextHeader magic { found with rest := found.rest.drop length } := by
  rw [nextHeader_of_some h, if_pos hshort]

theorem nextHeader_of_lt (h : nextRecord magic r = (some length, found))
    (hlong : Header.size ≤ length) (hbody : found.rest.length < Header.size) :
    nextHeader magic r = (none, { found with rest := [] }) := by
  rw [nextHeader_of_some h, if_neg (Nat.not_lt.2 hlong)]
  simp only [Bytes.split?_eq_none_iff.2 hbody]

/-- A header is read, and the reader goes on behind its record. -/
theorem nextHeader_of_le (h : nextRecord magic r = (some length, found))
    (hlong : Header.size ≤ length) (hbody : Header.size ≤ found.rest.length) {header : Header}
    (hheader : Header.ofBlockBytes found.rest = .ok header) : nextHeader magic r =
      (some header, { found with rest := found.rest.drop length }) := by
  have hfront : Decoder.exactly Header.decoder (found.rest.take Header.size) = .ok header := hheader
  have hrest : (found.rest.drop Header.size).drop (length - Header.size) =
      found.rest.drop length := by
    rw [List.drop_drop, Nat.add_sub_cancel' hlong]
  rw [nextHeader_of_some h, if_neg (Nat.not_lt.2 hlong)]
  simp only [Bytes.split?_of_le hbody, hfront, hrest]

/-! ## Draining -/

theorem drainHeaders_of_none (h : nextHeader magic r = (none, r')) :
    drainHeaders magic r = ([], r') := drain_of_none h []

theorem drainHeaders_of_some {header : Header} (h : nextHeader magic r = (some header, r')) :
    drainHeaders magic r =
      (header :: (drainHeaders magic r').1, (drainHeaders magic r').2) := drain_eq_cons h

theorem drainHeaders_nil (magic : Magic) (skipped : Nat) :
    drainHeaders magic ⟨[], skipped⟩ = ([], ⟨[], skipped⟩) :=
  drainHeaders_of_none (nextHeader_of_none (nextRecord_of_stop rfl))

/-- The headers of blocks that have room for one. -/
def HeadersOf (blocks : List Bytes) (headers : List Header) : Prop :=
  List.Forall₂ (fun block header ↦ Header.ofBlockBytes block = .ok header)
    (blocks.filter fun block ↦ Header.size ≤ block.length) headers

theorem HeadersOf.append {blocks blocks' : List Bytes} {headers headers' : List Header}
    (h : HeadersOf blocks headers) (h' : HeadersOf blocks' headers') :
    HeadersOf (blocks ++ blocks') (headers ++ headers') := by
  rw [HeadersOf, List.filter_append]
  exact List.rel_append h h'

/-- Where a block is found, the headers go on with its header, if it has room for one. -/
theorem drainHeaders_of_nextBlock_some {block : Bytes}
    (h : nextBlock magic r = (some block, r')) : ∃ front, HeadersOf [block] front ∧
      drainHeaders magic r =
        (front ++ (drainHeaders magic r').1, (drainHeaders magic r').2) := by
  rcases nextBlock_cases magic r with ⟨_, -, hblock⟩ | ⟨length, found, hrecord, hbody⟩
  · simp [h] at hblock
  rcases hbody with ⟨-, hblock⟩ | ⟨hwhole, hblock⟩
  · simp [h] at hblock
  rw [h, Prod.mk.injEq, Option.some.injEq] at hblock
  obtain ⟨rfl, rfl⟩ := hblock
  have hsize : (found.rest.take length).length = length := by
    rw [List.length_take, Nat.min_eq_left hwhole]
  rcases Nat.lt_or_ge length Header.size with hshort | hlong
  · refine ⟨[], ?_, ?_⟩
    · rw [HeadersOf, List.filter_cons_of_neg (by simp [hsize, hshort])]
      exact .nil
    · exact drain_congr (nextHeader_of_short hrecord hshort)
  · obtain ⟨header, hheader⟩ := Header.exists_ofBlockBytes_eq_ok (Nat.le_trans hlong hwhole)
    refine ⟨[header], ?_, ?_⟩
    · have hfront : Header.ofBlockBytes (found.rest.take length) = .ok header := by
        rw [Header.ofBlockBytes, List.take_take, Nat.min_eq_left hlong]
        exact hheader
      rw [HeadersOf, List.filter_cons_of_pos (by simp [hsize, hlong])]
      exact .cons hfront .nil
    · exact drainHeaders_of_some
        (nextHeader_of_le hrecord hlong (Nat.le_trans hlong hwhole) hheader)

/-- Two readers that start at the same byte stand at the same byte when all blocks are found. -/
theorem drainHeaders_of_yields {blocks : List Bytes} {last : Reader}
    (h : Yields (nextBlock magic) r blocks last) : ∃ front, HeadersOf blocks front ∧
      drainHeaders magic r =
        (front ++ (drainHeaders magic last).1, (drainHeaders magic last).2) := by
  induction h with
  | nil r => exact ⟨[], .nil, rfl⟩
  | @cons r r' last block blocks hstep _ ih =>
    obtain ⟨front, hfront, hdrain⟩ := drainHeaders_of_nextBlock_some hstep
    obtain ⟨front', hfront', hdrain'⟩ := ih
    refine ⟨front ++ front', ?_, ?_⟩
    · exact hfront.append hfront'
    · rw [hdrain, hdrain', List.append_assoc]

/-! ## The last record -/

/-- The next record of a reader, of whose body there are only these bytes. -/
structure CutShort (magic : Magic) (r : Reader) (length : Nat) (body : Bytes) : Prop where
  nextRecord_eq : ∃ skipped, nextRecord magic r = (some length, ⟨body, skipped⟩)
  /-- The head of its frame is the last thing in front of the body. -/
  rest_eq : ∃ front, r.rest = front ++ frameHead magic length ++ body
  isLength : IsLength length
  length_lt : body.length < length

/-- Whether the next record of a reader is cut short, but only behind its header. -/
def CutBehindHeader (magic : Magic) (r : Reader) : Prop :=
  ∃ length body, CutShort magic r length body ∧ Header.size ≤ length ∧ Header.size ≤ body.length

theorem cutShort_of_nextRecord (h : nextRecord magic r = (some length, found))
    (hcut : found.rest.length < length) : CutShort magic r length found.rest where
  nextRecord_eq := ⟨found.skipped, h⟩
  rest_eq := exists_rest_eq_of_nextRecord h
  isLength := isLength_of_nextRecord h
  length_lt := hcut

theorem CutShort.eq_of_nextRecord {length' : Nat} {body : Bytes}
    (h : CutShort magic r length' body) (hrecord : nextRecord magic r = (some length, found)) :
    length' = length ∧ body = found.rest := by
  obtain ⟨skipped, hsame⟩ := h.nextRecord_eq
  rw [hrecord, Prod.mk.injEq, Option.some.injEq] at hsame
  obtain ⟨rfl, rfl⟩ := hsame
  exact ⟨rfl, rfl⟩

theorem cutBehindHeader_iff (h : nextRecord magic r = (some length, found))
    (hcut : found.rest.length < length) :
    CutBehindHeader magic r ↔ Header.size ≤ length ∧ Header.size ≤ found.rest.length := by
  constructor
  · rintro ⟨length', body, hcut', hroom⟩
    obtain ⟨rfl, rfl⟩ := hcut'.eq_of_nextRecord h
    exact hroom
  · intro hroom
    exact ⟨length, found.rest, cutShort_of_nextRecord h hcut, hroom⟩

theorem not_cutBehindHeader_of_none (h : nextRecord magic r = (none, r')) :
    ¬ CutBehindHeader magic r := by
  rintro ⟨length, body, hcut, -⟩
  obtain ⟨skipped, hrecord⟩ := hcut.nextRecord_eq
  simp [h] at hrecord

/-- A record that is cut short within its header gives none. -/
theorem drainHeaders_of_cut (h : nextRecord magic r = (some length, found))
    (hcut : found.rest.length < length)
    (hroom : ¬ (Header.size ≤ length ∧ Header.size ≤ found.rest.length)) :
    drainHeaders magic r = ([], { found with rest := [] }) := by
  rcases Nat.lt_or_ge length Header.size with hshort | hlong
  · have hdrop : found.rest.drop length = [] := List.drop_of_length_le (Nat.le_of_lt hcut)
    have hnext := nextHeader_of_short h hshort
    rw [hdrop] at hnext
    calc
      drainHeaders magic r = drainHeaders magic { found with rest := [] } := drain_congr hnext
      _ = ([], { found with rest := [] }) := drainHeaders_nil magic found.skipped
  · have hbody : found.rest.length < Header.size := by omega
    exact drainHeaders_of_none (nextHeader_of_lt h hlong hbody)

/-- A record that is cut short behind its header gives this header, and is the last one. -/
theorem drainHeaders_of_cutBehind (h : nextRecord magic r = (some length, found))
    (hcut : found.rest.length < length) (hlong : Header.size ≤ length)
    (hbody : Header.size ≤ found.rest.length) {header : Header}
    (hheader : Header.ofBlockBytes found.rest = .ok header) :
    drainHeaders magic r = ([header], { found with rest := [] }) := by
  have hdrop : found.rest.drop length = [] := List.drop_of_length_le (Nat.le_of_lt hcut)
  have hnext := nextHeader_of_le h hlong hbody hheader
  rw [hdrop] at hnext
  rw [drainHeaders_of_some hnext, drainHeaders_nil]

/-- Where no block is found, there is a header only if a record is cut short behind it. -/
theorem drainHeaders_of_nextBlock_none (h : nextBlock magic r = (none, r')) :
    (drainHeaders magic r).1.length ≤ 1 ∧
      ((drainHeaders magic r).1 ≠ [] ↔ CutBehindHeader magic r) ∧
      (∀ header ∈ (drainHeaders magic r).1, ∃ length body, CutShort magic r length body ∧
        Header.ofBlockBytes body = .ok header) ∧
      (drainHeaders magic r).2.skipped = r'.skipped := by
  rcases nextBlock_cases magic r with ⟨_, hrecord, hblock⟩ | ⟨length, found, hrecord, hbody⟩
  · rw [h, Prod.mk.injEq] at hblock
    obtain ⟨-, rfl⟩ := hblock
    rw [drainHeaders_of_none (nextHeader_of_none hrecord)]
    simp [not_cutBehindHeader_of_none hrecord]
  rcases hbody with ⟨hcut, hblock⟩ | ⟨-, hblock⟩
  · rw [h, Prod.mk.injEq] at hblock
    obtain ⟨-, rfl⟩ := hblock
    rw [cutBehindHeader_iff hrecord hcut]
    by_cases hroom : Header.size ≤ length ∧ Header.size ≤ found.rest.length
    · obtain ⟨header, hheader⟩ := Header.exists_ofBlockBytes_eq_ok hroom.2
      rw [drainHeaders_of_cutBehind hrecord hcut hroom.1 hroom.2 hheader]
      refine ⟨Nat.le_refl 1, ?_, ?_, rfl⟩
      · simp [hroom]
      · intro header' hmem
        rw [List.mem_singleton.1 hmem]
        exact ⟨length, found.rest, cutShort_of_nextRecord hrecord hcut, hheader⟩
    · rw [drainHeaders_of_cut hrecord hcut hroom]
      simp [hroom]
  · simp [h] at hblock

/-- The headers of a file are those of its blocks, in the same order. There is one more if and only
if the reader of blocks stops at a record that is cut short behind its header. Both readers skip the
same frames. -/
theorem headers_eq_headers_of_blocks (magic : Magic) (file : Bytes) :
    ∃ last front further, Yields (nextBlock magic) (.start file) (blocks magic file) last ∧
      (nextBlock magic last).1 = none ∧
      headers magic file = front ++ further ∧ HeadersOf (blocks magic file) front ∧
      further.length ≤ 1 ∧ (further ≠ [] ↔ CutBehindHeader magic last) ∧
      (∀ header ∈ further, ∃ length body, CutShort magic last length body ∧
        Header.ofBlockBytes body = .ok header) ∧
      (drainHeaders magic (.start file)).2.skipped =
        (drainBlocks magic (.start file)).2.skipped := by
  obtain ⟨last, hsteps, hlast⟩ :=
    exists_yields_drain length_rest_nextBlock_lt (.start file)
  obtain ⟨front, hfront, hdrain⟩ := drainHeaders_of_yields hsteps
  obtain ⟨hlength, hpresent, hheader, hskipped⟩ := drainHeaders_of_nextBlock_none hlast
  refine ⟨last, front, (drainHeaders magic last).1, hsteps, ?_, ?_, hfront, hlength, hpresent,
    hheader, ?_⟩
  · rw [hlast]
  · rw [headers, hdrain]
  · rw [hdrain]
    exact hskipped

end BlockFile

end TxoIndex

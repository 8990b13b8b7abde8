import TxoIndex.Network
import TxoIndex.Proofs.BlockFile.Seeking

/-!
# Where the blocks of a file lie

A file may hold anything. Every block that is read from it is a piece of the file all the same, with
the head of a frame in front of it: the magic, and the length of the block. A later block lies
behind it with its frame, so no byte of the file is part of two frames. To read all blocks takes as
many calls as there are blocks and one more, and none of them fails.
-/

namespace TxoIndex

/-- The bytes at which a number is read spell it. -/
theorem Bytes.slice_eq_littleEndian {bs : Bytes} {start width : Nat}
    (h : start + width ≤ bs.length) :
    bs.slice start width = littleEndian width (bs.numberAt start width) := by
  have hspelled := littleEndian_littleEndianValue (bs.slice start width)
  rw [length_slice h] at hspelled
  exact hspelled.symm

namespace BlockFile

/-! ## Frames -/

/-- Behind the head of a frame there is the body of a record at this position: it has a possible
length, and it does not start with the magic. -/
structure IsBody (magic : Magic) (file : Bytes) (position length : Nat) : Prop where
  eight_le : 8 ≤ position
  add_four_le : position + 4 ≤ file.length
  magic_eq : file.slice (position - 8) 4 = magic
  length_eq : file.numberAt (position - 4) 4 = length
  isLength : IsLength length
  ne_magic : file.slice position 4 ≠ magic

/-- The file holds a block at this position, with the head of its frame in front of it. -/
structure IsFramed (magic : Magic) (file : Bytes) (position : Nat) (block : Bytes) : Prop where
  eight_le : 8 ≤ position
  add_length_le : position + block.length ≤ file.length
  add_four_le : position + 4 ≤ file.length
  block_eq : file.slice position block.length = block
  magic_eq : file.slice (position - 8) 4 = magic
  length_eq : file.slice (position - 4) 4 = Bytes.littleEndian 4 block.length
  one_le_length : 1 ≤ block.length
  length_le : block.length ≤ 4000000
  ne_magic : file.slice position 4 ≠ magic

theorem IsBody.isFramed {magic : Magic} {file : Bytes} {position length : Nat}
    (h : IsBody magic file position length) (hfits : position + length ≤ file.length) :
    IsFramed magic file position (file.slice position length) := by
  have hlength := Bytes.length_slice hfits
  have hhead : position - 4 + 4 ≤ file.length := by
    have height := h.eight_le
    omega
  have hspelled := Bytes.slice_eq_littleEndian hhead
  rw [h.length_eq] at hspelled
  refine ⟨h.eight_le, ?_, h.add_four_le, ?_, h.magic_eq, ?_, ?_, ?_, h.ne_magic⟩ <;> rw [hlength]
  · exact hfits
  · exact hspelled
  · exact h.isLength.1
  · exact h.isLength.2

namespace Cursor

variable {magic : Magic} {c c' : Cursor}

/-! ## One block -/

theorem Searched.isBody {length : Nat} (h : Searched magic c (.record length c')) :
    IsBody magic c.file c'.position length ∧ c.position + 8 ≤ c'.position := by
  cases h with
  | record hfront hlength hmagic hbody =>
    refine ⟨⟨Nat.le_add_left _ _, hfront, ?_, ?_, hlength, hbody⟩, Nat.le_refl _⟩
    · change c.file.slice (c.position + 8 - 8) 4 = magic
      rw [Nat.add_sub_cancel]
      exact hmagic
    · rfl

/-- Where the searches end in a record, the head of its frame is behind the start of the first
one. -/
theorem Finds.isBody {length : Nat} (h : Finds magic c (some length) c') (hinside : c.IsInside) :
    IsBody magic c.file c'.position length ∧ c.position + 8 ≤ c'.position := by
  generalize hlength : some length = length? at h
  induction h with
  | stop => cases hlength
  | record hsearched =>
    cases hlength
    exact hsearched.isBody
  | @again c found _ _ hsearched _ ih =>
    have hprecedes : c.Precedes found := hsearched.precedes hinside
    obtain ⟨hbody, hle⟩ := ih (hprecedes.isInside hinside) hlength
    rw [hprecedes.file_eq] at hbody
    exact ⟨hbody, (Nat.add_le_add_right hprecedes.le 8).trans hle⟩

/-- A block is read where its frame says. -/
theorem exists_isFramed_of_nextBlock {block : Bytes} (hinside : c.IsInside)
    (h : c.nextBlock magic = .ok (some block, c')) :
    ∃ position, IsFramed magic c.file position block ∧ c.position + 8 ≤ position ∧
      c'.position = position + block.length ∧ c'.floor = c'.position := by
  obtain ⟨length?, found, hrecord, hfinds⟩ := exists_finds magic hinside
  have hprecedes := hfinds.precedes hinside
  cases length? with
  | none =>
    rw [nextBlock, hrecord] at h
    cases h
  | some length =>
    obtain ⟨hbody, hle⟩ := hfinds.isBody hinside
    by_cases hfits : found.position + length ≤ found.file.length
    · simp only [nextBlock, hrecord, read?_of_le hfits] at h
      cases h
      rw [hprecedes.file_eq] at hfits
      refine ⟨found.position, ?_, hle, ?_, rfl⟩
      · rw [hprecedes.file_eq]
        exact hbody.isFramed hfits
      · change found.position + length =
          found.position + (found.file.slice found.position length).length
        rw [hprecedes.file_eq, Bytes.length_slice hfits]
    · simp only [nextBlock, hrecord, read?_of_lt (Nat.lt_of_not_le hfits)] at h
      cases h

/-! ## All blocks -/

/-- Calls that find blocks at these positions one after another, from a cursor to the one behind the
last of them. Each block ends where the cursor stands then, and so does what it may go back to. -/
inductive Yields (magic : Magic) : Cursor → List (Nat × Bytes) → Cursor → Prop where
  | nil (c : Cursor) : Yields magic c [] c
  | cons {c c' c'' : Cursor} {position : Nat} {block : Bytes} {found : List (Nat × Bytes)} :
    c.nextBlock magic = .ok (some block, c') → c'.position = position + block.length →
    c'.floor = position + block.length → Yields magic c' found c'' →
    Yields magic c ((position, block) :: found) c''

/-- The calls come to one that finds nothing, and none of them fails. A reader finds the same. -/
theorem exists_yields (magic : Magic) (hinside : c.IsInside) :
    ∃ found last stopped, Yields magic c found last ∧
      last.nextBlock magic = .ok (none, stopped) ∧
      BlockFile.Yields (BlockFile.nextBlock magic) c.reader (found.map Prod.snd) last.reader ∧
      BlockFile.nextBlock magic last.reader = (none, stopped.reader) := by
  induction hleft : c.file.length - c.position using Nat.strong_induction_on generalizing c with
  | h left ih =>
    obtain ⟨block?, c', hnext, hreader, hfile, hinside'⟩ := exists_nextBlock magic hinside
    cases block? with
    | none => exact ⟨[], c, c', .nil c, hnext, .nil c.reader, hreader⟩
    | some block =>
      obtain ⟨position, hframed, hle, hposition, hfloor⟩ :=
        exists_isFramed_of_nextBlock hinside hnext
      have hfits := hframed.add_length_le
      have hless : c'.file.length - c'.position < left := by
        rw [hfile]
        omega
      rw [hposition] at hfloor
      obtain ⟨found, last, stopped, hsteps, hlast, hreaders, hstopped⟩ := ih _ hless hinside' rfl
      exact ⟨(position, block) :: found, last, stopped, .cons hnext hposition hfloor hsteps, hlast,
        .cons hreader hreaders, hstopped⟩

/-- What a call finds lies behind the cursor, and the next call goes on behind it. -/
theorem isFramed_of_nextBlock {position : Nat} {block : Bytes} (hinside : c.IsInside)
    (h : c.nextBlock magic = .ok (some block, c'))
    (hposition : c'.position = position + block.length) :
    IsFramed magic c.file position block ∧ c.position + 8 ≤ position ∧ c'.file = c.file ∧
      c'.IsInside := by
  obtain ⟨start, hframed, hle, hstart, -⟩ := exists_isFramed_of_nextBlock hinside h
  obtain ⟨found, next, hnext, -, hfile, hinside'⟩ := exists_nextBlock magic hinside
  rw [h] at hnext
  cases hnext
  obtain rfl : start = position := by omega
  exact ⟨hframed, hle, hfile, hinside'⟩

variable {found : List (Nat × Bytes)} {last : Cursor}

/-- Every block lies in a frame behind the cursor. -/
theorem Yields.isFramed (h : Yields magic c found last) (hinside : c.IsInside) :
    ∀ x ∈ found, IsFramed magic c.file x.1 x.2 ∧ c.position + 8 ≤ x.1 := by
  induction h with
  | nil c => simp
  | @cons c c' c'' position block found hnext hposition _ _ ih =>
    obtain ⟨hframed, hle, hfile, hinside'⟩ := isFramed_of_nextBlock hinside hnext hposition
    rw [List.forall_mem_cons]
    refine ⟨⟨hframed, hle⟩, fun x hx ↦ ?_⟩
    obtain ⟨hlater, hbehind⟩ := ih hinside' x hx
    rw [hfile] at hlater
    exact ⟨hlater, by omega⟩

/-- A later block lies behind an earlier one, with its frame. -/
theorem Yields.pairwise (h : Yields magic c found last) (hinside : c.IsInside) :
    found.Pairwise fun x y ↦ x.1 + x.2.length + 8 ≤ y.1 := by
  induction h with
  | nil c => exact .nil
  | @cons c c' c'' position block found hnext hposition _ hsteps ih =>
    obtain ⟨-, -, -, hinside'⟩ := isFramed_of_nextBlock hinside hnext hposition
    refine .cons (fun x hx ↦ ?_) (ih hinside')
    rw [← hposition]
    exact (hsteps.isFramed hinside' x hx).2

/-- A frame takes at least nine bytes. -/
theorem Yields.mul_length_le (h : Yields magic c found last) (hinside : c.IsInside) :
    c.position + 9 * found.length ≤ c.file.length := by
  induction h with
  | nil c => exact hinside.le_length
  | @cons c c' c'' position block found hnext hposition _ _ ih =>
    obtain ⟨hframed, hle, hfile, hinside'⟩ := isFramed_of_nextBlock hinside hnext hposition
    have hpos := hframed.one_le_length
    have hrest := ih hinside'
    rw [hfile] at hrest
    rw [List.length_cons]
    omega

end Cursor

/-- Whatever a file holds, and whatever the magic is, all calls for the next block succeed, and after
at most one for every nine bytes comes one that finds nothing. Each block that they find is a piece
of the file in a frame of its own, and a later frame lies behind an earlier block. Every search
starts again further on and inside the file, and does not go back behind the end of the last
block. -/
theorem blocks_in_frames (magic : Magic) (file : Bytes) :
    ∃ (found : List (Nat × Bytes)) (last stopped : Cursor),
      Cursor.Yields magic (.start file) found last ∧
      last.nextBlock magic = .ok (none, stopped) ∧ 9 * found.length ≤ file.length ∧
      found.map Prod.snd = blocks magic file ∧
      (∀ x ∈ found, IsFramed magic file x.1 x.2) ∧
      (found.Pairwise fun x y ↦ x.1 + x.2.length + 8 ≤ y.1) ∧
      ∀ c : Cursor, c.floor ≤ c.position → c.position ≤ c.file.length →
        ∃ search, c.search magic = .ok search ∧
          search.cursor.file = c.file ∧ search.cursor.floor = c.floor ∧
          c.floor ≤ search.cursor.position ∧ search.cursor.position ≤ c.file.length ∧
          ∀ c', search = .again c' → c.position < c'.position ∧ c'.position < c.file.length := by
  have hinside : (Cursor.start file).IsInside := ⟨Nat.le_refl _, Nat.zero_le _⟩
  obtain ⟨found, last, stopped, hsteps, hlast, hreaders, hstopped⟩ :=
    Cursor.exists_yields magic hinside
  refine ⟨found, last, stopped, hsteps, hlast, ?_, ?_, ?_, hsteps.pairwise hinside, ?_⟩
  · have hle := hsteps.mul_length_le hinside
    exact (Nat.le_add_left _ _).trans hle
  · have hdrain : drainBlocks magic (.start file) = (found.map Prod.snd, stopped.reader) :=
      drain_of_yields hreaders hstopped
    rw [blocks, hdrain]
  · intro x hx
    exact (hsteps.isFramed hinside x hx).1
  · intro c hfloor hle
    obtain ⟨search, hsearch, hsearched⟩ := Cursor.exists_search magic hfloor
    have hprecedes := hsearched.precedes ⟨hfloor, hle⟩
    refine ⟨search, hsearch, hprecedes.file_eq, hprecedes.floor_eq, hfloor.trans hprecedes.le,
      hprecedes.le_length, ?_⟩
    rintro c' rfl
    exact (Cursor.lt_of_search_again hsearch).2

/-- Behind a stray byte and a frame without a body lie two blocks, and the second one holds a frame
itself. -/
theorem blocks_in_frames_ofInnerFrame :
    let magic := Network.bitcoin.magic
    let inner : Bytes := 0 :: frame magic [1, 2, 3, 4]
    let file : Bytes := 7 :: (frameHead magic 5 ++
      (frames magic [[5, 6, 7, 8], inner] ++ List.replicate 8 0))
    ∃ found : List (Nat × Bytes), found.map Prod.snd = [[5, 6, 7, 8], inner] ∧
      (∀ x ∈ found, IsFramed magic file x.1 x.2) ∧
      (found.Pairwise fun x y ↦ x.1 + x.2.length + 8 ≤ y.1) ∧
      ∃ c', (Cursor.start file).search magic = .ok (.again c') ∧ 0 < c'.position := by
  intro magic inner file
  obtain ⟨found, _, _, -, -, -, hblocks, hframed, hpairwise, hsearches⟩ :=
    blocks_in_frames magic file
  have hrecords : ∀ block ∈ [[5, 6, 7, 8], inner], IsRecord magic block := by decide
  have hstray : look magic ⟨file, 0⟩ = .again ⟨frameHead magic 5 ++
      (frames magic [[5, 6, 7, 8], inner] ++ List.replicate 8 0), 0⟩ := rfl
  have hempty : look magic ⟨frameHead magic 5 ++
      (frames magic [[5, 6, 7, 8], inner] ++ List.replicate 8 0), 0⟩ =
        .again ⟨frames magic [[5, 6, 7, 8], inner] ++ List.replicate 8 0, 1⟩ := rfl
  have hfile : blocks magic file = [[5, 6, 7, 8], inner] := by
    rw [blocks, Reader.start, drainBlocks_of_again hstray, drainBlocks_of_again hempty,
      drainBlocks_frames rfl hrecords, drainBlocks_of_stop rfl]
    rfl
  obtain ⟨search, hsearch, -, -, -, -, hagain⟩ :=
    hsearches (.start file) (Nat.le_refl _) (Nat.zero_le _)
  have hfound : (Cursor.start file).search magic = .ok (.again ((Cursor.start file).forward 1)) :=
    rfl
  rw [hsearch, Except.ok.injEq] at hfound
  rw [hfound] at hsearch hagain
  exact ⟨found, hblocks.trans hfile, hframed, hpairwise, _, hsearch, (hagain _ rfl).1⟩

end BlockFile
end TxoIndex

import TxoIndex.Proofs.BlockFile.Draining

/-!
# Seeking in a block file

A file is read at a position, and the search for a record goes back and forth in it: from a frame
that is none back to one byte behind its start, and from the front of a body back to the start of
the body. Here a cursor does so, and it refuses to go back behind its floor, which is the start of
the file at first and then the end of the last block. It never has to: every search ends further on
than it starts, or it is at the end of the file. So the cursor finds the same as a reader that has
nothing but the rest of the file.
-/

namespace TxoIndex

theorem Bytes.length_slice {bs : Bytes} {start count : Nat} (h : start + count ≤ bs.length) :
    (bs.slice start count).length = count := by
  rw [slice, List.length_take, List.length_drop]
  omega

theorem Bytes.numberAt_drop (bs : Bytes) (start offset width : Nat) :
    numberAt (bs.drop start) offset width = bs.numberAt (start + offset) width := by
  rw [numberAt, numberAt, slice, slice, List.drop_drop]

/-- A number inside a slice. -/
theorem Bytes.numberAt_slice (bs : Bytes) (start : Nat) {count offset width : Nat}
    (h : offset + width ≤ count) :
    (bs.slice start count).numberAt offset width = bs.numberAt (start + offset) width := by
  have hfits : width ≤ count - offset := by omega
  rw [numberAt, numberAt, slice, slice, slice, List.drop_take, List.drop_drop, List.take_take,
    Nat.min_eq_left hfits]

namespace BlockFile

/-! ## Cursors -/

structure Cursor where
  file : Bytes
  position : Nat
  /-- The end of the last block, or the start of the file. -/
  floor : Nat
  skipped : Nat
  deriving DecidableEq

/-- An attempt to go back behind the floor. -/
structure SeekError where
  position : Nat
  back : Nat
  floor : Nat
  deriving DecidableEq

inductive Search where
  | stop (c : Cursor)
  /-- A frame of a record of this length; the cursor is at its body. -/
  | record (length : Nat) (c : Cursor)
  /-- No record starts here, and the cursor is where to search next. -/
  | again (c : Cursor)

namespace Cursor

def start (file : Bytes) : Cursor := ⟨file, 0, 0, 0⟩

def forward (n : Nat) (c : Cursor) : Cursor := { c with position := c.position + n }

/-- A cursor that has read as far as the file goes. -/
def atEnd (c : Cursor) : Cursor := { c with position := max c.position c.file.length }

/-- Reads some bytes, or goes to the end of the file if there are not that many. -/
def read? (n : Nat) (c : Cursor) : Option Bytes × Cursor :=
  if c.position + n ≤ c.file.length then (some (c.file.slice c.position n), c.forward n)
  else (none, c.atEnd)

def rewind (n : Nat) (c : Cursor) : Except SeekError Cursor :=
  if c.floor + n ≤ c.position then .ok { c with position := c.position - n }
  else .error ⟨c.position, n, c.floor⟩

/-- Searches where the cursor stands: reads the head of a frame, and behind it the front of the
body, from where it goes back to the start of the body. Where no frame starts, it goes back to one
byte behind the start of the head. -/
def search (magic : Magic) (c : Cursor) : Except SeekError Search :=
  match c.read? 8 with
  | (none, c) => .ok (.stop c)
  | (some head, c) =>
    let length := head.numberAt 4 4
    if length = 0 then .ok (.stop c)
    else if head.take 4 ≠ magic ∨ maxRecordSize < length then Search.again <$> c.rewind 7
    else
      match c.read? 4 with
      | (none, c) => .ok (.stop c)
      | (some front, c) => do
        let c ← c.rewind 4
        if front = magic then return .again { c with skipped := c.skipped + 1 }
        else return .record length c

/-! ## One search -/

theorem read?_of_le {n : Nat} {c : Cursor} (h : c.position + n ≤ c.file.length) :
    c.read? n = (some (c.file.slice c.position n), c.forward n) := if_pos h

theorem read?_of_lt {n : Nat} {c : Cursor} (h : c.file.length < c.position + n) :
    c.read? n = (none, c.atEnd) := if_neg (Nat.not_le_of_gt h)

theorem forward_forward (c : Cursor) (m n : Nat) : (c.forward m).forward n = c.forward (m + n) := by
  rw [forward, forward, forward, Nat.add_assoc]

theorem atEnd_forward {c : Cursor} {n : Nat} (h : c.position + n ≤ c.file.length) :
    (c.forward n).atEnd = c.atEnd := by
  have hposition : max (c.position + n) c.file.length = max c.position c.file.length := by omega
  rw [atEnd, atEnd, forward, hposition]

/-- A search by the bytes that it reads. -/
theorem search_eq (magic : Magic) {c : Cursor} (h : c.position + 8 ≤ c.file.length) :
    c.search magic =
      if c.file.numberAt (c.position + 4) 4 = 0 then .ok (.stop (c.forward 8))
      else if c.file.slice c.position 4 ≠ magic ∨
        maxRecordSize < c.file.numberAt (c.position + 4) 4 then
          Search.again <$> (c.forward 8).rewind 7
      else if c.file.length < c.position + 12 then .ok (.stop c.atEnd)
      else do
        let c' ← (c.forward 12).rewind 4
        if c.file.slice (c.position + 8) 4 = magic then
          return .again { c' with skipped := c'.skipped + 1 }
        else return .record (c.file.numberAt (c.position + 4) 4) c' := by
  have hlength : (c.file.slice c.position 8).numberAt 4 4 = c.file.numberAt (c.position + 4) 4 :=
    Bytes.numberAt_slice c.file c.position (by decide)
  have hmagic : (c.file.slice c.position 8).take 4 = c.file.slice c.position 4 := List.take_take
  simp only [search, read?_of_le h, hlength, hmagic]
  by_cases hfront : c.position + 12 ≤ c.file.length
  · have hread : (c.forward 8).read? 4 =
        (some (c.file.slice (c.position + 8) 4), c.forward 12) := by
      have hle : (c.forward 8).position + 4 ≤ (c.forward 8).file.length := hfront
      rw [read?_of_le hle, forward_forward]
      rfl
    rw [hread, if_neg (Nat.not_lt.2 hfront)]
  · have hcut := Nat.lt_of_not_le hfront
    have hlt : (c.forward 8).file.length < (c.forward 8).position + 4 := hcut
    rw [read?_of_lt hlt, atEnd_forward h, if_pos hcut]

/-- What was read can be read again. -/
theorem rewind_forward {c : Cursor} (hfloor : c.floor ≤ c.position) {n back : Nat} (h : back ≤ n) :
    (c.forward n).rewind back = .ok (c.forward (n - back)) := by
  have hok : c.floor + back ≤ c.position + n := by omega
  have hposition : c.position + n - back = c.position + (n - back) := by omega
  rw [rewind, forward, if_pos hok, hposition, forward]

/-- What a search can find, and under which condition. -/
inductive Searched (magic : Magic) (c : Cursor) : Search → Prop where
  /-- There is not even the head of a frame. -/
  | short : c.file.length < c.position + 8 → Searched magic c (.stop c.atEnd)
  /-- The records end in front of this one. -/
  | zero : c.position + 8 ≤ c.file.length → c.file.numberAt (c.position + 4) 4 = 0 →
    Searched magic c (.stop (c.forward 8))
  | mismatch : c.position + 8 ≤ c.file.length → c.file.numberAt (c.position + 4) 4 ≠ 0 →
    c.file.slice c.position 4 ≠ magic ∨ maxRecordSize < c.file.numberAt (c.position + 4) 4 →
    Searched magic c (.again (c.forward 1))
  /-- The file ends in the front of the body. -/
  | cut : c.position + 8 ≤ c.file.length → IsLength (c.file.numberAt (c.position + 4) 4) →
    c.file.slice c.position 4 = magic → c.file.length < c.position + 12 →
    Searched magic c (.stop c.atEnd)
  /-- There is a frame without a body. -/
  | empty : c.position + 12 ≤ c.file.length → IsLength (c.file.numberAt (c.position + 4) 4) →
    c.file.slice c.position 4 = magic → c.file.slice (c.position + 8) 4 = magic →
    Searched magic c (.again { c.forward 8 with skipped := c.skipped + 1 })
  | record : c.position + 12 ≤ c.file.length → IsLength (c.file.numberAt (c.position + 4) 4) →
    c.file.slice c.position 4 = magic → c.file.slice (c.position + 8) 4 ≠ magic →
    Searched magic c (.record (c.file.numberAt (c.position + 4) 4) (c.forward 8))

variable {magic : Magic} {c : Cursor}

/-- A search from the floor on succeeds. -/
theorem exists_search (magic : Magic) (hfloor : c.floor ≤ c.position) :
    ∃ found, c.search magic = .ok found ∧ Searched magic c found := by
  by_cases hhead : c.position + 8 ≤ c.file.length
  · rw [search_eq magic hhead, rewind_forward hfloor (by decide), rewind_forward hfloor (by decide)]
    split
    · next hzero => exact ⟨_, rfl, .zero hhead hzero⟩
    next hzero =>
    split
    · next hno => exact ⟨_, rfl, .mismatch hhead hzero hno⟩
    next hframe =>
    have hstart : c.file.slice c.position 4 = magic := not_not.1 (not_or.1 hframe).1
    have hlength : IsLength (c.file.numberAt (c.position + 4) 4) :=
      ⟨Nat.pos_of_ne_zero hzero, Nat.le_of_not_lt (not_or.1 hframe).2⟩
    split
    · next hcut => exact ⟨_, rfl, .cut hhead hlength hstart hcut⟩
    next hfront =>
    change ∃ found, (if c.file.slice (c.position + 8) 4 = magic then
      Except.ok (Search.again { c.forward 8 with skipped := c.skipped + 1 })
      else .ok (.record (c.file.numberAt (c.position + 4) 4) (c.forward 8))) = .ok found ∧ _
    split
    · next hbody => exact ⟨_, rfl, .empty (Nat.not_lt.1 hfront) hlength hstart hbody⟩
    · next hbody => exact ⟨_, rfl, .record (Nat.not_lt.1 hfront) hlength hstart hbody⟩
  · have hshort := Nat.lt_of_not_le hhead
    rw [search, read?_of_lt hshort]
    exact ⟨_, rfl, .short hshort⟩

/-! ## What a reader finds -/

/-- The reader that has the rest of the file. -/
def reader (c : Cursor) : Reader := ⟨c.file.drop c.position, c.skipped⟩

theorem reader_forward (c : Cursor) (n : Nat) :
    (c.forward n).reader = ⟨c.reader.rest.drop n, c.skipped⟩ := by
  change (⟨c.file.drop (c.position + n), c.skipped⟩ : Reader) = _
  rw [reader, List.drop_drop]

theorem reader_atEnd (c : Cursor) : c.atEnd.reader = ⟨[], c.skipped⟩ := by
  have hrest : c.file.drop (max c.position c.file.length) = [] :=
    List.drop_eq_nil_of_le (Nat.le_max_right _ _)
  change (⟨c.file.drop (max c.position c.file.length), c.skipped⟩ : Reader) = _
  rw [hrest]

end Cursor

def Search.cursor : Search → Cursor
  | stop c => c
  | record _ c => c
  | again c => c

/-- What a reader finds in the same place. -/
def Search.look : Search → Look
  | stop c => .stop c.reader
  | record length c => .record length c.reader
  | again c => .again c.reader

namespace Cursor

theorem look_reader {magic : Magic} {c : Cursor} (h : c.position + 8 ≤ c.file.length) :
    look magic c.reader =
      if c.file.numberAt (c.position + 4) 4 = 0 then .stop (c.forward 8).reader
      else if c.file.slice c.position 4 ≠ magic ∨
        maxRecordSize < c.file.numberAt (c.position + 4) 4 then .again (c.forward 1).reader
      else if c.file.length < c.position + 12 then .stop c.atEnd.reader
      else if c.file.slice (c.position + 8) 4 = magic then
        .again ⟨(c.forward 8).reader.rest, c.skipped + 1⟩
      else .record (c.file.numberAt (c.position + 4) 4) (c.forward 8).reader := by
  have hwindow : 8 ≤ (c.file.drop c.position).length := by
    rw [List.length_drop]
    omega
  have hcut : ((c.file.drop c.position).drop 8).length < 4 ↔ c.file.length < c.position + 12 := by
    rw [List.length_drop, List.length_drop]
    omega
  have hfront : ((c.file.drop c.position).drop 8).take 4 = c.file.slice (c.position + 8) 4 := by
    rw [List.drop_drop, Bytes.slice]
  rw [reader, look_eq hwindow, Bytes.numberAt_drop, hfront, reader_forward, reader_forward,
    reader_atEnd]
  simp only [hcut]
  rfl

/-- The search goes on behind a head with the magic and a possible length. -/
theorem not_mismatch {magic start : Bytes} {length : Nat} (hmagic : start = magic)
    (hlength : IsLength length) : ¬ (start ≠ magic ∨ maxRecordSize < length) := by
  rw [not_or, not_not, Nat.not_lt]
  exact ⟨hmagic, hlength.2⟩

theorem Searched.look_eq {magic : Magic} {c : Cursor} {found : Search}
    (h : Searched magic c found) : look magic c.reader = found.look := by
  cases h with
  | short hshort =>
    have hlength : (c.file.drop c.position).length < 8 := by
      rw [List.length_drop]
      omega
    rw [reader, look_of_length_lt hlength, Search.look, reader_atEnd]
  | zero hhead hzero => rw [look_reader hhead, if_pos hzero, Search.look]
  | mismatch hhead hzero hno =>
    rw [look_reader hhead, if_neg hzero, if_pos hno, Search.look]
  | cut hhead hlength hmagic hcut =>
    rw [look_reader hhead, if_neg (Nat.ne_of_gt hlength.1), if_neg (not_mismatch hmagic hlength),
      if_pos hcut, Search.look]
  | empty hfront hlength hmagic hbody =>
    rw [look_reader (by omega), if_neg (Nat.ne_of_gt hlength.1),
      if_neg (not_mismatch hmagic hlength), if_neg (Nat.not_lt.2 hfront), if_pos hbody]
    rfl
  | record hfront hlength hmagic hbody =>
    rw [look_reader (by omega), if_neg (Nat.ne_of_gt hlength.1),
      if_neg (not_mismatch hmagic hlength), if_neg (Nat.not_lt.2 hfront), if_neg hbody,
      Search.look]

/-! ## Searching on -/

theorem eq_of_rewind {n : Nat} {c c' : Cursor} (h : c.rewind n = .ok c') :
    c' = { c with position := c.position - n } := by
  unfold rewind at h
  split at h
  · exact (Except.ok.inj h).symm
  · cases h

/-- A search starts again further on, and inside the file. -/
theorem lt_of_search_again {magic : Magic} {c c' : Cursor} (h : c.search magic = .ok (.again c')) :
    c'.file = c.file ∧ c.position < c'.position ∧ c'.position < c.file.length := by
  by_cases hhead : c.position + 8 ≤ c.file.length
  · rw [search_eq magic hhead] at h
    split at h
    · cases h
    split at h
    · cases hback : (c.forward 8).rewind 7 with
      | error e =>
        rw [hback] at h
        cases h
      | ok back =>
        rw [hback] at h
        cases h
        obtain rfl := eq_of_rewind hback
        have hahead : c.position < c.position + 8 - 7 ∧ c.position + 8 - 7 < c.file.length := by
          omega
        exact ⟨rfl, hahead⟩
    split at h
    · cases h
    next hfront =>
    cases hback : (c.forward 12).rewind 4 with
    | error e =>
      rw [hback] at h
      cases h
    | ok back =>
      simp only [hback, bind, Except.bind] at h
      split at h
      · cases h
        obtain rfl := eq_of_rewind hback
        have hahead : c.position < c.position + 12 - 4 ∧ c.position + 12 - 4 < c.file.length := by
          omega
        exact ⟨rfl, hahead⟩
      · cases h
  · rw [search, read?_of_lt (Nat.lt_of_not_le hhead)] at h
    cases h

/-- Goes to the body of the next record and returns its length, or goes to where the records end. -/
def nextRecord (magic : Magic) (c : Cursor) : Except SeekError (Option Nat × Cursor) :=
  match _hsearch : c.search magic with
  | .error e => .error e
  | .ok (.stop c) => .ok (none, c)
  | .ok (.record length c) => .ok (some length, c)
  | .ok (.again c) => nextRecord magic c
termination_by c.file.length - c.position
decreasing_by
  obtain ⟨hfile, hlt, hinside⟩ := lt_of_search_again _hsearch
  rw [hfile]
  omega

/-- The next block, unless the records end or the last one is cut short. No later search goes back
behind its end. -/
def nextBlock (magic : Magic) (c : Cursor) : Except SeekError (Option Bytes × Cursor) :=
  match c.nextRecord magic with
  | .error e => .error e
  | .ok (none, c) => .ok (none, c)
  | .ok (some length, c) =>
    match c.read? length with
    | (none, c) => .ok (none, c)
    | (some block, c) => .ok (some block, { c with floor := c.position })

/-! ## What is found -/

structure IsInside (c : Cursor) : Prop where
  floor_le : c.floor ≤ c.position
  le_length : c.position ≤ c.file.length

/-- The second cursor is where the first one is or further on, inside the same file, and their floor
is the same. -/
structure Precedes (c c' : Cursor) : Prop where
  file_eq : c'.file = c.file
  floor_eq : c'.floor = c.floor
  le : c.position ≤ c'.position
  le_length : c'.position ≤ c.file.length

theorem Precedes.trans {c c' c'' : Cursor} (h : c.Precedes c') (h' : c'.Precedes c'') :
    c.Precedes c'' where
  file_eq := h'.file_eq.trans h.file_eq
  floor_eq := h'.floor_eq.trans h.floor_eq
  le := h.le.trans h'.le
  le_length := h.file_eq ▸ h'.le_length

theorem Precedes.isInside {c c' : Cursor} (h : c.Precedes c') (hinside : c.IsInside) :
    c'.IsInside where
  floor_le := by
    rw [h.floor_eq]
    exact hinside.floor_le.trans h.le
  le_length := by
    rw [h.file_eq]
    exact h.le_length

theorem precedes_forward {c : Cursor} {n : Nat} (h : c.position + n ≤ c.file.length) :
    c.Precedes (c.forward n) := ⟨rfl, rfl, Nat.le_add_right _ _, h⟩

theorem precedes_atEnd {c : Cursor} (h : c.position ≤ c.file.length) : c.Precedes c.atEnd :=
  ⟨rfl, rfl, Nat.le_max_left _ _, Nat.max_le.2 ⟨h, Nat.le_refl _⟩⟩

variable {magic : Magic} {c : Cursor}

theorem Searched.precedes {found : Search} (h : Searched magic c found) (hinside : c.IsInside) :
    c.Precedes found.cursor := by
  cases h with
  | short => exact precedes_atEnd hinside.le_length
  | zero hhead => exact precedes_forward hhead
  | mismatch hhead => exact precedes_forward (by omega)
  | cut => exact precedes_atEnd hinside.le_length
  | empty hfront =>
    have hprecedes : c.Precedes (c.forward 8) := precedes_forward (by omega)
    exact ⟨rfl, rfl, hprecedes.le, hprecedes.le_length⟩
  | record hfront => exact precedes_forward (by omega)

/-- Searches one after another, to the first one that does not end in another search. -/
inductive Finds (magic : Magic) : Cursor → Option Nat → Cursor → Prop where
  | stop {c c' : Cursor} : Searched magic c (.stop c') → Finds magic c none c'
  | record {c c' : Cursor} {length : Nat} :
    Searched magic c (.record length c') → Finds magic c (some length) c'
  | again {c c' c'' : Cursor} {length? : Option Nat} :
    Searched magic c (.again c') → Finds magic c' length? c'' → Finds magic c length? c''

/-- The cursor never has to go back behind its floor. -/
theorem exists_finds (magic : Magic) (hinside : c.IsInside) :
    ∃ length? c', c.nextRecord magic = .ok (length?, c') ∧ Finds magic c length? c' := by
  obtain ⟨found, hsearch, hsearched⟩ := exists_search magic hinside.floor_le
  fun_induction nextRecord magic c generalizing found with
  | case1 c e herror =>
    rw [hsearch] at herror
    cases herror
  | case2 c c' hstop =>
    rw [hsearch, Except.ok.injEq] at hstop
    subst hstop
    exact ⟨none, c', rfl, .stop hsearched⟩
  | case3 c length c' hrecord =>
    rw [hsearch, Except.ok.injEq] at hrecord
    subst hrecord
    exact ⟨some length, c', rfl, .record hsearched⟩
  | case4 c c' hagain ih =>
    rw [hsearch, Except.ok.injEq] at hagain
    subst hagain
    have hinside' : c'.IsInside := (hsearched.precedes hinside).isInside hinside
    obtain ⟨found', hsearch', hsearched'⟩ := exists_search magic hinside'.floor_le
    obtain ⟨length?, c'', hfound, hfinds⟩ := ih hinside' found' hsearch' hsearched'
    exact ⟨length?, c'', hfound, .again hsearched hfinds⟩

theorem Finds.precedes {c' : Cursor} {length? : Option Nat} (h : Finds magic c length? c')
    (hinside : c.IsInside) : c.Precedes c' := by
  induction h with
  | stop hsearched => exact hsearched.precedes hinside
  | record hsearched => exact hsearched.precedes hinside
  | again hsearched _ ih =>
    have hprecedes := hsearched.precedes hinside
    exact hprecedes.trans (ih (hprecedes.isInside hinside))

/-- A reader finds the same record. -/
theorem Finds.nextRecord_reader {c' : Cursor} {length? : Option Nat}
    (h : Finds magic c length? c') :
    BlockFile.nextRecord magic c.reader = (length?, c'.reader) := by
  induction h with
  | stop hsearched => exact nextRecord_of_stop hsearched.look_eq
  | record hsearched => exact nextRecord_of_record hsearched.look_eq
  | again hsearched _ ih =>
    rw [nextRecord_of_again hsearched.look_eq]
    exact ih

/-- A block is read as a reader splits it off. -/
theorem split?_reader (hinside : c.IsInside) (n : Nat) : Bytes.split? n c.reader.rest =
    (c.read? n).1.map fun block ↦ (block, (c.read? n).2.reader.rest) := by
  by_cases hfits : c.position + n ≤ c.file.length
  · rw [read?_of_le hfits, Option.map_some, Bytes.split?_eq_some_iff, reader_forward]
    exact ⟨Bytes.length_slice hfits, (List.take_append_drop n _).symm⟩
  · rw [read?_of_lt (Nat.lt_of_not_le hfits), Option.map_none, Bytes.split?_eq_none_iff, reader,
      List.length_drop]
    have hle := hinside.le_length
    omega

/-- So the cursor finds the blocks that a reader finds. -/
theorem exists_nextBlock (magic : Magic) (hinside : c.IsInside) :
    ∃ found c', c.nextBlock magic = .ok (found, c') ∧
      BlockFile.nextBlock magic c.reader = (found, c'.reader) ∧
      c'.file = c.file ∧ c'.IsInside := by
  obtain ⟨length?, c', hrecord, hfinds⟩ := exists_finds magic hinside
  have hreader := hfinds.nextRecord_reader
  have hprecedes := hfinds.precedes hinside
  have hinside' := hprecedes.isInside hinside
  cases length? with
  | none =>
    refine ⟨none, c', ?_, ?_, hprecedes.file_eq, hinside'⟩
    · rw [nextBlock, hrecord]
    · rw [BlockFile.nextBlock, hreader]
  | some length =>
    have hsplit := split?_reader hinside' length
    by_cases hfits : c'.position + length ≤ c'.file.length
    · rw [read?_of_le hfits, Option.map_some] at hsplit
      refine ⟨some (c'.file.slice c'.position length),
        { c'.forward length with floor := c'.position + length }, ?_, ?_, hprecedes.file_eq,
        Nat.le_refl _, hfits⟩
      · simp only [nextBlock, hrecord, read?_of_le hfits]
        rfl
      · simp only [BlockFile.nextBlock, hreader, hsplit]
        rfl
    · have hcut := Nat.lt_of_not_le hfits
      rw [read?_of_lt hcut, Option.map_none] at hsplit
      have hend := precedes_atEnd hinside'.le_length
      refine ⟨none, c'.atEnd, ?_, ?_, hprecedes.file_eq, hend.isInside hinside'⟩
      · simp only [nextBlock, hrecord, read?_of_lt hcut]
      · simp only [BlockFile.nextBlock, hreader, hsplit, reader_atEnd]
        rfl

end Cursor
end BlockFile
end TxoIndex

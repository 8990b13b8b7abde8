import Mathlib.Data.List.Infix
import TxoIndex.BlockFile
import TxoIndex.Bytes.Width

/-!
# Frames one after another

What a reader finds where it stands is decided by the eight bytes in front of it and, if these are
the head of a frame, by the four bytes behind them. So a frame with a record in it is read as this
record, whatever follows, and a row of such frames is drained record by record.
-/

namespace TxoIndex.BlockFile

variable {magic : Magic} {bs rest block : Bytes} {skipped : Nat}

/-! ## Where a reader stands -/

theorem look_eq (h : 8 ≤ bs.length) : look magic ⟨bs, skipped⟩ =
    if bs.numberAt 4 4 = 0 then .stop ⟨bs.drop 8, skipped⟩
    else if bs.take 4 ≠ magic ∨ maxRecordSize < bs.numberAt 4 4 then .again ⟨bs.drop 1, skipped⟩
    else if (bs.drop 8).length < 4 then .stop ⟨[], skipped⟩
    else if (bs.drop 8).take 4 = magic then .again ⟨bs.drop 8, skipped + 1⟩
    else .record (bs.numberAt 4 4) ⟨bs.drop 8, skipped⟩ := by
  match bs, h with
  | m₀ :: m₁ :: m₂ :: m₃ :: l₀ :: l₁ :: l₂ :: l₃ :: body, _ =>
    have hlength : Bytes.numberAt (m₀ :: m₁ :: m₂ :: m₃ :: l₀ :: l₁ :: l₂ :: l₃ :: body) 4 4 =
        Bytes.littleEndianValue [l₀, l₁, l₂, l₃] := rfl
    rw [hlength]
    match body with
    | [] => rfl
    | [_] => rfl
    | [_, _] => rfl
    | [_, _, _] => rfl
    | b₀ :: b₁ :: b₂ :: b₃ :: tail =>
      have hfour : ¬ (b₀ :: b₁ :: b₂ :: b₃ :: tail).length < 4 := by simp
      change _ = if _ then _ else if _ then _ else
        if (b₀ :: b₁ :: b₂ :: b₃ :: tail).length < 4 then _ else _
      rw [if_neg hfour]
      rfl

theorem look_of_length_lt (h : bs.length < 8) :
    look magic ⟨bs, skipped⟩ = .stop ⟨[], skipped⟩ := by
  unfold look
  split
  · next hlong =>
    cases hlong
    simp only [List.length_cons] at h
    omega
  · next hother =>
    cases hother
    rfl

theorem nextRecord_of_again {r r' : Reader} (h : look magic r = .again r') :
    nextRecord magic r = nextRecord magic r' := by
  rw [nextRecord]
  split
  · next hlook => simp [h] at hlook
  · next hlook => simp [h] at hlook
  · next hlook =>
    rw [h, Look.again.injEq] at hlook
    rw [hlook]

theorem nextRecord_of_record {r r' : Reader} {length : Nat} (h : look magic r = .record length r') :
    nextRecord magic r = (some length, r') := by
  rw [nextRecord]
  split
  · next hlook => simp [h] at hlook
  · next hlook =>
    rw [h, Look.record.injEq] at hlook
    rw [hlook.1, hlook.2]
  · next hlook => simp [h] at hlook

theorem nextRecord_of_stop {r r' : Reader} (h : look magic r = .stop r') :
    nextRecord magic r = (none, r') := by
  rw [nextRecord]
  split
  · next hlook =>
    rw [h, Look.stop.injEq] at hlook
    rw [hlook]
  · next hlook => simp [h] at hlook
  · next hlook => simp [h] at hlook

/-! ## The head of a frame -/

def frameHead (magic : Magic) (length : Nat) : Bytes := magic ++ Bytes.littleEndian 4 length

section Head

variable {length : Nat} (hmagic : magic.length = 4) (hlength : length < 2 ^ 32)

include hmagic

theorem length_frameHead : (frameHead magic length).length = 8 := by
  rw [frameHead, List.length_append, hmagic, Bytes.length_littleEndian]

theorem take_frameHead : (frameHead magic length ++ bs).take 4 = magic := by
  rw [frameHead, List.append_assoc, List.take_left' hmagic]

theorem drop_frameHead : (frameHead magic length ++ bs).drop 8 = bs :=
  List.drop_left' (length_frameHead hmagic)

include hlength in
theorem numberAt_frameHead : (frameHead magic length ++ bs).numberAt 4 4 = length := by
  have hslice : (frameHead magic length ++ bs).slice 4 4 = Bytes.littleEndian 4 length := by
    rw [Bytes.slice, frameHead, List.append_assoc, List.drop_left' hmagic,
      List.take_left' (Bytes.length_littleEndian 4 length)]
  rw [Bytes.numberAt, hslice, Bytes.littleEndianValue_littleEndian]
  exact Nat.mod_eq_of_lt hlength

end Head

/-! ## Records in frames -/

/-- A length field of a frame in which a record is possible. -/
def IsLength (length : Nat) : Prop := 0 < length ∧ length ≤ maxRecordSize

instance (length : Nat) : Decidable (IsLength length) :=
  inferInstanceAs (Decidable (0 < length ∧ length ≤ maxRecordSize))

theorem IsLength.lt {length : Nat} (h : IsLength length) : length < 2 ^ 32 :=
  Nat.lt_of_le_of_lt h.2 (by decide)

/-- What a reader sees behind the head of a frame. -/
theorem look_frameHead (hmagic : magic.length = 4) {length : Nat} (hlength : IsLength length)
    (body : Bytes) (skipped : Nat) : look magic ⟨frameHead magic length ++ body, skipped⟩ =
      if body.length < 4 then .stop ⟨[], skipped⟩
      else if body.take 4 = magic then .again ⟨body, skipped + 1⟩
      else .record length ⟨body, skipped⟩ := by
  have hwindow : 8 ≤ (frameHead magic length ++ body).length := by
    rw [List.length_append, length_frameHead hmagic]
    exact Nat.le_add_right 8 _
  have hframe : ¬ (magic ≠ magic ∨ maxRecordSize < length) := by
    simp [hlength.2]
  rw [look_eq hwindow, numberAt_frameHead hmagic hlength.lt, take_frameHead hmagic,
    drop_frameHead hmagic, if_neg (Nat.ne_of_gt hlength.1), if_neg hframe]

/-- A block that a frame can hold as a record. -/
structure IsRecord (magic : Magic) (block : Bytes) : Prop where
  four_le_length : 4 ≤ block.length
  length_le : block.length ≤ maxRecordSize
  /-- Such a frame would have no body. -/
  not_magic_prefix : ¬ magic <+: block

instance (magic : Magic) (block : Bytes) : Decidable (IsRecord magic block) :=
  decidable_of_iff (4 ≤ block.length ∧ block.length ≤ maxRecordSize ∧ ¬ magic <+: block)
    ⟨fun h ↦ ⟨h.1, h.2.1, h.2.2⟩,
      fun h ↦ ⟨h.four_le_length, h.length_le, h.not_magic_prefix⟩⟩

theorem IsRecord.isLength (h : IsRecord magic block) : IsLength block.length :=
  ⟨Nat.lt_of_lt_of_le (by decide) h.four_le_length, h.length_le⟩

def frames (magic : Magic) (blocks : List Bytes) : Bytes := blocks.flatMap (frame magic)

theorem frame_eq (magic : Magic) (block : Bytes) :
    frame magic block = frameHead magic block.length ++ block := rfl

theorem nextRecord_frame (hmagic : magic.length = 4) (hblock : IsRecord magic block) :
    nextRecord magic ⟨frame magic block ++ rest, skipped⟩ =
      (some block.length, ⟨block ++ rest, skipped⟩) := by
  apply nextRecord_of_record
  have hfour := hblock.four_le_length
  have hbody : ¬ (block ++ rest).length < 4 := by
    rw [List.length_append]
    omega
  have hfront : (block ++ rest).take 4 ≠ magic := by
    rw [List.take_append_of_le_length hfour]
    intro htake
    exact hblock.not_magic_prefix (htake ▸ List.take_prefix 4 block)
  rw [frame_eq, List.append_assoc, look_frameHead hmagic hblock.isLength, if_neg hbody,
    if_neg hfront]

/-- Readers that come to the same record find the same block. -/
theorem nextBlock_congr {r r' : Reader} (h : nextRecord magic r = nextRecord magic r') :
    nextBlock magic r = nextBlock magic r' := by
  rw [nextBlock, nextBlock, h]

theorem nextBlock_frame (hmagic : magic.length = 4) (hblock : IsRecord magic block) :
    nextBlock magic ⟨frame magic block ++ rest, skipped⟩ = (some block, ⟨rest, skipped⟩) := by
  have hsplit : Bytes.split? block.length (block ++ rest) = some (block, rest) :=
    Bytes.split?_eq_some_iff.2 ⟨rfl, rfl⟩
  rw [nextBlock, nextRecord_frame hmagic hblock]
  simp only [hsplit]

/-! ## Draining -/

section Drain

variable {α : Type} {next : Reader → Option α × Reader}
  {hnext : ∀ {r r' : Reader} {a : α}, next r = (some a, r') → r'.rest.length < r.rest.length}

theorem drain_of_none {r r' : Reader} (h : next r = (none, r')) (done : List α) :
    drain next hnext r done = (done.reverse, r') := by
  rw [drain]
  split
  · next hr =>
    rw [h, Prod.mk.injEq] at hr
    rw [hr.2]
  · next hr => simp [h] at hr

theorem drain_of_some {r r' : Reader} {a : α} (h : next r = (some a, r')) (done : List α) :
    drain next hnext r done = drain next hnext r' (a :: done) := by
  rw [drain]
  split
  · next hr => simp [h] at hr
  · next hr =>
    rw [h, Prod.mk.injEq, Option.some.injEq] at hr
    rw [hr.1, hr.2]

/-- Readers of which the next step is the same are drained alike. -/
theorem drain_congr {r r' : Reader} (h : next r = next r') :
    drain next hnext r [] = drain next hnext r' [] := by
  cases hr : next r' with
  | mk found r'' =>
    rw [hr] at h
    cases found with
    | none => rw [drain_of_none h, drain_of_none hr]
    | some a => rw [drain_of_some h, drain_of_some hr]

/-- What was found before comes first. -/
theorem drain_eq_append (r : Reader) (done : List α) : drain next hnext r done =
    (done.reverse ++ (drain next hnext r []).1, (drain next hnext r []).2) := by
  induction hlength : r.rest.length using Nat.strong_induction_on generalizing r done with
  | h length ih =>
    cases hr : next r with
    | mk found r' =>
      cases found with
      | none => simp only [drain_of_none hr, List.reverse_nil, List.append_nil]
      | some a =>
        have hshorter : r'.rest.length < length := hlength ▸ hnext hr
        rw [drain_of_some hr, drain_of_some hr, ih _ hshorter r' (a :: done) rfl,
          ih _ hshorter r' [a] rfl]
        simp only [List.reverse_cons, List.reverse_nil, List.nil_append, List.append_assoc]

theorem drain_eq_cons {r r' : Reader} {a : α} (h : next r = (some a, r')) :
    drain next hnext r [] = (a :: (drain next hnext r' []).1, (drain next hnext r' []).2) := by
  rw [drain_of_some h, drain_eq_append]
  rfl

end Drain

theorem drainBlocks_of_none {r r' : Reader} (h : nextBlock magic r = (none, r')) :
    drainBlocks magic r = ([], r') := drain_of_none h []

theorem drainBlocks_of_some {r r' : Reader} (h : nextBlock magic r = (some block, r')) :
    drainBlocks magic r = (block :: (drainBlocks magic r').1, (drainBlocks magic r').2) :=
  drain_eq_cons h

theorem drainBlocks_of_stop {r r' : Reader} (h : look magic r = .stop r') :
    drainBlocks magic r = ([], r') := by
  apply drainBlocks_of_none
  rw [nextBlock, nextRecord_of_stop h]

/-- Looking again finds the same. -/
theorem drainBlocks_of_again {r r' : Reader} (h : look magic r = .again r') :
    drainBlocks magic r = drainBlocks magic r' :=
  drain_congr (nextBlock_congr (nextRecord_of_again h))

/-- The records of a row of frames are found, and then what follows the frames. -/
theorem drainBlocks_frames (hmagic : magic.length = 4) {blocks : List Bytes}
    (hblocks : ∀ block ∈ blocks, IsRecord magic block) (rest : Bytes) (skipped : Nat) :
    drainBlocks magic ⟨frames magic blocks ++ rest, skipped⟩ =
      (blocks ++ (drainBlocks magic ⟨rest, skipped⟩).1, (drainBlocks magic ⟨rest, skipped⟩).2) := by
  induction blocks with
  | nil => rfl
  | cons block blocks ih =>
    obtain ⟨hblock, hblocks⟩ := List.forall_mem_cons.1 hblocks
    rw [frames, List.flatMap_cons, List.append_assoc,
      drainBlocks_of_some (nextBlock_frame hmagic hblock), ← frames, ih hblocks]
    rfl

/-- Nothing is found at the end of a file. -/
theorem drainBlocks_nil (magic : Magic) (skipped : Nat) :
    drainBlocks magic ⟨[], skipped⟩ = ([], ⟨[], skipped⟩) := drainBlocks_of_stop rfl

end TxoIndex.BlockFile

import TxoIndex.Network
import TxoIndex.Proofs.BlockFile.Draining

/-!
# Reading back what was written

A file is written as a row of entries. An entry is a record in its frame, with any number of frames
in front of it that were left without a body. Behind the last entry the data may stop anywhere: at
the end of the file, within the head of a frame, at a length field of zero, or within a body.

However such a file ends, its records are read back as they were written, in their order, and the
frames without a body are counted. What is in a record plays no part, so a record can hold frames
itself.
-/

namespace TxoIndex.BlockFile

variable {magic : Magic} {rest : Bytes} {skipped : Nat}

/-! ## Frames without a body -/

def emptyFrames (magic : Magic) (lengths : List Nat) : Bytes := lengths.flatMap (frameHead magic)

theorem magic_prefix_emptyFrames_append (hrest : magic <+: rest) (lengths : List Nat) :
    magic <+: emptyFrames magic lengths ++ rest := by
  cases lengths with
  | nil => exact hrest
  | cons length lengths =>
    rw [emptyFrames, List.flatMap_cons, frameHead, List.append_assoc, List.append_assoc]
    exact List.prefix_append magic _

/-- Frames without a body in front of a frame are skipped, and counted. -/
theorem nextRecord_emptyFrames (hmagic : magic.length = 4) {lengths : List Nat}
    (hlengths : ∀ length ∈ lengths, IsLength length) (hrest : magic <+: rest) (skipped : Nat) :
    nextRecord magic ⟨emptyFrames magic lengths ++ rest, skipped⟩ =
      nextRecord magic ⟨rest, skipped + lengths.length⟩ := by
  induction lengths generalizing skipped with
  | nil => rfl
  | cons length lengths ih =>
    obtain ⟨hlength, hlengths⟩ := List.forall_mem_cons.1 hlengths
    have hnext : magic <+: emptyFrames magic lengths ++ rest :=
      magic_prefix_emptyFrames_append hrest lengths
    have hfour : ¬ (emptyFrames magic lengths ++ rest).length < 4 := by
      have hle := hnext.length_le
      omega
    have htake : (emptyFrames magic lengths ++ rest).take 4 = magic :=
      hmagic ▸ (List.prefix_iff_eq_take.1 hnext).symm
    have hlook := look_frameHead hmagic hlength (emptyFrames magic lengths ++ rest) skipped
    rw [if_neg hfour, if_pos htake] at hlook
    calc
      nextRecord magic ⟨emptyFrames magic (length :: lengths) ++ rest, skipped⟩ =
          nextRecord magic ⟨frameHead magic length ++ (emptyFrames magic lengths ++ rest),
            skipped⟩ := by
        rw [emptyFrames, List.flatMap_cons, List.append_assoc]
        rfl
      _ = nextRecord magic ⟨emptyFrames magic lengths ++ rest, skipped + 1⟩ :=
        nextRecord_of_again hlook
      _ = nextRecord magic ⟨rest, skipped + 1 + lengths.length⟩ := ih hlengths (skipped + 1)
      _ = nextRecord magic ⟨rest, skipped + (length :: lengths).length⟩ := by
        rw [List.length_cons, Nat.add_assoc, Nat.add_comm 1]

/-! ## Entries -/

/-- A record, with the length fields of the frames without a body in front of it. -/
structure Entry where
  emptyLengths : List Nat
  record : Bytes

/-- An entry that can be written, and read back. -/
structure Entry.IsValid (magic : Magic) (e : Entry) : Prop where
  isLength : ∀ length ∈ e.emptyLengths, IsLength length
  isRecord : IsRecord magic e.record

instance (magic : Magic) (e : Entry) : Decidable (e.IsValid magic) :=
  decidable_of_iff ((∀ length ∈ e.emptyLengths, IsLength length) ∧ IsRecord magic e.record)
    ⟨fun h ↦ ⟨h.1, h.2⟩, fun h ↦ ⟨h.isLength, h.isRecord⟩⟩

def Entry.encode (magic : Magic) (e : Entry) : Bytes :=
  emptyFrames magic e.emptyLengths ++ frame magic e.record

def emptyCount (entries : List Entry) : Nat :=
  (entries.map fun e ↦ e.emptyLengths.length).sum

theorem nextBlock_entry (hmagic : magic.length = 4) {e : Entry} (he : e.IsValid magic) :
    nextBlock magic ⟨e.encode magic ++ rest, skipped⟩ =
      (some e.record, ⟨rest, skipped + e.emptyLengths.length⟩) := by
  have hframe : magic <+: frame magic e.record ++ rest := by
    rw [frame, List.append_assoc, List.append_assoc]
    exact List.prefix_append magic _
  have hskip := nextRecord_emptyFrames hmagic he.isLength hframe skipped
  rw [Entry.encode, List.append_assoc, nextBlock_congr hskip, nextBlock_frame hmagic he.isRecord]

theorem yields_entries (hmagic : magic.length = 4) {entries : List Entry}
    (hentries : ∀ e ∈ entries, e.IsValid magic) (rest : Bytes) (skipped : Nat) :
    Yields (nextBlock magic) ⟨entries.flatMap (Entry.encode magic) ++ rest, skipped⟩
      (entries.map Entry.record) ⟨rest, skipped + emptyCount entries⟩ := by
  induction entries generalizing skipped with
  | nil => exact .nil ⟨rest, skipped⟩
  | cons e entries ih =>
    obtain ⟨he, hentries⟩ := List.forall_mem_cons.1 hentries
    have hrest := ih hentries (skipped + e.emptyLengths.length)
    rw [Nat.add_assoc] at hrest
    rw [List.flatMap_cons, List.append_assoc]
    exact .cons (nextBlock_entry hmagic he) hrest

/-! ## Endings -/

/-- What may lie behind the last entry of a file. -/
inductive IsEnding (magic : Magic) : Bytes → Prop where
  /-- The end of the file, or the start of a frame's head. -/
  | short {bytes : Bytes} : bytes.length < 8 → IsEnding magic bytes
  /-- A length field of zero, and any bytes behind it. -/
  | zeroLength {head : Bytes} (rest : Bytes) : head.length = 4 →
    IsEnding magic (head ++ [0, 0, 0, 0] ++ rest)
  /-- The head of a frame, and less than the body that it announces. -/
  | cutShort {length : Nat} {body : Bytes} : IsLength length → body.length < length →
    ¬ magic <+: body → IsEnding magic (frameHead magic length ++ body)

theorem nextBlock_ending (hmagic : magic.length = 4) {ending : Bytes} (h : IsEnding magic ending)
    (skipped : Nat) : ∃ rest, nextBlock magic ⟨ending, skipped⟩ = (none, ⟨rest, skipped⟩) := by
  cases h with
  | short hshort =>
    refine ⟨[], ?_⟩
    rw [nextBlock, nextRecord_of_stop (look_of_length_lt hshort)]
  | @zeroLength head rest hhead =>
    refine ⟨rest, ?_⟩
    have hwindow : 8 ≤ (head ++ [0, 0, 0, 0] ++ rest).length := by
      simp only [List.length_append, List.length_cons, hhead]
      omega
    have hzero : Bytes.numberAt (head ++ [0, 0, 0, 0] ++ rest) 4 4 = 0 := by
      rw [Bytes.numberAt, Bytes.slice, List.append_assoc, List.drop_left' hhead]
      rfl
    have hdrop : (head ++ [0, 0, 0, 0] ++ rest).drop 8 = rest :=
      List.drop_left' (by rw [List.length_append, hhead]; rfl)
    have hlook : look magic ⟨head ++ [0, 0, 0, 0] ++ rest, skipped⟩ = .stop ⟨rest, skipped⟩ := by
      rw [look_eq hwindow, if_pos hzero, hdrop]
    rw [nextBlock, nextRecord_of_stop hlook]
  | @cutShort length body hlength hcut hbody =>
    refine ⟨[], ?_⟩
    have htake : body.take 4 ≠ magic := fun htake ↦ hbody (htake ▸ List.take_prefix 4 body)
    have hlook := look_frameHead hmagic hlength body skipped
    rw [if_neg htake] at hlook
    by_cases hfour : body.length < 4
    · rw [if_pos hfour] at hlook
      rw [nextBlock, nextRecord_of_stop hlook]
    · rw [if_neg hfour] at hlook
      have hsplit : Bytes.split? length body = none := Bytes.split?_eq_none_iff.2 hcut
      rw [nextBlock, nextRecord_of_record hlook]
      simp only [hsplit]

/-- The records of the entries are read back one after another, and then none is found; draining
collects the same records. Every frame without a body was skipped, and nothing else. -/
theorem read_back_entries (hmagic : magic.length = 4) {entries : List Entry}
    (hentries : ∀ e ∈ entries, e.IsValid magic) {ending : Bytes} (hending : IsEnding magic ending) :
    let start := Reader.start (entries.flatMap (Entry.encode magic) ++ ending)
    ∃ last finished, Yields (nextBlock magic) start (entries.map Entry.record) last ∧
      nextBlock magic last = (none, finished) ∧
      drainBlocks magic start = (entries.map Entry.record, finished) ∧
      finished.skipped = emptyCount entries := by
  intro start
  have hsteps := yields_entries hmagic hentries ending 0
  rw [Nat.zero_add] at hsteps
  obtain ⟨rest, hlast⟩ := nextBlock_ending hmagic hending (emptyCount entries)
  exact ⟨_, ⟨rest, emptyCount entries⟩, hsteps, hlast, drain_of_yields hsteps hlast, rfl⟩

/-- A record that holds a frame itself, behind two frames without a body and in front of a body cut
short. -/
theorem read_back_entries_ofInnerFrame :
    let magic := Network.bitcoin.magic
    let inner : Bytes := 0 :: frame magic [1, 2, 3, 4]
    let entries : List Entry := [⟨[], [5, 6, 7, 8]⟩, ⟨[1, 4000000], inner⟩]
    let ending := frameHead magic 10 ++ [9, 9, 9, 9, 9]
    (∀ e ∈ entries, e.IsValid magic) ∧ IsEnding magic ending ∧
      ∃ finished, drainBlocks magic (.start (entries.flatMap (Entry.encode magic) ++ ending)) =
        ([[5, 6, 7, 8], inner], finished) ∧ finished.skipped = 2 := by
  intro magic inner entries ending
  have hentries : ∀ e ∈ entries, e.IsValid magic := by decide
  have hending : IsEnding magic ending := .cutShort (by decide) (by decide) (by decide)
  obtain ⟨_, finished, -, -, hdrain, hskipped⟩ := read_back_entries rfl hentries hending
  exact ⟨hentries, hending, finished, hdrain, hskipped⟩

end TxoIndex.BlockFile

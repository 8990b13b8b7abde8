import TxoIndex.Proofs.Wire.Truncation

/-!
# The shortest spelling of a number

A number can be spelled in every form that has room for it, and the shortest of these spellings is
the one that is written. A byte string starts with a spelling or ends inside of one, so there are
three cases: it starts with the shortest spelling of a number, which is read whatever follows it; it
starts with a longer one, which is refused as such; or it ends too early. A front of a longer
spelling ends too early as well, since the number behind a tag is not looked at before it is
complete.
-/

namespace TxoIndex

namespace CompactSize

/-- These bytes spell the number in one of the forms, the shortest or not. -/
inductive Spelling : Nat → Bytes → Prop where
  | single {n : Nat} : n < 0xfd → Spelling n [UInt8.ofNat n]
  | tagged {tag : UInt8} {bytes least n : Nat} : IsTag tag bytes least → n < 256 ^ bytes →
    Spelling n (tag :: Bytes.littleEndian bytes n)

/-- These bytes spell the number, and no fewer bytes do. -/
structure IsShortest (n : Nat) (bs : Bytes) : Prop where
  spelling : Spelling n bs
  length_le {other : Bytes} : Spelling n other → bs.length ≤ other.length

/-! ## Spellings of one number -/

theorem IsTag.width_le {tag : UInt8} {bytes least n : Nat} (h : IsTag tag bytes least)
    (hn : n < least) : width n ≤ bytes := by
  cases h with
  | two =>
    rw [width, if_pos hn]
    decide
  | four =>
    rw [width, if_pos hn]
    split <;> decide
  | eight =>
    rw [width, if_pos hn]
    split
    · decide
    · split <;> decide

theorem width_mem (n : Nat) : width n ∈ [1, 3, 5, 9] := by
  unfold width
  split
  · decide
  · split
    · decide
    · split <;> decide

theorem spelling_encode {n : Nat} (hn : n < UInt64.size) : Spelling n (encode n) := by
  by_cases h : n < 0xfd
  · rw [encode_of_lt h]
    exact .single h
  · obtain ⟨tag, bytes, least, htag, -, hlt, heq⟩ := exists_encode_eq_cons (Nat.le_of_not_lt h)
    rw [heq]
    exact .tagged htag (hlt hn)

namespace Spelling

variable {n : Nat} {bs : Bytes}

theorem lt_size (h : Spelling n bs) : n < UInt64.size := by
  cases h with
  | single hn => exact Nat.lt_trans hn (by decide)
  | tagged htag hn => exact htag.lt_size hn

/-- A spelling is the one that is written, or it takes more bytes. -/
theorem eq_encode_or_width_lt (h : Spelling n bs) : bs = encode n ∨ width n < bs.length := by
  cases h with
  | single hn => exact .inl (encode_of_lt hn).symm
  | @tagged tag bytes least _ htag hn =>
    by_cases hleast : least ≤ n
    · exact .inl (htag.encode_eq hleast hn).symm
    · right
      rw [List.length_cons, Bytes.length_littleEndian]
      exact Nat.lt_succ_of_le (htag.width_le (Nat.lt_of_not_le hleast))

end Spelling

theorem isShortest_iff {n : Nat} {bs : Bytes} :
    IsShortest n bs ↔ n < UInt64.size ∧ bs = encode n := by
  constructor
  · intro h
    have hn : n < UInt64.size := h.spelling.lt_size
    have hle : bs.length ≤ width n := by
      rw [← length_encode]
      exact h.length_le (spelling_encode hn)
    exact ⟨hn, h.spelling.eq_encode_or_width_lt.resolve_right (Nat.not_lt.2 hle)⟩
  · rintro ⟨hn, rfl⟩
    refine ⟨spelling_encode hn, fun {other} hother ↦ ?_⟩
    rcases hother.eq_encode_or_width_lt with rfl | hlt
    · exact Nat.le_refl _
    · rw [length_encode]
      exact Nat.le_of_lt hlt

/-! ## Spellings that are refused -/

namespace Spelling

variable {n : Nat} {bs : Bytes}

/-- A spelling that is too long is told by the number behind its tag. -/
theorem read_of_not_isShortest (h : Spelling n bs) (hlong : ¬ IsShortest n bs) (rest : Bytes) :
    read (bs ++ rest) = .error .nonMinimal := by
  have hn := h.lt_size
  cases h with
  | single h => exact absurd (isShortest_iff.2 ⟨hn, (encode_of_lt h).symm⟩) hlong
  | @tagged tag bytes least _ htag hroom =>
    have hleast : n < least := by
      by_contra hleast
      have heq := htag.encode_eq (Nat.le_of_not_lt hleast) hroom
      exact hlong (isShortest_iff.2 ⟨hn, heq.symm⟩)
    have hsplit : Bytes.split? bytes (Bytes.littleEndian bytes n ++ rest) =
        some (Bytes.littleEndian bytes n, rest) :=
      Bytes.split?_eq_some_iff.2 ⟨Bytes.length_littleEndian bytes n, rfl⟩
    rw [List.cons_append, htag.read_cons, readTagged, hsplit]
    simp only [Bytes.littleEndianValue_littleEndian, Nat.mod_eq_of_lt hroom]
    exact if_pos hleast

theorem read_of_isPrefix (h : Spelling n bs) {front : Bytes} (hfront : front <+: bs)
    (hne : front ≠ bs) : read front = .error .truncated := by
  cases h with
  | single => exact read_of_isPrefix_singleton hfront hne
  | tagged htag => exact htag.read_of_isPrefix hfront hne

end Spelling

/-- A byte string starts with a spelling, or ends inside of one. -/
theorem exists_spelling (window : Bytes) :
    (∃ n form, Spelling n form ∧ form <+: window) ∨
      ∃ n form, Spelling n form ∧ window <+: form ∧ window ≠ form := by
  cases window with
  | nil => exact .inr ⟨0, [0], .single (by decide), List.nil_prefix, by decide⟩
  | cons tag rest =>
    by_cases htag : tag.toNat < 0xfd
    · refine .inl ⟨tag.toNat, [tag], ?_, List.prefix_append [tag] rest⟩
      have hsingle := Spelling.single htag
      rwa [UInt8.ofNat_toNat] at hsingle
    · obtain ⟨bytes, least, htag⟩ := exists_isTag (Nat.le_of_not_lt htag)
      have hspelling {digits : Bytes} (hlength : digits.length = bytes) :
          Spelling (Bytes.littleEndianValue digits) (tag :: digits) := by
        have hlt := Bytes.littleEndianValue_lt digits
        rw [hlength] at hlt
        have htagged := Spelling.tagged htag hlt
        rwa [← hlength, Bytes.littleEndian_littleEndianValue] at htagged
      by_cases hlength : bytes ≤ rest.length
      · refine .inl ⟨_, _, hspelling (List.length_take_of_le hlength), ?_⟩
        exact List.cons_prefix_cons.2 ⟨rfl, List.take_prefix bytes rest⟩
      · -- It does not matter which digits are missing.
        have hpadded : (rest ++ List.replicate (bytes - rest.length) 0).length = bytes := by
          rw [List.length_append, List.length_replicate]
          omega
        refine .inr ⟨_, _, hspelling hpadded, ?_, ?_⟩
        · exact List.cons_prefix_cons.2 ⟨rfl, List.prefix_append ..⟩
        · intro heq
          have hsame := congrArg List.length (List.cons.inj heq).2
          omega

/-! ## What is read -/

section Reading

open Decoder (compactSize compactSize_spells measured_eq_ok_iff_of_spells)

variable {window form : Bytes} {n k : Nat}

theorem measured_eq_ok_iff : compactSize.measured window = .ok (n, k) ↔
    k ≤ window.length ∧ IsShortest n (window.take k) := by
  rw [measured_eq_ok_iff_of_spells compactSize_spells, isShortest_iff]
  constructor
  · rintro ⟨hn, hfront, rfl⟩
    exact ⟨hfront.length_le, hn, (List.prefix_iff_eq_take.1 hfront).symm⟩
  · rintro ⟨hk, hn, heq⟩
    refine ⟨hn, heq ▸ List.take_prefix k window, ?_⟩
    rw [← heq, List.length_take_of_le hk]

theorem measured_of_isShortest (h : IsShortest n form) (hfront : form <+: window) :
    compactSize.measured window = .ok (n, form.length) := by
  rw [measured_eq_ok_iff, ← List.prefix_iff_eq_take.1 hfront]
  exact ⟨hfront.length_le, h⟩

theorem measured_of_not_isShortest (h : Spelling n form) (hlong : ¬ IsShortest n form)
    (hfront : form <+: window) :
    compactSize.measured window = .error (.malformed .nonMinimal) := by
  obtain ⟨rest, rfl⟩ := hfront
  rw [Decoder.measured, Decoder.run, compactSize, h.read_of_not_isShortest hlong rest]

theorem measured_of_isPrefix (h : Spelling n form) (hfront : window <+: form)
    (hne : window ≠ form) : compactSize.measured window = .error (.malformed .endOfInput) := by
  rw [Decoder.measured, Decoder.run, compactSize, h.read_of_isPrefix hfront hne]

theorem measured_eq_endOfInput_iff :
    compactSize.measured window = .error (.malformed .endOfInput) ↔
      ∃ n form, Spelling n form ∧ window <+: form ∧ window ≠ form := by
  constructor
  · intro h
    apply (exists_spelling window).resolve_left
    rintro ⟨n, form, hform, hfront⟩
    by_cases hshortest : IsShortest n form
    · rw [measured_of_isShortest hshortest hfront] at h
      cases h
    · rw [measured_of_not_isShortest hform hshortest hfront] at h
      cases h
  · rintro ⟨n, form, hform, hfront, hne⟩
    exact measured_of_isPrefix hform hfront hne

theorem measured_eq_nonMinimal_iff :
    compactSize.measured window = .error (.malformed .nonMinimal) ↔
      ∃ n form, Spelling n form ∧ ¬ IsShortest n form ∧ form <+: window := by
  constructor
  · intro h
    rcases exists_spelling window with ⟨n, form, hform, hfront⟩ | ⟨n, form, hform, hfront, hne⟩
    · refine ⟨n, form, hform, fun hshortest ↦ ?_, hfront⟩
      rw [measured_of_isShortest hshortest hfront] at h
      cases h
    · rw [measured_of_isPrefix hform hfront hne] at h
      cases h
  · rintro ⟨n, form, hform, hlong, hfront⟩
    exact measured_of_not_isShortest hform hlong hfront

/-- A number is read exactly from a byte string that starts with the shortest spelling of it, and as
many bytes are taken as this spelling has: one, three, five or nine. So every number below `2 ^ 64`
is read back from what is written for it, whatever follows, and from no other bytes. All other byte
strings are refused: those that are the front of a spelling and not all of it because they end too
early, and those that start with a spelling longer than needed for just that. -/
theorem measured_exact (window : Bytes) :
    (∀ n k, compactSize.measured window = .ok (n, k) ↔
      k ≤ window.length ∧ IsShortest n (window.take k)) ∧
    (∀ n k, compactSize.measured window = .ok (n, k) → n < UInt64.size ∧ k ∈ [1, 3, 5, 9]) ∧
    (∀ n < UInt64.size, IsShortest n (encode n) ∧
      ∀ more, compactSize.measured (encode n ++ more) = .ok (n, (encode n).length)) ∧
    (∀ other n k k', compactSize.measured window = .ok (n, k) →
      compactSize.measured other = .ok (n, k') → window.take k = other.take k') ∧
    (compactSize.measured window = .error (.malformed .endOfInput) ↔
      ∃ n form, Spelling n form ∧ window <+: form ∧ window ≠ form) ∧
    (compactSize.measured window = .error (.malformed .nonMinimal) ↔
      ∃ n form, Spelling n form ∧ ¬ IsShortest n form ∧ form <+: window) := by
  refine ⟨fun n k ↦ measured_eq_ok_iff, fun n k h ↦ ?_, fun n hn ↦ ?_, fun other n k k' h h' ↦ ?_,
    measured_eq_endOfInput_iff, measured_eq_nonMinimal_iff⟩
  · obtain ⟨hn, -, rfl⟩ := (measured_eq_ok_iff_of_spells compactSize_spells).1 h
    rw [length_encode]
    exact ⟨hn, width_mem n⟩
  · have hshortest : IsShortest n (encode n) := isShortest_iff.2 ⟨hn, rfl⟩
    exact ⟨hshortest, fun more ↦ measured_of_isShortest hshortest (List.prefix_append ..)⟩
  · obtain ⟨-, hfront⟩ := isShortest_iff.1 (measured_eq_ok_iff.1 h).2
    obtain ⟨-, hfront'⟩ := isShortest_iff.1 (measured_eq_ok_iff.1 h').2
    rw [hfront, hfront']

/-- The number 252 behind a tag of two bytes: too long for it, and cut before the last byte. -/
example :
    compactSize.measured [0xfd, 0xfc, 0x00, 0x07] = .error (.malformed .nonMinimal) ∧
      compactSize.measured [0xfd, 0xfc] = .error (.malformed .endOfInput) :=
  ⟨rfl, rfl⟩

end Reading

end CompactSize

end TxoIndex

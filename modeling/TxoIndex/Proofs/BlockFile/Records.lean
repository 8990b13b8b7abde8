import TxoIndex.Proofs.BlockFile.Framing

/-!
# Records of a block file

Whatever a file holds, the reader finds records only where the file has the magic and a length field
that is neither zero nor beyond the limit. So no block that it yields is longer.
-/

namespace TxoIndex.BlockFile

variable {magic : Magic} {r r' : Reader}

theorem isLength_of_look_record {length : Nat} (h : look magic r = .record length r') :
    IsLength length := by
  revert h
  fun_cases look magic r <;> intro h <;> simp only [reduceCtorEq, Look.record.injEq] at h
  next hzero hframe _ _ _ _ _ _ =>
    obtain ⟨rfl, -⟩ := h
    exact ⟨Nat.pos_of_ne_zero hzero, Nat.le_of_not_lt fun hlong ↦ hframe (.inr hlong)⟩

theorem isLength_of_nextRecord {length : Nat} (h : nextRecord magic r = (some length, r')) :
    IsLength length := by
  fun_induction nextRecord magic r with
  | case1 => cases h
  | case2 r length' r₁ hlook =>
    cases h
    exact isLength_of_look_record hlook
  | case3 r r₁ hlook ih => exact ih h

theorem rest_eq_of_look_record {length : Nat} (h : look magic r = .record length r') :
    r.rest = frameHead magic length ++ r'.rest := by
  revert h
  fun_cases look magic r <;> intro h <;> simp only [reduceCtorEq, Look.record.injEq] at h
  next m₀ m₁ m₂ m₃ l₀ l₁ l₂ l₃ _ length' _ hframe b₀ b₁ b₂ b₃ body _ =>
    obtain ⟨rfl, rfl⟩ := h
    have hmagic : [m₀, m₁, m₂, m₃] = magic := not_not.1 (not_or.1 hframe).1
    have hlength : Bytes.littleEndian 4 length' = [l₀, l₁, l₂, l₃] :=
      Bytes.littleEndian_littleEndianValue [l₀, l₁, l₂, l₃]
    rw [frameHead, hlength, ← hmagic]
    rfl

theorem isSuffix_of_look_again (h : look magic r = .again r') : r'.rest <:+ r.rest := by
  revert h
  fun_cases look magic r <;> intro h <;> cases h
  · exact List.suffix_cons _ _
  · exact List.suffix_append [_, _, _, _, _, _, _, _] _

/-- Where a record is found, the head of its frame is in the file. -/
theorem exists_rest_eq_of_nextRecord {length : Nat} (h : nextRecord magic r = (some length, r')) :
    ∃ front, r.rest = front ++ frameHead magic length ++ r'.rest := by
  fun_induction nextRecord magic r with
  | case1 => cases h
  | case2 r length' r₁ hlook =>
    cases h
    exact ⟨[], rest_eq_of_look_record hlook⟩
  | case3 r r₁ hlook ih =>
    obtain ⟨passed, hpassed⟩ := isSuffix_of_look_again hlook
    obtain ⟨front, hfront⟩ := ih h
    refine ⟨passed ++ front, ?_⟩
    rw [← hpassed, hfront, List.append_assoc, List.append_assoc, List.append_assoc]

theorem length_le_of_nextBlock {block : Bytes} (h : nextBlock magic r = (some block, r')) :
    block.length ≤ maxRecordSize := by
  unfold nextBlock at h
  split at h
  · cases h
  · next length r₁ hrecord =>
    split at h
    · cases h
    · next block' rest hsplit =>
      cases h
      rw [(Bytes.split?_eq_some_iff.1 hsplit).1]
      exact (isLength_of_nextRecord hrecord).2

/-- Whatever draining finds, some step found. -/
theorem mem_drain {α : Type} {next : Reader → Option α × Reader}
    {hnext : ∀ {r r' : Reader} {a : α}, next r = (some a, r') → r'.rest.length < r.rest.length}
    {done : List α} {a : α} (h : a ∈ (drain next hnext r done).1) :
    a ∈ done ∨ ∃ r r', next r = (some a, r') := by
  fun_induction drain next hnext r done with
  | case1 r done r₁ hr => exact .inl (List.mem_reverse.1 h)
  | case2 r done b r₁ hr ih =>
    rcases ih h with hmem | hfound
    · rcases List.mem_cons.1 hmem with rfl | hmem
      · exact .inr ⟨r, r₁, hr⟩
      · exact .inl hmem
    · exact .inr hfound

theorem length_le_of_mem_blocks {file block : Bytes} (h : block ∈ blocks magic file) :
    block.length ≤ maxRecordSize := by
  rcases mem_drain h with hmem | ⟨r, r', hnext⟩
  · cases hmem
  · exact length_le_of_nextBlock hnext

end TxoIndex.BlockFile

import TxoIndex.Network
import TxoIndex.Proofs.BlockFile.Framing

/-!
# Finding records again

Between two frames there can be bytes that are no frame: the body of a record whose length field is
damaged, or anything else. The reader goes through them byte by byte until a frame starts. None
seems to start too early, since the bytes of a magic are all different: a magic that starts in front
of a frame lies in the garbage as a whole.

What can end the search too early is a length field of zero. The reader looks for one wherever it
stands, so it takes four zero bytes in the garbage, from the fifth byte on, for the end of the
records. Then all records behind the garbage are lost; otherwise none is.
-/

namespace TxoIndex

/-! ## Magics and length fields -/

/-- Four bytes, all different and none of them zero. -/
structure Magic.Distinctive (magic : Magic) : Prop where
  length_eq : magic.length = 4
  nodup : magic.Nodup
  zero_notMem : 0 ∉ magic

theorem Network.distinctive_magic (n : Network) : n.magic.Distinctive := by
  cases n <;> exact ⟨rfl, by decide, by decide⟩

theorem Bytes.littleEndianValue_eq_zero_iff {bs : Bytes} :
    littleEndianValue bs = 0 ↔ ∀ b ∈ bs, b = 0 := by
  induction bs with
  | nil => simp [littleEndianValue]
  | cons b bs ih =>
    have hb : b.toNat = 0 ↔ b = 0 := UInt8.toNat_inj (b := 0)
    rw [List.forall_mem_cons, ← ih, ← hb, littleEndianValue]
    omega

namespace BlockFile

variable {magic : Magic} {garbage s tail : Bytes}

/-- A magic that starts in front of a magic lies before it as a whole. -/
theorem magic_isInfix_of_take_eq (h : magic.Distinctive) (hs : s ≠ [])
    (htake : (s ++ magic ++ tail).take 4 = magic) : magic <:+: s := by
  by_cases hlong : 4 ≤ s.length
  · rw [List.append_assoc, List.take_append_of_le_length hlong] at htake
    exact htake ▸ (List.take_prefix 4 s).isInfix
  · -- The byte behind `s` would be the first of the magic and one of the others.
    exfalso
    have hpos := List.length_pos_iff.2 hs
    have hindex : s.length < magic.length := by
      rw [h.length_eq]
      omega
    have hfirst : (s ++ magic ++ tail)[s.length]? = magic[0]? := by
      rw [List.append_assoc, List.getElem?_append_right (Nat.le_refl _), Nat.sub_self,
        List.getElem?_append_left (by rw [h.length_eq]; decide)]
    have hother : ((s ++ magic ++ tail).take 4)[s.length]? = (s ++ magic ++ tail)[s.length]? :=
      List.getElem?_take_of_lt (by omega)
    rw [htake, hfirst] at hother
    have hsame := (List.getElem?_inj hindex h.nodup).1 hother
    omega

/-- A byte of the magic is in every length field that does not lie before the magic. -/
theorem exists_mem_magic_mem_slice (h : magic.Distinctive) (tail : Bytes) (hpos : 0 < s.length)
    (hshort : s.length < 8) : ∃ m ∈ magic, m ∈ Bytes.slice (s ++ magic ++ tail) 4 4 := by
  have hindex : max 4 s.length - s.length < magic.length := by
    rw [h.length_eq]
    omega
  refine ⟨magic[max 4 s.length - s.length], List.getElem_mem hindex, ?_⟩
  rw [List.mem_iff_getElem?]
  refine ⟨max 4 s.length - 4, ?_⟩
  have hplace : 4 + (max 4 s.length - 4) - s.length = max 4 s.length - s.length := by omega
  rw [Bytes.slice, List.getElem?_take_of_lt (by omega), List.getElem?_drop, List.append_assoc,
    List.getElem?_append_right (by omega), hplace, List.getElem?_append_left hindex,
    List.getElem?_eq_getElem hindex]

/-- A length field in front of a magic is zero only if it lies before the magic. -/
theorem numberAt_eq_zero_iff (h : magic.Distinctive) (tail : Bytes) (hs : s ≠ []) :
    Bytes.numberAt (s ++ magic ++ tail) 4 4 = 0 ↔ [0, 0, 0, 0] <+: s.drop 4 := by
  rw [Bytes.numberAt, Bytes.littleEndianValue_eq_zero_iff]
  constructor
  · intro hzero
    by_cases hlong : 8 ≤ s.length
    · have hslice : Bytes.slice (s ++ magic ++ tail) 4 4 = (s.drop 4).take 4 := by
        rw [Bytes.slice, List.append_assoc, List.drop_append_of_le_length (by omega),
          List.take_append_of_le_length (by rw [List.length_drop]; omega)]
      have hlength : ((s.drop 4).take 4).length = 4 := by
        rw [List.length_take, List.length_drop]
        omega
      rw [hslice] at hzero
      have hzeros : (s.drop 4).take 4 = [0, 0, 0, 0] := List.eq_replicate_iff.2 ⟨hlength, hzero⟩
      exact hzeros ▸ List.take_prefix 4 (s.drop 4)
    · obtain ⟨m, hm, hslice⟩ := exists_mem_magic_mem_slice h tail
        (List.length_pos_iff.2 hs) (Nat.lt_of_not_le hlong)
      exact absurd (hzero m hslice ▸ hm) h.zero_notMem
  · rintro ⟨t, ht⟩
    have hlength : 4 ≤ s.length := by
      have hdrop := congrArg List.length ht
      simp only [List.length_append, List.length_drop, List.length_cons] at hdrop
      omega
    rw [Bytes.slice, List.append_assoc, List.drop_append_of_le_length hlength, ← ht]
    simp

/-! ## Garbage -/

/-- Whether a reader that goes through garbage byte by byte comes to a length field of zero. -/
def SpellsEnd (garbage : Bytes) : Prop := [0, 0, 0, 0] <:+: garbage.drop 4

instance (garbage : Bytes) : Decidable (SpellsEnd garbage) :=
  inferInstanceAs (Decidable ([0, 0, 0, 0] <:+: garbage.drop 4))

theorem spellsEnd_cons (b : UInt8) (garbage : Bytes) : SpellsEnd (b :: garbage) ↔
    [0, 0, 0, 0] <+: (b :: garbage).drop 4 ∨ SpellsEnd garbage := by
  unfold SpellsEnd
  rw [List.drop_succ_cons]
  cases hdrop : garbage.drop 3 with
  | nil =>
    have hnil : garbage.drop 4 = [] := by rw [← List.tail_drop, hdrop, List.tail_nil]
    simp [hnil]
  | cons c rest =>
    have hrest : garbage.drop 4 = rest := by rw [← List.tail_drop, hdrop, List.tail_cons]
    rw [List.infix_cons_iff, hrest]

/-- No frame of a possible length starts in the garbage. -/
def NoFrame (magic : Magic) (garbage tail : Bytes) : Prop :=
  ∀ s, s ≠ [] → s <:+ garbage → (s ++ magic ++ tail).take 4 = magic →
    maxRecordSize < Bytes.numberAt (s ++ magic ++ tail) 4 4

theorem NoFrame.of_cons {b : UInt8} (h : NoFrame magic (b :: garbage) tail) :
    NoFrame magic garbage tail :=
  fun s hs hsuffix ↦ h s hs (hsuffix.trans (List.suffix_cons b garbage))

/-- A reader in garbage stops at zeros and goes on by one byte otherwise. -/
theorem look_garbage (h : magic.Distinctive) (htail : 4 ≤ tail.length) {b : UInt8}
    (hframe : NoFrame magic (b :: garbage) tail) (skipped : Nat) :
    look magic ⟨b :: garbage ++ magic ++ tail, skipped⟩ =
      if [0, 0, 0, 0] <+: (b :: garbage).drop 4 then
        .stop ⟨(b :: garbage ++ magic ++ tail).drop 8, skipped⟩
      else .again ⟨garbage ++ magic ++ tail, skipped⟩ := by
  have hwindow : 8 ≤ (b :: garbage ++ magic ++ tail).length := by
    simp only [List.length_append, List.length_cons, h.length_eq]
    omega
  have hne : b :: garbage ≠ [] := List.cons_ne_nil b garbage
  have hzero := numberAt_eq_zero_iff h tail hne
  have hother : (b :: garbage ++ magic ++ tail).take 4 ≠ magic ∨
      maxRecordSize < Bytes.numberAt (b :: garbage ++ magic ++ tail) 4 4 := by
    by_cases htake : (b :: garbage ++ magic ++ tail).take 4 = magic
    · exact .inr (hframe _ hne (List.suffix_refl _) htake)
    · exact .inl htake
  rw [look_eq hwindow]
  by_cases hstop : [0, 0, 0, 0] <+: (b :: garbage).drop 4
  · rw [if_pos (hzero.2 hstop), if_pos hstop]
  · rw [if_neg (mt hzero.1 hstop), if_pos hother, if_neg hstop]
    rfl

theorem drainBlocks_garbage (h : magic.Distinctive) (htail : 4 ≤ tail.length)
    (hframe : NoFrame magic garbage tail) (hend : ¬ SpellsEnd garbage) (skipped : Nat) :
    drainBlocks magic ⟨garbage ++ magic ++ tail, skipped⟩ =
      drainBlocks magic ⟨magic ++ tail, skipped⟩ := by
  induction garbage with
  | nil => rfl
  | cons b garbage ih =>
    rw [spellsEnd_cons, not_or] at hend
    have hlook := look_garbage h htail hframe skipped
    rw [if_neg hend.1] at hlook
    rw [drainBlocks_of_again hlook, ih hframe.of_cons hend.2]

theorem drainBlocks_of_spellsEnd (h : magic.Distinctive) (htail : 4 ≤ tail.length)
    (hframe : NoFrame magic garbage tail) (hend : SpellsEnd garbage) (skipped : Nat) :
    (drainBlocks magic ⟨garbage ++ magic ++ tail, skipped⟩).1 = [] := by
  induction garbage with
  | nil => simp [SpellsEnd] at hend
  | cons b garbage ih =>
    have hlook := look_garbage h htail hframe skipped
    split at hlook
    · rw [drainBlocks_of_stop hlook]
    · next hgo =>
      rw [drainBlocks_of_again hlook]
      exact ih hframe.of_cons (((spellsEnd_cons b garbage).1 hend).resolve_left hgo)

/-- What may lie between a frame and the `next` one. -/
inductive IsGarbage (magic : Magic) (next : Bytes) : Bytes → Prop where
  /-- The head of a frame with a length field that is too large, and any bytes behind it. -/
  | oversized {length : Nat} {rest : Bytes} : maxRecordSize < length → length < 2 ^ 32 →
    ¬ magic <:+: (frameHead magic length ++ rest).drop 1 →
    IsGarbage magic next (frameHead magic length ++ rest)
  /-- Any bytes, if they do not end the records where the next frame should start. -/
  | other {garbage : Bytes} : ¬ magic <:+: garbage →
    Bytes.numberAt (garbage ++ next) 4 4 ≠ 0 → IsGarbage magic next garbage

theorem IsGarbage.noFrame (h : magic.Distinctive) {next : Bytes}
    (hgarbage : IsGarbage magic next garbage) : NoFrame magic garbage tail := by
  intro s hs hsuffix htake
  have hwithin := magic_isInfix_of_take_eq h hs htake
  cases hgarbage with
  | @oversized length rest hlong hlength honce =>
    have hcons : frameHead magic length ++ rest ≠ [] := by
      intro hnil
      have hhead : (frameHead magic length).length = 8 := length_frameHead h.length_eq
      rw [(List.append_eq_nil_iff.1 hnil).1] at hhead
      cases hhead
    obtain ⟨b, rest', hrest⟩ := List.exists_cons_of_ne_nil hcons
    rw [hrest, List.suffix_cons_iff] at hsuffix
    rcases hsuffix with hwhole | hproper
    · rw [hwhole, ← hrest, List.append_assoc, List.append_assoc,
        numberAt_frameHead h.length_eq hlength]
      exact hlong
    · rw [hrest] at honce
      exact absurd (hwithin.trans hproper.isInfix) honce
  | other hnone _ => exact absurd (hwithin.trans hsuffix.isInfix) hnone

section Between

variable {before after : List Bytes} (n : Network)
  (hbefore : ∀ block ∈ before, IsRecord n.magic block)

include hbefore in
/-- Behind the records in front, the reader goes on in the garbage. -/
theorem blocks_append_garbage (garbage rest : Bytes) :
    blocks n.magic (frames n.magic before ++ garbage ++ rest) =
      before ++ (drainBlocks n.magic ⟨garbage ++ rest, 0⟩).1 := by
  rw [blocks, Reader.start, List.append_assoc,
    drainBlocks_frames n.distinctive_magic.length_eq hbefore]

/-- A row of frames starts with the magic, and is long enough for the reader to see a frame. -/
theorem exists_frames_eq_magic_append (magic : Magic) (hne : after ≠ []) :
    ∃ tail, frames magic after = magic ++ tail ∧ 4 ≤ tail.length := by
  obtain ⟨block, rest, rfl⟩ := List.exists_cons_of_ne_nil hne
  refine ⟨Bytes.littleEndian 4 block.length ++ (block ++ frames magic rest), ?_, ?_⟩
  · rw [frames, List.flatMap_cons, frame, List.append_assoc, List.append_assoc]
    rfl
  · rw [List.length_append, Bytes.length_littleEndian]
    exact Nat.le_add_right 4 _

include hbefore in
/-- The records before the garbage are found. Those behind it are found as well, unless the garbage
spells the end of the records. -/
theorem blocks_around_garbage (hafter : ∀ block ∈ after, IsRecord n.magic block) (hne : after ≠ [])
    {garbage : Bytes} (hgarbage : IsGarbage n.magic (frames n.magic after) garbage) :
    (¬ SpellsEnd garbage →
        blocks n.magic (frames n.magic before ++ garbage ++ frames n.magic after) =
          before ++ after) ∧
      (SpellsEnd garbage →
        blocks n.magic (frames n.magic before ++ garbage ++ frames n.magic after) = before) := by
  have hmagic := n.distinctive_magic
  obtain ⟨tail, hframes, htail⟩ := exists_frames_eq_magic_append n.magic hne
  have hframe : NoFrame n.magic garbage tail := hgarbage.noFrame hmagic
  rw [blocks_append_garbage n hbefore, hframes, ← List.append_assoc]
  constructor
  · intro hend
    have hall := drainBlocks_frames hmagic.length_eq hafter [] 0
    rw [List.append_nil, drainBlocks_nil, List.append_nil, hframes] at hall
    rw [drainBlocks_garbage hmagic htail hframe hend, hall]
  · intro hend
    rw [drainBlocks_of_spellsEnd hmagic htail hframe hend, List.append_nil]

end Between

/-- A damaged length field, and garbage that ends like the magic starts. -/
theorem blocks_around_garbage_ofDamagedLength :
    let before : List Bytes := [[1, 2, 3, 4]]
    let after : List Bytes := [[0xf9, 0xbe, 0xb4, 0, 0, 0, 0], [5, 6, 7, 8]]
    let garbage := frameHead Network.bitcoin.magic 0xffffffff ++ [0, 0, 0, 0xf9, 0xbe, 0xb4]
    IsGarbage Network.bitcoin.magic (frames Network.bitcoin.magic after) garbage ∧
      ¬ SpellsEnd garbage ∧
      blocks Network.bitcoin.magic (frames Network.bitcoin.magic before ++ garbage ++
        frames Network.bitcoin.magic after) = before ++ after := by
  intro before after garbage
  have hbefore : ∀ block ∈ before, IsRecord Network.bitcoin.magic block := by decide
  have hafter : ∀ block ∈ after, IsRecord Network.bitcoin.magic block := by decide
  have hgarbage : IsGarbage Network.bitcoin.magic (frames Network.bitcoin.magic after) garbage :=
    .oversized (by decide) (by decide) (by decide)
  have hend : ¬ SpellsEnd garbage := by decide
  have hne : after ≠ [] := List.cons_ne_nil _ _
  exact ⟨hgarbage, hend, (blocks_around_garbage .bitcoin hbefore hafter hne hgarbage).1 hend⟩

/-- The start of a coinbase transaction behind a damaged length field costs the record behind it,
since its input spends an outpoint of zeros. -/
theorem block_lost_behind_zeros :
    let before : Bytes := [1, 2, 3, 4]
    let after : Bytes := [5, 6, 7, 8]
    let coinbase : Bytes := [1, 0, 0, 0, 1] ++ List.replicate 32 0 ++ [0xff, 0xff, 0xff, 0xff]
    let garbage := frameHead Network.bitcoin.magic 0xffffffff ++ coinbase
    IsRecord Network.bitcoin.magic before ∧ IsRecord Network.bitcoin.magic after ∧
      IsGarbage Network.bitcoin.magic (frames Network.bitcoin.magic [after]) garbage ∧
      blocks Network.bitcoin.magic (frames Network.bitcoin.magic [before] ++ garbage ++
        frames Network.bitcoin.magic [after]) ≠ [before, after] := by
  intro before after coinbase garbage
  have hgarbage : IsGarbage Network.bitcoin.magic (frames Network.bitcoin.magic [after]) garbage :=
    .oversized (by decide) (by decide) (by decide)
  exact ⟨by decide, by decide, hgarbage, by decide +kernel⟩

end BlockFile

end TxoIndex

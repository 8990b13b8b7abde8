import TxoIndex.Block.Decode
import TxoIndex.Bytes.Width
import TxoIndex.Txo

/-!
# Decoders and spellings

A decoder of the block format accepts exactly one spelling of each value that it yields. This is
said once for every decoder, as an equivalence: the decoder yields `a` and leaves `rest` if and only
if `a` is in its range and the input is the spelling of `a` followed by `rest`. One direction says
that spelled values are read back, and the other one that no other bytes are accepted. Sequences of
decoders are taken apart by one lemma, so a format of several fields follows from its fields.
-/

namespace TxoIndex

/-! ## Sequences of steps -/

section Steps

variable {σ ε α β : Type}

theorem bind_ok {x : StateT σ (Except ε) α} {f : α → StateT σ (Except ε) β} {s s' : σ} {a : α}
    (h : x s = .ok (a, s')) : (x >>= f) s = f a s' := by
  change (x s >>= fun r ↦ f r.1 r.2) = _
  rw [h]
  rfl

theorem bind_error {x : StateT σ (Except ε) α} {f : α → StateT σ (Except ε) β} {s : σ} {e : ε}
    (h : x s = .error e) : (x >>= f) s = .error e := by
  change (x s >>= fun r ↦ f r.1 r.2) = _
  rw [h]
  rfl

/-- A sequence succeeds if and only if its parts do, one after the other. -/
theorem bind_eq_ok_iff {x : StateT σ (Except ε) α} {f : α → StateT σ (Except ε) β} {s : σ}
    {r : β × σ} :
    (x >>= f) s = .ok r ↔ ∃ a s', x s = .ok (a, s') ∧ f a s' = .ok r := by
  constructor
  · intro h
    cases hx : x s with
    | error e => simp [bind_error hx] at h
    | ok p => exact ⟨p.1, p.2, rfl, by rwa [bind_ok hx] at h⟩
  · rintro ⟨a, s', hx, hf⟩
    rwa [bind_ok hx]

theorem pure_eq_ok_iff {a : α} {s : σ} {r : α × σ} :
    (pure a : StateT σ (Except ε) α) s = .ok r ↔ (a, s) = r := by
  change (Except.ok (a, s) : Except ε (α × σ)) = .ok r ↔ _
  rw [Except.ok.injEq]

theorem get_eq_ok_iff {s : σ} {r : σ × σ} :
    (get : StateT σ (Except ε) σ) s = .ok r ↔ (s, s) = r := by
  change (Except.ok (s, s) : Except ε (σ × σ)) = .ok r ↔ _
  rw [Except.ok.injEq]

theorem throw_ne_ok {e : ε} {s : σ} {r : α × σ} :
    (throw e : StateT σ (Except ε) α) s ≠ .ok r := by
  change (Except.error e : Except ε (α × σ)) ≠ .ok r
  simp

/-- A check throws, or it lets the sequence go on. -/
theorem check_eq_ok_iff {p : Prop} [Decidable p] {e : ε} {f : α → StateT σ (Except ε) β}
    {x : StateT σ (Except ε) β} {s : σ} {r : β × σ} :
    (if p then throw e >>= f else x) s = .ok r ↔ ¬ p ∧ x s = .ok r := by
  by_cases hp : p
  · rw [if_pos hp, bind_eq_ok_iff]
    constructor
    · rintro ⟨a, s', hthrow, -⟩
      exact absurd hthrow throw_ne_ok
    · rintro ⟨hnot, -⟩
      exact absurd hp hnot
  · rw [if_neg hp]
    exact (and_iff_right hp).symm

theorem repeatStep_zero (step : StateT σ (Except ε) α) (done : List α) :
    repeatStep step 0 done = pure done.reverse := rfl

theorem repeatStep_succ (step : StateT σ (Except ε) α) (count : Nat) (done : List α) :
    repeatStep step (count + 1) done = step >>= fun a ↦ repeatStep step count (a :: done) := by
  funext s
  cases h : step s with
  | error e => simp only [repeatStep, h, bind_error h]
  | ok r => simp only [repeatStep, h, bind_ok h]

end Steps

theorem length_le_length_flatMap {α : Type} {spell : α → Bytes} {xs : List α} {x : α} (h : x ∈ xs) :
    (spell x).length ≤ (xs.flatMap spell).length := by
  obtain ⟨front, back, rfl⟩ := List.append_of_mem h
  simp only [List.flatMap_append, List.flatMap_cons, List.length_append]
  omega

/-- A list has at most as many members as bytes, if every member takes a byte. -/
theorem length_le_length_flatMap_of_pos {α : Type} {spell : α → Bytes}
    (hpos : ∀ x, 0 < (spell x).length) (xs : List α) : xs.length ≤ (xs.flatMap spell).length := by
  induction xs with
  | nil => simp
  | cons x xs ih =>
    have hx := hpos x
    simp only [List.length_cons, List.flatMap_cons, List.length_append]
    omega

/-! ## Forms of compact sizes -/

namespace CompactSize

/-- The tags, each with the number of bytes behind it and the least number that takes so many. -/
inductive IsTag : UInt8 → (bytes least : Nat) → Prop where
  | two : IsTag 0xfd 2 0xfd
  | four : IsTag 0xfe 4 0x10000
  | eight : IsTag 0xff 8 0x100000000

/-- A byte from 253 on is a tag. -/
theorem exists_isTag {tag : UInt8} (h : 0xfd ≤ tag.toNat) :
    ∃ bytes least, IsTag tag bytes least := by
  have hlt := tag.toNat_lt
  obtain h | h | h : tag.toNat = 0xfd ∨ tag.toNat = 0xfe ∨ tag.toNat = 0xff := by omega
  · obtain rfl : tag = 0xfd := UInt8.toNat_inj.1 h
    exact ⟨_, _, .two⟩
  · obtain rfl : tag = 0xfe := UInt8.toNat_inj.1 h
    exact ⟨_, _, .four⟩
  · obtain rfl : tag = 0xff := UInt8.toNat_inj.1 h
    exact ⟨_, _, .eight⟩

namespace IsTag

variable {tag : UInt8} {bytes least n : Nat}

theorem read_cons (h : IsTag tag bytes least) (rest : Bytes) :
    read (tag :: rest) = readTagged bytes least rest := by
  cases h <;> rfl

theorem lt_size (h : IsTag tag bytes least) (hn : n < 256 ^ bytes) : n < UInt64.size := by
  cases h with
  | two => exact Nat.lt_trans hn (by decide)
  | four => exact Nat.lt_trans hn (by decide)
  | eight => exact hn

/-- A number that takes so many bytes is spelled behind the tag. -/
theorem encode_eq (h : IsTag tag bytes least) (hleast : least ≤ n) (hn : n < 256 ^ bytes) :
    encode n = tag :: Bytes.littleEndian bytes n := by
  cases h with
  | two =>
    have hn : n < 0x10000 := hn
    rw [encode, if_neg (Nat.not_lt.2 hleast), if_pos hn]
  | four =>
    have hn : n < 0x100000000 := hn
    rw [encode, if_neg (by omega), if_neg (Nat.not_lt.2 hleast), if_pos hn]
  | eight => rw [encode, if_neg (by omega), if_neg (by omega), if_neg (Nat.not_lt.2 hleast)]

end IsTag

theorem encode_of_lt {n : Nat} (h : n < 0xfd) : encode n = [UInt8.ofNat n] := if_pos h

/-- A number from 253 on is spelled behind a tag. -/
theorem exists_encode_eq_cons {n : Nat} (h : 0xfd ≤ n) :
    ∃ tag bytes least, IsTag tag bytes least ∧ least ≤ n ∧ (n < UInt64.size → n < 256 ^ bytes) ∧
      encode n = tag :: Bytes.littleEndian bytes n := by
  by_cases h₂ : n < 0x10000
  · exact ⟨_, _, _, .two, h, fun _ ↦ h₂, IsTag.two.encode_eq h h₂⟩
  · have h₂ : 0x10000 ≤ n := Nat.le_of_not_lt h₂
    by_cases h₄ : n < 0x100000000
    · exact ⟨_, _, _, .four, h₂, fun _ ↦ h₄, IsTag.four.encode_eq h₂ h₄⟩
    · have h₄ : 0x100000000 ≤ n := Nat.le_of_not_lt h₄
      refine ⟨_, _, _, .eight, h₄, id, ?_⟩
      rw [encode, if_neg (by omega), if_neg (by omega), if_neg (Nat.not_lt.2 h₄)]

theorem read_cons_of_lt {tag : UInt8} (h : tag.toNat < 0xfd) (rest : Bytes) :
    read (tag :: rest) = .ok (tag.toNat, rest) := by
  have hne (tag' : UInt8) (htag' : 0xfd ≤ tag'.toNat) : tag ≠ tag' := by
    rintro rfl
    omega
  rw [read, if_neg (hne _ (by decide)), if_neg (hne _ (by decide)), if_neg (hne _ (by decide))]

end CompactSize

namespace Decoder

/-- The decoder yields exactly the values in a range, each from its spelling. -/
def Spells {α : Type} (d : Decoder α) (range : α → Prop) (spell : α → Bytes) : Prop :=
  ∀ ⦃bs : Bytes⦄ ⦃a : α⦄ ⦃rest : Bytes⦄, d bs = .ok (a, rest) ↔ range a ∧ bs = spell a ++ rest

theorem Spells.iff {α : Type} {d : Decoder α} {range : α → Prop} {spell : α → Bytes}
    (h : d.Spells range spell) {bs : Bytes} {a : α} {rest : Bytes} :
    d bs = .ok (a, rest) ↔ range a ∧ bs = spell a ++ rest := @h bs a rest

/-- No spelling is the front of another one. -/
theorem Spells.append_inj {α : Type} {d : Decoder α} {range : α → Prop} {spell : α → Bytes}
    (h : d.Spells range spell) {a b : α} {x y : Bytes} (ha : range a) (hb : range b)
    (heq : spell a ++ x = spell b ++ y) : a = b ∧ x = y := by
  have hx : d (spell a ++ x) = .ok (a, x) := h.iff.2 ⟨ha, rfl⟩
  have hy : d (spell b ++ y) = .ok (b, y) := h.iff.2 ⟨hb, rfl⟩
  rw [heq, hy, Except.ok.injEq, Prod.mk.injEq] at hx
  exact ⟨hx.1.symm, hx.2.symm⟩

/-! ## Words -/

theorem fixed_eq_ok_iff {n : Nat} {bs front rest : Bytes} :
    fixed n bs = .ok (front, rest) ↔ front.length = n ∧ bs = front ++ rest := by
  rw [← Bytes.split?_eq_some_iff, fixed]
  cases Bytes.split? n bs <;> simp [Prod.ext_iff]

theorem number_eq_ok_iff {width n : Nat} {bs rest : Bytes} :
    number width bs = .ok (n, rest) ↔
      n < 256 ^ width ∧ bs = Bytes.littleEndian width n ++ rest := by
  simp only [number, bind_eq_ok_iff, fixed_eq_ok_iff, pure_eq_ok_iff, Prod.mk.injEq]
  constructor
  · rintro ⟨front, _, ⟨rfl, rfl⟩, rfl, rfl⟩
    rw [Bytes.littleEndian_littleEndianValue]
    exact ⟨Bytes.littleEndianValue_lt front, rfl⟩
  · rintro ⟨hn, rfl⟩
    refine ⟨_, _, ⟨Bytes.length_littleEndian width n, rfl⟩, ?_, rfl⟩
    rw [Bytes.littleEndianValue_littleEndian, Nat.mod_eq_of_lt hn]

theorem word32_spells : word32.Spells (fun _ ↦ True) word32Bytes := by
  intro bs x rest
  simp only [word32, bind_eq_ok_iff, number_eq_ok_iff, pure_eq_ok_iff, Prod.mk.injEq, true_and]
  constructor
  · rintro ⟨n, _, ⟨hn, rfl⟩, rfl, rfl⟩
    rw [word32Bytes, UInt32.toNat_ofNat_of_lt' (by simpa using hn)]
  · rintro rfl
    exact ⟨x.toNat, rest, ⟨by simpa using x.toNat_lt, rfl⟩, UInt32.ofNat_toNat, rfl⟩

theorem word64_spells : word64.Spells (fun _ ↦ True) word64Bytes := by
  intro bs x rest
  simp only [word64, bind_eq_ok_iff, number_eq_ok_iff, pure_eq_ok_iff, Prod.mk.injEq, true_and]
  constructor
  · rintro ⟨n, _, ⟨hn, rfl⟩, rfl, rfl⟩
    rw [word64Bytes, UInt64.toNat_ofNat_of_lt' (by simpa using hn)]
  · rintro rfl
    exact ⟨x.toNat, rest, ⟨by simpa using x.toNat_lt, rfl⟩, UInt64.ofNat_toNat, rfl⟩

theorem byte_spells : byte.Spells (fun _ ↦ True) fun b ↦ [b] := by
  intro bs x rest
  simp only [byte, bind_eq_ok_iff, number_eq_ok_iff, pure_eq_ok_iff, Prod.mk.injEq, true_and]
  constructor
  · rintro ⟨n, _, ⟨hn, rfl⟩, rfl, rfl⟩
    rfl
  · rintro rfl
    refine ⟨x.toNat, rest, ⟨by simpa using x.toNat_lt, ?_⟩, UInt8.ofNat_toNat, rfl⟩
    simp [Bytes.littleEndian]

theorem hash_spells : hash.Spells (fun _ ↦ True) Hash.bytes := by
  intro bs h rest
  simp only [true_and]
  constructor
  · intro hok
    unfold hash at hok
    split at hok
    · cases hok
    · next front rest' hfixed =>
      obtain ⟨-, rfl⟩ := fixed_eq_ok_iff.1 hfixed
      split at hok
      · cases hok
      · next h' hhash =>
        cases hok
        rw [Hash.ofBytes?_eq_some_iff.1 hhash]
  · rintro rfl
    have hfixed : fixed 32 (h.bytes ++ rest) = .ok (h.bytes, rest) :=
      fixed_eq_ok_iff.2 ⟨h.length_bytes, rfl⟩
    have hhash : Hash.ofBytes? h.bytes = some h := Hash.ofBytes?_eq_some_iff.2 rfl
    rw [hash, hfixed]
    simp only [hhash]

/-! ## Counts and lengths -/

theorem readTagged_eq_ok_iff (width : Nat) {least n : Nat} {bs rest : Bytes} :
    CompactSize.readTagged width least bs = .ok (n, rest) ↔
      (least ≤ n ∧ n < 256 ^ width) ∧ bs = Bytes.littleEndian width n ++ rest := by
  unfold CompactSize.readTagged
  constructor
  · intro h
    split at h
    · simp at h
    · next digits rest' hsplit =>
      obtain ⟨rfl, rfl⟩ := Bytes.split?_eq_some_iff.1 hsplit
      simp only at h
      split at h
      · simp at h
      · next hleast =>
        simp only [Except.ok.injEq, Prod.mk.injEq] at h
        obtain ⟨rfl, rfl⟩ := h
        rw [Bytes.littleEndian_littleEndianValue]
        exact ⟨⟨Nat.le_of_not_lt hleast, Bytes.littleEndianValue_lt digits⟩, rfl⟩
  · rintro ⟨⟨hleast, hn⟩, rfl⟩
    have hsplit : Bytes.split? width (Bytes.littleEndian width n ++ rest) =
        some (Bytes.littleEndian width n, rest) :=
      Bytes.split?_eq_some_iff.2 ⟨Bytes.length_littleEndian width n, rfl⟩
    rw [hsplit]
    simp only [Bytes.littleEndianValue_littleEndian, Nat.mod_eq_of_lt hn]
    rw [if_neg (Nat.not_lt.2 hleast)]

theorem eq_encode_of_read {n : Nat} {bs rest : Bytes} (h : CompactSize.read bs = .ok (n, rest)) :
    n < UInt64.size ∧ bs = CompactSize.encode n ++ rest := by
  cases bs with
  | nil => cases h
  | cons tag bs =>
    by_cases htag : tag.toNat < 0xfd
    · rw [CompactSize.read_cons_of_lt htag, Except.ok.injEq, Prod.mk.injEq] at h
      obtain ⟨rfl, rfl⟩ := h
      rw [CompactSize.encode_of_lt htag, UInt8.ofNat_toNat]
      exact ⟨Nat.lt_trans htag (by decide), rfl⟩
    · obtain ⟨bytes, least, htag⟩ := CompactSize.exists_isTag (Nat.le_of_not_lt htag)
      rw [htag.read_cons] at h
      obtain ⟨⟨hleast, hn⟩, rfl⟩ := (readTagged_eq_ok_iff bytes).1 h
      rw [htag.encode_eq hleast hn]
      exact ⟨htag.lt_size hn, rfl⟩

theorem read_encode {n : Nat} (hn : n < UInt64.size) (rest : Bytes) :
    CompactSize.read (CompactSize.encode n ++ rest) = .ok (n, rest) := by
  by_cases h : n < 0xfd
  · have htag : (UInt8.ofNat n).toNat = n := by
      rw [UInt8.toNat_ofNat']
      omega
    rw [CompactSize.encode_of_lt h, List.cons_append,
      CompactSize.read_cons_of_lt (by rwa [htag]), htag]
    rfl
  · obtain ⟨tag, bytes, least, htag, hleast, hlt, heq⟩ :=
      CompactSize.exists_encode_eq_cons (Nat.le_of_not_lt h)
    rw [heq, List.cons_append, htag.read_cons]
    exact (readTagged_eq_ok_iff bytes).2 ⟨⟨hleast, hlt hn⟩, rfl⟩

/-- A compact size is read from its shortest spelling only. -/
theorem compactSize_spells : compactSize.Spells (· < UInt64.size) CompactSize.encode := by
  intro bs n rest
  have hread : compactSize bs = .ok (n, rest) ↔ CompactSize.read bs = .ok (n, rest) := by
    unfold compactSize
    cases CompactSize.read bs with
    | error e => cases e <;> simp
    | ok r => simp
  rw [hread]
  constructor
  · exact eq_encode_of_read
  · rintro ⟨hn, rfl⟩
    exact read_encode hn rest

theorem sized_spells : sized.Spells (·.length < UInt64.size) sizedBytes := by
  intro bs s rest
  simp only [sized, bind_eq_ok_iff, compactSize_spells.iff, fixed_eq_ok_iff]
  constructor
  · rintro ⟨n, _, ⟨hn, rfl⟩, rfl, rfl⟩
    exact ⟨hn, by rw [sizedBytes, List.append_assoc]⟩
  · rintro ⟨hs, rfl⟩
    exact ⟨s.length, s ++ rest, ⟨hs, by rw [sizedBytes, List.append_assoc]⟩, rfl, rfl⟩

/-! ## Lists -/

section Lists

variable {α : Type} {item : Decoder α} {range : α → Prop} {spell : α → Bytes}

theorem repeatStep_eq_ok_iff (h : item.Spells range spell) {count : Nat} {done xs : List α}
    {bs rest : Bytes} :
    repeatStep item count done bs = .ok (xs, rest) ↔
      ∃ ys, ys.length = count ∧ (∀ y ∈ ys, range y) ∧ xs = done.reverse ++ ys ∧
        bs = ys.flatMap spell ++ rest := by
  induction count generalizing done bs with
  | zero =>
    simp only [repeatStep_zero, pure_eq_ok_iff, Prod.mk.injEq, List.length_eq_zero_iff]
    constructor
    · rintro ⟨rfl, rfl⟩
      exact ⟨[], rfl, by simp, by simp, rfl⟩
    · rintro ⟨_, rfl, -, rfl, rfl⟩
      exact ⟨by simp, rfl⟩
  | succ count ih =>
    simp only [repeatStep_succ, bind_eq_ok_iff, h.iff]
    constructor
    · rintro ⟨a, _, ⟨ha, rfl⟩, hok⟩
      obtain ⟨ys, rfl, hys, rfl, rfl⟩ := ih.1 hok
      exact ⟨a :: ys, rfl, List.forall_mem_cons.2 ⟨ha, hys⟩, by simp, by simp⟩
    · rintro ⟨_ | ⟨a, ys⟩, hlength, hys, rfl, rfl⟩
      · simp at hlength
      · obtain ⟨ha, hys⟩ := List.forall_mem_cons.1 hys
        refine ⟨a, ys.flatMap spell ++ rest, ⟨ha, by simp⟩, ih.2 ?_⟩
        exact ⟨ys, Nat.succ.inj hlength, hys, by simp, rfl⟩

theorem times_eq_ok_iff (h : item.Spells range spell) {count : Nat} {xs : List α}
    {bs rest : Bytes} :
    times count item bs = .ok (xs, rest) ↔
      xs.length = count ∧ (∀ x ∈ xs, range x) ∧ bs = xs.flatMap spell ++ rest := by
  rw [times, repeatStep_eq_ok_iff h]
  simp only [List.reverse_nil, List.nil_append]
  constructor
  · rintro ⟨ys, hlength, hys, rfl, hbs⟩
    exact ⟨hlength, hys, hbs⟩
  · rintro ⟨hlength, hxs, hbs⟩
    exact ⟨xs, hlength, hxs, rfl, hbs⟩

theorem counted_spells (h : item.Spells range spell) :
    (counted item).Spells (fun xs ↦ xs.length < UInt64.size ∧ ∀ x ∈ xs, range x)
      (countedBytes spell) := by
  intro bs xs rest
  simp only [counted, bind_eq_ok_iff, compactSize_spells.iff, times_eq_ok_iff h, countedBytes,
    List.append_assoc]
  constructor
  · rintro ⟨n, _, ⟨hn, rfl⟩, rfl, hxs, rfl⟩
    exact ⟨⟨hn, hxs⟩, rfl⟩
  · rintro ⟨⟨hn, hxs⟩, rfl⟩
    exact ⟨xs.length, _, ⟨hn, rfl⟩, rfl, hxs, rfl⟩

end Lists

/-! ## Whole byte strings -/

/-- As many bytes are taken as the spelling has, whatever follows it. -/
theorem measured_eq_ok_iff_of_spells {α : Type} {d : Decoder α} {range : α → Prop}
    {spell : α → Bytes} (h : d.Spells range spell) {bs : Bytes} {a : α} {k : Nat} :
    d.measured bs = .ok (a, k) ↔ range a ∧ spell a <+: bs ∧ k = (spell a).length := by
  unfold measured run
  constructor
  · intro hok
    cases hd : d bs with
    | error e =>
      rw [hd] at hok
      cases hok
    | ok r =>
      obtain ⟨hr, hbs⟩ := h.iff.1 hd
      rw [hd] at hok
      cases hok
      refine ⟨hr, ⟨r.2, hbs.symm⟩, ?_⟩
      rw [hbs, List.length_append, Nat.add_sub_cancel]
  · rintro ⟨ha, ⟨rest, rfl⟩, rfl⟩
    have hd : d (spell a ++ rest) = .ok (a, rest) := h.iff.2 ⟨ha, rfl⟩
    rw [hd]
    simp only [List.length_append, Nat.add_sub_cancel]

theorem exactly_eq_ok_iff {α : Type} {d : Decoder α} {bs : Bytes} {a : α} :
    d.exactly bs = .ok a ↔ d bs = .ok (a, []) := by
  unfold exactly
  cases h : d bs with
  | error e => simp
  | ok r =>
    obtain ⟨b, rest⟩ := r
    cases rest <;> simp

/-- Exactly the spellings of the values in range are read as whole byte strings. -/
theorem exactly_eq_ok_iff_of_spells {α : Type} {d : Decoder α} {range : α → Prop}
    {spell : α → Bytes} (h : d.Spells range spell) {bs : Bytes} {a : α} :
    d.exactly bs = .ok a ↔ range a ∧ bs = spell a := by
  rw [exactly_eq_ok_iff, h.iff, List.append_nil]

end Decoder

end TxoIndex

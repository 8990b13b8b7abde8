import TxoIndex.Proofs.Wire.Spelling

/-!
# Bytes that end too early

A parser that is given only the front of what it would read has one way to fail: it runs out of
bytes. No other complaint can come first, since all that is checked of a value is checked on bytes
that have been read. This is said once for a sequence of steps, of which the earlier ones still take
what is theirs and a later one runs out, and once for a list, so a format of several fields follows
from its fields. Nothing is claimed here of bytes that are not the front of an accepted spelling.
-/

namespace TxoIndex

/-- A parser takes bytes from the front of its state, and has an error for when they end too
early. -/
class Input (σ : Type) (ε : outParam Type) where
  ahead : σ → Bytes
  truncated : ε

instance : Input Bytes DecodeError := ⟨id, .endOfInput⟩

/-! ## Sequences of steps -/

section Steps

variable {σ ε α β : Type} [Input σ ε]

/-- The step takes these bytes and no others, whatever follows them. -/
def Takes (x : StateT σ (Except ε) α) (bs : Bytes) (a : α) : Prop :=
  ∀ s rest, Input.ahead s = bs ++ rest → ∃ s', x s = .ok (a, s') ∧ Input.ahead s' = rest

/-- The step runs out of bytes if there is only a proper front of these. -/
def RunsOut (x : StateT σ (Except ε) α) (bs : Bytes) : Prop :=
  ∀ s, Input.ahead s <+: bs → Input.ahead s ≠ bs → x s = .error (Input.truncated σ)

/-- A proper front of two parts ends in the first one, or in the second one. -/
theorem isPrefix_append_of_ne {front xs ys : Bytes} (h : front <+: xs ++ ys)
    (hne : front ≠ xs ++ ys) :
    (front <+: xs ∧ front ≠ xs) ∨ ∃ rest, front = xs ++ rest ∧ rest <+: ys ∧ rest ≠ ys := by
  by_cases hxs : xs <+: front
  · right
    obtain ⟨rest, rfl⟩ := hxs
    exact ⟨rest, rfl, (List.prefix_append_right_inj xs).1 h, mt (congrArg (xs ++ ·)) hne⟩
  · left
    constructor
    · exact (List.prefix_or_prefix_of_prefix h (List.prefix_append xs ys)).resolve_right hxs
    · rintro rfl
      exact hxs List.prefix_rfl

/-- There is no proper front of nothing. -/
theorem runsOut_nil (x : StateT σ (Except ε) α) : RunsOut x [] :=
  fun _ h hne ↦ absurd (List.prefix_nil.1 h) hne

/-- What would follow plays no part. -/
theorem RunsOut.bind {x : StateT σ (Except ε) α} {bs : Bytes} (h : RunsOut x bs)
    (f : α → StateT σ (Except ε) β) : RunsOut (x >>= f) bs :=
  fun s hfront hne ↦ bind_error (h s hfront hne)

/-- A sequence runs out in its first step, or in what follows on what the first step takes. -/
theorem RunsOut.append {x : StateT σ (Except ε) α} {f : α → StateT σ (Except ε) β} {a : α}
    {xs ys : Bytes} (hx : RunsOut x xs) (htakes : Takes x xs a) (hf : RunsOut (f a) ys) :
    RunsOut (x >>= f) (xs ++ ys) := by
  intro s hfront hne
  rcases isPrefix_append_of_ne hfront hne with ⟨hfront, hne⟩ | ⟨rest, hahead, hrest, hne⟩
  · exact hx.bind f s hfront hne
  · obtain ⟨s', hok, rfl⟩ := htakes s rest hahead
    rw [bind_ok hok]
    exact hf s' hrest hne

/-- A check that is passed does not matter. -/
theorem RunsOut.check {p : Prop} [Decidable p] {e : ε} {f : α → StateT σ (Except ε) β}
    {x : StateT σ (Except ε) β} {bs : Bytes} (hp : ¬ p) (hx : RunsOut x bs) :
    RunsOut (if p then throw e >>= f else x) bs := by
  rwa [if_neg hp]

/-- A list runs out in one of its members, and those before it are taken. -/
theorem runsOut_repeatStep {γ : Type} {item : StateT σ (Except ε) α} {spell : γ → Bytes}
    {view : γ → α} {count : Nat} {cs : List γ} (hcount : cs.length = count)
    (htakes : ∀ c ∈ cs, Takes item (spell c) (view c)) (h : ∀ c ∈ cs, RunsOut item (spell c))
    (done : List α) : RunsOut (repeatStep item count done) (cs.flatMap spell) := by
  induction cs generalizing count done with
  | nil => exact runsOut_nil _
  | cons c cs ih =>
    obtain ⟨hc, hcs⟩ := List.forall_mem_cons.1 h
    obtain ⟨htakes_c, htakes_cs⟩ := List.forall_mem_cons.1 htakes
    rw [← hcount, List.length_cons, repeatStep_succ, List.flatMap_cons]
    exact hc.append htakes_c (ih rfl htakes_cs hcs _)

end Steps

/-! ## Counts and lengths -/

theorem Bytes.split?_of_isPrefix {n : Nat} {front bs : Bytes} (hn : bs.length = n)
    (h : front <+: bs) (hne : front ≠ bs) : Bytes.split? n front = none := by
  rw [Bytes.split?_eq_none_iff, ← hn]
  exact Nat.lt_of_le_of_ne h.length_le fun hlength ↦ hne (h.eq_of_length hlength)

namespace CompactSize

/-- A tag promises the bytes behind it. -/
theorem IsTag.read_of_isPrefix {tag : UInt8} {bytes least n : Nat} (h : IsTag tag bytes least)
    {front : Bytes} (hfront : front <+: tag :: Bytes.littleEndian bytes n)
    (hne : front ≠ tag :: Bytes.littleEndian bytes n) : read front = .error .truncated := by
  cases front with
  | nil => rfl
  | cons first digits =>
    obtain ⟨rfl, hdigits⟩ := List.cons_prefix_cons.1 hfront
    rw [h.read_cons, readTagged, Bytes.split?_of_isPrefix (Bytes.length_littleEndian bytes n)
      hdigits (mt (congrArg (first :: ·)) hne)]

theorem read_of_isPrefix_singleton {b : UInt8} {front : Bytes} (hfront : front <+: [b])
    (hne : front ≠ [b]) : read front = .error .truncated := by
  obtain rfl : front = [] := by
    by_contra hnil
    exact hne (hfront.eq_of_length_le (List.length_pos_iff.2 hnil))
  rfl

theorem read_of_isPrefix {n : Nat} {front : Bytes} (h : front <+: encode n)
    (hne : front ≠ encode n) : read front = .error .truncated := by
  by_cases hn : n < 0xfd
  · rw [encode_of_lt hn] at h hne
    exact read_of_isPrefix_singleton h hne
  · obtain ⟨tag, bytes, least, htag, -, -, heq⟩ := exists_encode_eq_cons (Nat.le_of_not_lt hn)
    rw [heq] at h hne
    exact htag.read_of_isPrefix h hne

end CompactSize

/-! ## Decoders -/

namespace Decoder

theorem Spells.takes {α : Type} {d : Decoder α} {range : α → Prop} {spell : α → Bytes}
    (h : d.Spells range spell) {a : α} (ha : range a) : Takes d (spell a) a :=
  fun _ rest hahead ↦ ⟨rest, h.iff.2 ⟨ha, hahead⟩, rfl⟩

theorem runsOut_fixed {n : Nat} {bs : Bytes} (hn : bs.length = n) : RunsOut (fixed n) bs := by
  intro front h hne
  have hsplit : Bytes.split? n front = none := Bytes.split?_of_isPrefix hn h hne
  rw [fixed, hsplit]
  rfl

theorem runsOut_number {width : Nat} {bs : Bytes} (h : bs.length = width) :
    RunsOut (number width) bs := (runsOut_fixed h).bind _

theorem runsOut_byte (b : UInt8) : RunsOut byte [b] := (runsOut_number rfl).bind _

theorem runsOut_word32 (x : UInt32) : RunsOut word32 (word32Bytes x) :=
  (runsOut_number (Bytes.length_littleEndian 4 _)).bind _

theorem runsOut_word64 (x : UInt64) : RunsOut word64 (word64Bytes x) :=
  (runsOut_number (Bytes.length_littleEndian 8 _)).bind _

theorem runsOut_hash (h : Hash) : RunsOut hash h.bytes := by
  intro front hfront hne
  rw [hash, runsOut_fixed h.length_bytes front hfront hne]

theorem runsOut_compactSize (n : Nat) : RunsOut compactSize (CompactSize.encode n) := by
  intro front h hne
  have hread : CompactSize.read front = .error .truncated := CompactSize.read_of_isPrefix h hne
  rw [compactSize, hread]
  rfl

theorem runsOut_sized {bs : Bytes} (h : bs.length < UInt64.size) :
    RunsOut sized (sizedBytes bs) :=
  (runsOut_compactSize _).append (compactSize_spells.takes h) (runsOut_fixed rfl)

section Lists

variable {α : Type} {item : Decoder α} {range : α → Prop} {spell : α → Bytes} {count : Nat}
  {xs : List α}

theorem takes_times (h : item.Spells range spell) (hcount : xs.length = count)
    (hxs : ∀ x ∈ xs, range x) : Takes (times count item) (xs.flatMap spell) xs :=
  fun _ rest hahead ↦ ⟨rest, (times_eq_ok_iff h).2 ⟨hcount, hxs, hahead⟩, rfl⟩

theorem runsOut_times (h : item.Spells range spell)
    (hitem : ∀ {a}, range a → RunsOut item (spell a)) (hcount : xs.length = count)
    (hxs : ∀ x ∈ xs, range x) : RunsOut (times count item) (xs.flatMap spell) :=
  runsOut_repeatStep hcount (fun x hx ↦ h.takes (hxs x hx)) (fun x hx ↦ hitem (hxs x hx)) []

theorem runsOut_counted (h : item.Spells range spell)
    (hitem : ∀ {a}, range a → RunsOut item (spell a))
    (hxs : xs.length < UInt64.size ∧ ∀ x ∈ xs, range x) :
    RunsOut (counted item) (countedBytes spell xs) :=
  (runsOut_compactSize _).append (compactSize_spells.takes hxs.1)
    (runsOut_times h hitem rfl hxs.2)

end Lists

/-- The front of an accepted byte string is refused because it ends too early. -/
theorem exactly_of_isPrefix {α : Type} {d : Decoder α} {front bs : Bytes} (h : RunsOut d bs)
    (hfront : front <+: bs) (hne : front ≠ bs) :
    d.exactly front = .error (.malformed .endOfInput) := by
  rw [exactly, h front hfront hne]
  rfl

/-- Bytes behind an accepted byte string are counted. -/
theorem exactly_append {α : Type} {d : Decoder α} {range : α → Prop} {spell : α → Bytes}
    (h : d.Spells range spell) {a : α} (ha : range a) {more : Bytes} (hmore : more ≠ []) :
    d.exactly (spell a ++ more) = .error (.leftover more.length) := by
  rw [exactly, h.iff.2 ⟨ha, rfl⟩]
  exact if_neg (mt List.isEmpty_iff.1 hmore)

end Decoder

end TxoIndex

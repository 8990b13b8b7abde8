import TxoIndex.Hash

/-!
# The display of hashes

A hash is shown by two digits for each of its bytes, the last byte first. What is read as a hash is
the display of this hash, up to the case of its digits, and nothing else: so reading is told by the
display alone. The two reasons for which a text is refused exclude each other. The first one counts
bytes and the second one looks at characters, and a text of the right length that is not all digits
has the second one, also if it has fewer characters than bytes.
-/

namespace TxoIndex

namespace Hex

/-! ## Digits -/

def IsDigit (c : Char) : Prop :=
  '0' ≤ c ∧ c ≤ '9' ∨ 'a' ≤ c ∧ c ≤ 'f' ∨ 'A' ≤ c ∧ c ≤ 'F'

instance : DecidablePred IsDigit := fun c ↦
  inferInstanceAs (Decidable ('0' ≤ c ∧ c ≤ '9' ∨ 'a' ≤ c ∧ c ≤ 'f' ∨ 'A' ≤ c ∧ c ≤ 'F'))

def digits : List Char :=
  ['0', '1', '2', '3', '4', '5', '6', '7', '8', '9', 'a', 'b', 'c', 'd', 'e', 'f']

theorem getElem?_digits : ∀ n < 16, digits[n]? = some (digit n) := by
  decide

theorem isDigit_iff {c : Char} : IsDigit c ↔
    48 ≤ c.toNat ∧ c.toNat ≤ 57 ∨ 97 ≤ c.toNat ∧ c.toNat ≤ 102 ∨ 65 ≤ c.toNat ∧ c.toNat ≤ 70 :=
  Iff.rfl

theorem isSome_value?_iff {c : Char} : (value? c).isSome ↔ IsDigit c := by
  rw [isDigit_iff, value?]
  grind

theorem toNat_digit : ∀ n < 16, (digit n).toNat = if n < 10 then 48 + n else 87 + n := by
  decide

theorem toNat_toLower (c : Char) :
    c.toLower.toNat = if 65 ≤ c.toNat ∧ c.toNat ≤ 90 then c.toNat + 32 else c.toNat := by
  unfold Char.toLower
  split
  · next h =>
    have hc : 65 ≤ c.toNat ∧ c.toNat ≤ 90 := h
    rw [if_pos hc]
    change (c.val + 32).toNat = c.toNat + 32
    rw [UInt32.toNat_add]
    exact Nat.mod_eq_of_lt (show c.toNat + 32 < 2 ^ 32 by omega)
  · next h =>
    have hc : ¬ (65 ≤ c.toNat ∧ c.toNat ≤ 90) := h
    rw [if_neg hc]

/-- A character has a value if it is the digit of this value, up to case. -/
theorem value?_eq_some_iff {c : Char} {n : Nat} :
    value? c = some n ↔ n < 16 ∧ c.toLower = digit n := by
  have hdigit (hn : n < 16) : c.toLower = digit n ↔
      c.toLower.toNat = if n < 10 then 48 + n else 87 + n := by
    rw [← toNat_digit n hn, Char.toNat_inj]
  by_cases hn : n < 16
  · rw [hdigit hn, toNat_toLower, value?]
    grind
  · rw [value?]
    grind

/-! ## Texts of bytes -/

theorem length_flatMap_byteDigits (bs : Bytes) :
    (bs.flatMap byteDigits).length = 2 * bs.length := by
  induction bs with
  | nil => rfl
  | cons b bs ih =>
    rw [List.flatMap_cons, List.length_append, ih, List.length_cons, Nat.mul_succ, Nat.add_comm]
    rfl

/-- Which digit of a byte stands where. -/
theorem getElem?_flatMap_byteDigits (bs : Bytes) (i : Nat) :
    (bs.flatMap byteDigits)[2 * i]? = bs[i]?.map (fun b ↦ digit (b.toNat / 16)) ∧
      (bs.flatMap byteDigits)[2 * i + 1]? = bs[i]?.map fun b ↦ digit (b.toNat % 16) := by
  induction bs generalizing i with
  | nil => simp
  | cons b bs ih =>
    cases i with
    | zero => simp [byteDigits]
    | succ i => simpa [byteDigits, Nat.mul_add] using ih i

/-- Whole bytes are read from digits only, and from all digits, if their number is even. -/
theorem isSome_decode?_iff {cs : List Char} :
    (decode? cs).isSome ↔ (∀ c ∈ cs, IsDigit c) ∧ cs.length % 2 = 0 := by
  fun_induction decode? cs with
  | case1 => simp
  | case2 c => simp
  | case3 high low rest ih =>
    simp only [List.forall_mem_cons, List.length_cons, ← isSome_value?_iff] at ih ⊢
    cases value? high with
    | none => simp
    | some h =>
      cases value? low with
      | none => simp
      | some l =>
        have hlength : (rest.length + 1 + 1) % 2 = rest.length % 2 := by omega
        simp only [Option.isSome_some, true_and, hlength, ← ih]
        cases decode? rest <;> rfl

theorem decode?_cons_cons_eq_some_iff {high low : Char} {rest : List Char} {b : UInt8}
    {bs : Bytes} :
    decode? (high :: low :: rest) = some (b :: bs) ↔
      value? high = some (b.toNat / 16) ∧ value? low = some (b.toNat % 16) ∧
        decode? rest = some bs := by
  simp only [decode?, Option.bind_eq_bind, Option.bind_eq_some_iff, Option.pure_def,
    Option.some.injEq, List.cons.injEq]
  constructor
  · rintro ⟨h, hh, l, hl, bs, hbs, rfl, rfl⟩
    have hh16 := (value?_eq_some_iff.1 hh).1
    have hl16 := (value?_eq_some_iff.1 hl).1
    have hdiv : (UInt8.ofNat (16 * h + l)).toNat / 16 = h := by
      rw [UInt8.toNat_ofNat']
      omega
    have hmod : (UInt8.ofNat (16 * h + l)).toNat % 16 = l := by
      rw [UInt8.toNat_ofNat']
      omega
    rw [hdiv, hmod]
    exact ⟨hh, hl, hbs⟩
  · rintro ⟨hh, hl, hbs⟩
    refine ⟨_, hh, _, hl, _, hbs, ?_, rfl⟩
    rw [Nat.div_add_mod, UInt8.ofNat_toNat]

/-- Bytes are read from their text, up to case, and from nothing else. -/
theorem decode?_eq_some_iff {cs : List Char} {bs : Bytes} :
    decode? cs = some bs ↔ cs.map Char.toLower = bs.flatMap byteDigits := by
  induction bs generalizing cs with
  | nil =>
    match cs with
    | [] => simp [decode?]
    | [_] => simp [decode?]
    | _ :: _ :: _ => simp [decode?, Option.bind_eq_some_iff]
  | cons b bs ih =>
    match cs with
    | [] => simp [decode?, byteDigits]
    | [_] => simp [decode?, byteDigits]
    | high :: low :: rest =>
      have hb := b.toNat_lt
      have hdiv : b.toNat / 16 < 16 := by omega
      have hmod : b.toNat % 16 < 16 := by omega
      rw [decode?_cons_cons_eq_some_iff, value?_eq_some_iff, value?_eq_some_iff, ih,
        and_iff_right hdiv, and_iff_right hmod]
      simp [byteDigits]

/-! ## Bytes of texts -/

theorem IsDigit.utf8Size_eq {c : Char} (h : IsDigit c) : c.utf8Size = 1 := by
  rw [Char.utf8Size_eq_one_iff, UInt32.le_iff_toNat_le]
  rw [isDigit_iff] at h
  change c.toNat ≤ 127
  omega

theorem utf8ByteSize_ofList {cs : List Char} (h : ∀ c ∈ cs, IsDigit c) :
    (String.ofList cs).utf8ByteSize = cs.length := by
  induction cs with
  | nil => rfl
  | cons c cs ih =>
    obtain ⟨hc, hcs⟩ := List.forall_mem_cons.1 h
    rw [String.ofList_cons, String.utf8ByteSize_append, String.utf8ByteSize_singleton,
      hc.utf8Size_eq, ih hcs, List.length_cons, Nat.add_comm]

/-- Digits take one byte each. -/
theorem utf8ByteSize_eq_length {text : String} (h : ∀ c ∈ text.toList, IsDigit c) :
    text.utf8ByteSize = text.length := by
  have hsize := utf8ByteSize_ofList h
  rwa [String.ofList_toList, String.length_toList] at hsize

theorem utf8ByteSize_of_decode? {text : String} {bs : Bytes}
    (h : decode? text.toList = some bs) : text.utf8ByteSize = 2 * bs.length := by
  have hdigits := (isSome_decode?_iff.1 (Option.isSome_of_eq_some h)).1
  have hlength := congrArg List.length (decode?_eq_some_iff.1 h)
  rwa [List.length_map, length_flatMap_byteDigits, String.length_toList,
    ← utf8ByteSize_eq_length hdigits] at hlength

end Hex

namespace Hash

variable {text : String} {h : Hash}

/-! ## Reading -/

/-- The bytes of a hash are read from its display, up to case, in reverse order. -/
theorem decode?_toList_eq_iff :
    Hex.decode? text.toList = some h.bytes.reverse ↔ h.display = text.toLower := by
  have hlower : text.toLower.toList = text.toList.map Char.toLower := String.toList_map
  rw [Hex.decode?_eq_some_iff, display, Hex.encode, ← String.toList_inj, String.toList_ofList,
    hlower]
  exact eq_comm

/-- A hash is read from its display, up to case, and from nothing else. -/
theorem parse_eq_ok_iff : parse text = .ok h ↔ h.display = text.toLower := by
  rw [← decode?_toList_eq_iff]
  constructor
  · intro hok
    unfold parse at hok
    split at hok
    · cases hok
    · split at hok
      · cases hok
      · next bs hbs =>
        split at hok
        · cases hok
        · next h' hhash =>
          cases hok
          rw [ofBytes?_eq_some_iff.1 hhash, List.reverse_reverse]
          exact hbs
  · intro hbs
    have hsize : text.utf8ByteSize = 64 := by
      rw [Hex.utf8ByteSize_of_decode? hbs, List.length_reverse, h.length_bytes]
    have hhash : ofBytes? h.bytes.reverse.reverse = some h :=
      ofBytes?_eq_some_iff.2 (List.reverse_reverse h.bytes).symm
    rw [parse, if_neg (not_not_intro hsize), hbs]
    simp only [hhash]

theorem toLower_display (h : Hash) : h.display.toLower = h.display := by
  symm
  rw [← decode?_toList_eq_iff, display, Hex.encode, String.toList_ofList]
  exact Hex.decode?_encode _

/-- Reading undoes display. -/
theorem parse_display (h : Hash) : parse h.display = .ok h :=
  parse_eq_ok_iff.2 h.toLower_display.symm

/-- Exactly the texts of sixty-four digits are read. -/
theorem exists_parse_iff :
    (∃ h, parse text = .ok h) ↔ text.length = 64 ∧ ∀ c ∈ text.toList, Hex.IsDigit c := by
  simp only [parse_eq_ok_iff, ← decode?_toList_eq_iff]
  constructor
  · rintro ⟨h, hbs⟩
    have hdigits := (Hex.isSome_decode?_iff.1 (Option.isSome_of_eq_some hbs)).1
    rw [← Hex.utf8ByteSize_eq_length hdigits, Hex.utf8ByteSize_of_decode? hbs,
      List.length_reverse, h.length_bytes]
    exact ⟨rfl, hdigits⟩
  · rintro ⟨hlength, hdigits⟩
    have heven : text.toList.length % 2 = 0 := by rw [String.length_toList, hlength]
    obtain ⟨bs, hbs⟩ := Option.isSome_iff_exists.1 (Hex.isSome_decode?_iff.2 ⟨hdigits, heven⟩)
    have hsize := Hex.utf8ByteSize_of_decode? hbs
    rw [Hex.utf8ByteSize_eq_length hdigits, hlength] at hsize
    have hreverse : bs.reverse.length = 32 := by
      rw [List.length_reverse]
      omega
    exact ⟨⟨bs.reverse, hreverse⟩, by rwa [List.reverse_reverse]⟩

theorem parse_eq_length_iff : parse text = .error .length ↔ text.utf8ByteSize ≠ 64 := by
  unfold parse
  split
  · next hsize => exact iff_of_true rfl hsize
  · next hsize =>
    refine iff_of_false (fun hlength ↦ ?_) hsize
    split at hlength
    · cases hlength
    · split at hlength <;> cases hlength

theorem parse_eq_digit_iff : parse text = .error .digit ↔
    text.utf8ByteSize = 64 ∧ ∃ c ∈ text.toList, ¬ Hex.IsDigit c := by
  have hiff : (∃ c ∈ text.toList, ¬ Hex.IsDigit c) ↔ ¬ ∀ c ∈ text.toList, Hex.IsDigit c := by
    simp
  rw [hiff]
  cases hparse : parse text with
  | ok h =>
    refine iff_of_false nofun fun ⟨_, hdigits⟩ ↦ hdigits ?_
    exact (exists_parse_iff.1 ⟨h, hparse⟩).2
  | error e =>
    cases e with
    | length => exact iff_of_false nofun fun ⟨hsize, _⟩ ↦ parse_eq_length_iff.1 hparse hsize
    | digit =>
      have hsize : text.utf8ByteSize = 64 := by
        apply Decidable.not_not.1
        intro hsize
        rw [parse_eq_length_iff.2 hsize] at hparse
        cases hparse
      refine iff_of_true rfl ⟨hsize, fun hdigits ↦ ?_⟩
      rw [Hex.utf8ByteSize_eq_length hdigits] at hsize
      obtain ⟨h, hok⟩ := exists_parse_iff.2 ⟨hsize, hdigits⟩
      rw [hok] at hparse
      cases hparse

/-- Thirty-two characters of two bytes each: the length is right, and no character is a digit. -/
example : parse (String.ofList (List.replicate 32 'é')) = .error .digit := rfl

/-! ## Order of the bytes -/

/-- The text has two lower-case digits for every byte of the hash, those of its first byte at the
end. -/
structure Shows (text : String) (h : Hash) : Prop where
  length_eq : text.length = 64
  high {i : Nat} {b : UInt8} : h.bytes[i]? = some b →
    text.toList[62 - 2 * i]? = Hex.digits[b.toNat / 16]?
  low {i : Nat} {b : UInt8} : h.bytes[i]? = some b →
    text.toList[63 - 2 * i]? = Hex.digits[b.toNat % 16]?

theorem getElem?_reverse_bytes {i : Nat} {b : UInt8} (hb : h.bytes[i]? = some b) :
    i < 32 ∧ h.bytes.reverse[31 - i]? = some b := by
  have hi : i < 32 := by
    rw [← h.length_bytes]
    exact (List.getElem?_eq_some_iff.1 hb).1
  have hback : 32 - 1 - (31 - i) = i := by omega
  refine ⟨hi, ?_⟩
  rw [List.getElem?_reverse (by rw [h.length_bytes]; omega), h.length_bytes, hback, hb]

theorem shows_display (h : Hash) : Shows h.display h where
  length_eq := by
    rw [← String.length_toList, display, Hex.encode, String.toList_ofList,
      Hex.length_flatMap_byteDigits, List.length_reverse, h.length_bytes]
  high {i b} hb := by
    obtain ⟨hi, hreverse⟩ := getElem?_reverse_bytes hb
    have hb := b.toNat_lt
    have hpos : 62 - 2 * i = 2 * (31 - i) := by omega
    rw [display, Hex.encode, String.toList_ofList, hpos, (Hex.getElem?_flatMap_byteDigits _ _).1,
      hreverse, Option.map_some, Hex.getElem?_digits _ (by omega)]
  low {i b} hb := by
    obtain ⟨hi, hreverse⟩ := getElem?_reverse_bytes hb
    have hb := b.toNat_lt
    have hpos : 63 - 2 * i = 2 * (31 - i) + 1 := by omega
    rw [display, Hex.encode, String.toList_ofList, hpos, (Hex.getElem?_flatMap_byteDigits _ _).2,
      hreverse, Option.map_some, Hex.getElem?_digits _ (by omega)]

/-- Every position of the text is one of a byte. -/
theorem Shows.unique {other : String} (hshows : Shows text h) (hother : Shows other h) :
    text = other := by
  rw [← String.toList_inj]
  apply List.ext_getElem?
  intro k
  by_cases hk : k < 64
  · have hi : 31 - k / 2 < h.bytes.length := by
      rw [h.length_bytes]
      omega
    have hb := List.getElem?_eq_getElem hi
    rcases Nat.mod_two_eq_zero_or_one k with heven | hodd
    · obtain hpos : 62 - 2 * (31 - k / 2) = k := by omega
      have hsame := (hshows.high hb).trans (hother.high hb).symm
      rwa [hpos] at hsame
    · obtain hpos : 63 - 2 * (31 - k / 2) = k := by omega
      have hsame := (hshows.low hb).trans (hother.low hb).symm
      rwa [hpos] at hsame
  · have hend {text : String} (hshows : Shows text h) : text.toList[k]? = none := by
      rw [List.getElem?_eq_none_iff, String.length_toList, hshows.length_eq]
      exact Nat.le_of_not_lt hk
    rw [hend hshows, hend hother]

theorem shows_iff : Shows text h ↔ text = h.display :=
  ⟨fun hshows ↦ hshows.unique h.shows_display, fun heq ↦ heq ▸ h.shows_display⟩

/-- The digits of the bytes in the order in which they are stored are the display of another hash,
unless the bytes are the same in both orders. -/
theorem parse_encode_bytes {other : Hash} :
    parse (Hex.encode h.bytes) = .ok other ↔ other.bytes = h.bytes.reverse := by
  have hlength : h.bytes.reverse.length = 32 := by rw [List.length_reverse, h.length_bytes]
  let reversed : Hash := ⟨h.bytes.reverse, hlength⟩
  have hdisplay : reversed.display = Hex.encode h.bytes :=
    congrArg Hex.encode (List.reverse_reverse h.bytes)
  rw [← hdisplay, parse_display, Except.ok.injEq, Hash.ext_iff]
  exact eq_comm

end Hash

end TxoIndex

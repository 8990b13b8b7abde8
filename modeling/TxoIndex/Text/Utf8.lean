import TxoIndex.Bytes

/-!
# Text as bytes

A character takes one to four bytes. The first byte tells how many follow and limits the second one,
so that every character has one form only. Where bytes are not the form of a character, as many of
them as could start one are passed over together.
-/

namespace TxoIndex.Utf8

/-- The forms that start with a byte: the bits that it gives, how many bytes follow, and the range
of the first of these. -/
def lead? (b : UInt8) : Option (Nat × Nat × UInt8 × UInt8) :=
  if b < 0x80 then some (b.toNat, 0, 0, 0)
  else if b < 0xc2 then none
  else if b < 0xe0 then some (b.toNat - 0xc0, 1, 0x80, 0xbf)
  else if b = 0xe0 then some (0, 2, 0xa0, 0xbf)
  else if b = 0xed then some (0xd, 2, 0x80, 0x9f)
  else if b < 0xf0 then some (b.toNat - 0xe0, 2, 0x80, 0xbf)
  else if b = 0xf0 then some (0, 3, 0x90, 0xbf)
  else if b < 0xf4 then some (b.toNat - 0xf0, 3, 0x80, 0xbf)
  else if b = 0xf4 then some (4, 3, 0x80, 0x8f)
  else none

/-- Reads the bytes that follow a first byte, as far as they do; `value` holds the bits so far. -/
def follow : (count : Nat) → (low high : UInt8) → (value : Nat) → Bytes → Option Char × Bytes
  | 0, _, _, value, bs => (some (Char.ofNat value), bs)
  | _ + 1, _, _, _, [] => (none, [])
  | count + 1, low, high, value, b :: bs =>
    if low ≤ b ∧ b ≤ high then follow count 0x80 0xbf (64 * value + (b.toNat - 0x80)) bs
    else (none, b :: bs)

theorem length_follow_le (count : Nat) (low high : UInt8) (value : Nat) (bs : Bytes) :
    (follow count low high value bs).2.length ≤ bs.length := by
  fun_induction follow count low high value bs with
  | case1 => exact Nat.le_refl _
  | case2 => exact Nat.le_refl _
  | case3 count low high value b bs _ ih => exact Nat.le_succ_of_le ih
  | case4 => exact Nat.le_refl _

/-- The characters of a byte string, with `none` for each group of bytes that is not a character. -/
def decode : Bytes → List (Option Char)
  | [] => []
  | b :: bs =>
    match lead? b with
    | none => none :: decode bs
    | some (value, count, low, high) =>
      (follow count low high value bs).1 :: decode (follow count low high value bs).2
termination_by bs => bs.length
decreasing_by
  · simp
  · exact Nat.lt_succ_of_le (length_follow_le ..)

/-- The text of a byte string, if all of it is text. -/
def decode? (bs : Bytes) : Option (List Char) := (decode bs).mapM id

/-- The text of a byte string, with a replacement character for what is not text. -/
def decodeLossy (bs : Bytes) : String :=
  String.ofList ((decode bs).map (·.getD (Char.ofNat 0xfffd)))

def encode (text : String) : Bytes := text.toUTF8.toList

end TxoIndex.Utf8

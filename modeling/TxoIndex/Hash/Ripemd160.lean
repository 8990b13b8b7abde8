import TxoIndex.Bytes

/-!
# RIPEMD-160

The hash that shortens a public key's SHA-256 to twenty bytes. Two lines of eighty steps run over
the same block with different word orders, shifts and constants, and their results are added
crosswise to the chaining words.
-/

namespace TxoIndex.Ripemd160

/-- The five words that a block is folded into. -/
structure Chain where
  a : UInt32
  b : UInt32
  c : UInt32
  d : UInt32
  e : UInt32
  deriving DecidableEq, Repr

def initial : Chain :=
  ⟨0x67452301, 0xefcdab89, 0x98badcfe, 0x10325476, 0xc3d2e1f0⟩

/-- Rotation to the left, by an amount between one and thirty-one. -/
@[inline]
def rotateLeft (x : UInt32) (n : UInt32) : UInt32 :=
  (x <<< n) ||| (x >>> (32 - n))

/-- The five bitwise functions, one for each group of sixteen steps. -/
def mix (group : Nat) (x y z : UInt32) : UInt32 :=
  match group with
  | 0 => x ^^^ y ^^^ z
  | 1 => (x &&& y) ||| ((~~~ x) &&& z)
  | 2 => (x ||| (~~~ y)) ^^^ z
  | 3 => (x &&& z) ||| (y &&& (~~~ z))
  | _ => x ^^^ (y ||| (~~~ z))

/-- Sixteen steps of one line: which bitwise function, the constant to add, and for each step the
index of the message word and the rotation. -/
structure Group where
  mixing : Nat
  constant : UInt32
  steps : List (Nat × UInt32)

def leftLine : List Group :=
  [⟨0, 0x00000000, List.zip [0, 1, 2, 3, 4, 5, 6, 7, 8, 9, 10, 11, 12, 13, 14, 15]
      [11, 14, 15, 12, 5, 8, 7, 9, 11, 13, 14, 15, 6, 7, 9, 8]⟩,
   ⟨1, 0x5a827999, List.zip [7, 4, 13, 1, 10, 6, 15, 3, 12, 0, 9, 5, 2, 14, 11, 8]
      [7, 6, 8, 13, 11, 9, 7, 15, 7, 12, 15, 9, 11, 7, 13, 12]⟩,
   ⟨2, 0x6ed9eba1, List.zip [3, 10, 14, 4, 9, 15, 8, 1, 2, 7, 0, 6, 13, 11, 5, 12]
      [11, 13, 6, 7, 14, 9, 13, 15, 14, 8, 13, 6, 5, 12, 7, 5]⟩,
   ⟨3, 0x8f1bbcdc, List.zip [1, 9, 11, 10, 0, 8, 12, 4, 13, 3, 7, 15, 14, 5, 6, 2]
      [11, 12, 14, 15, 14, 15, 9, 8, 9, 14, 5, 6, 8, 6, 5, 12]⟩,
   ⟨4, 0xa953fd4e, List.zip [4, 0, 5, 9, 7, 12, 2, 10, 14, 1, 3, 8, 11, 6, 15, 13]
      [9, 15, 5, 11, 6, 8, 13, 12, 5, 12, 13, 14, 11, 8, 5, 6]⟩]

def rightLine : List Group :=
  [⟨4, 0x50a28be6, List.zip [5, 14, 7, 0, 9, 2, 11, 4, 13, 6, 15, 8, 1, 10, 3, 12]
      [8, 9, 9, 11, 13, 15, 15, 5, 7, 7, 8, 11, 14, 14, 12, 6]⟩,
   ⟨3, 0x5c4dd124, List.zip [6, 11, 3, 7, 0, 13, 5, 10, 14, 15, 8, 12, 4, 9, 1, 2]
      [9, 13, 15, 7, 12, 8, 9, 11, 7, 7, 12, 7, 6, 15, 13, 11]⟩,
   ⟨2, 0x6d703ef3, List.zip [15, 5, 1, 3, 7, 14, 6, 9, 11, 8, 12, 2, 10, 0, 4, 13]
      [9, 7, 15, 11, 8, 6, 6, 14, 12, 13, 5, 14, 13, 13, 7, 5]⟩,
   ⟨1, 0x7a6d76e9, List.zip [8, 6, 4, 1, 3, 11, 15, 0, 5, 12, 2, 13, 9, 7, 10, 14]
      [15, 5, 8, 11, 14, 14, 6, 14, 6, 9, 12, 9, 12, 5, 15, 8]⟩,
   ⟨0, 0x00000000, List.zip [12, 15, 10, 4, 1, 5, 8, 7, 6, 2, 13, 14, 0, 3, 9, 11]
      [8, 5, 12, 9, 12, 5, 14, 6, 8, 13, 6, 5, 15, 13, 11, 11]⟩]

def words : Bytes → List UInt32
  | b₀ :: b₁ :: b₂ :: b₃ :: rest =>
    (b₀.toUInt32 ||| (b₁.toUInt32 <<< 8) ||| (b₂.toUInt32 <<< 16) ||| (b₃.toUInt32 <<< 24))
      :: words rest
  | _ => []

/-- One line of steps over the words of a block. -/
def runLine (block : List UInt32) (line : List Group) (s : Chain) : Chain :=
  line.foldl (fun s group ↦
    group.steps.foldl (fun s (index, shift) ↦
      let word := block.getD index 0
      let t := rotateLeft (s.a + mix group.mixing s.b s.c s.d + word + group.constant) shift + s.e
      ⟨s.e, t, s.b, rotateLeft s.c 10, s.d⟩) s) s

def compress (s : Chain) (block : Bytes) : Chain :=
  let ws := words block
  let l := runLine ws leftLine s
  let r := runLine ws rightLine s
  ⟨s.b + l.c + r.d, s.c + l.d + r.e, s.d + l.e + r.a, s.e + l.a + r.b, s.a + l.b + r.c⟩

/-- Folds whole blocks into the chaining words; an incomplete last block is ignored. -/
def absorb (s : Chain) (bs : Bytes) : Chain :=
  match _hsplit : Bytes.split? 64 bs with
  | some (block, rest) => absorb (compress s block) rest
  | none => s
termination_by bs.length
decreasing_by
  obtain ⟨hlen, rfl⟩ := Bytes.split?_eq_some_iff.1 _hsplit
  simp [hlen]

/-- The closing bytes of a message of `count` bytes: a one bit, zeros up to the last eight bytes of
a block, and the length in bits. -/
def padding (count : Nat) : Bytes :=
  0x80 :: (List.replicate ((119 - count % 64) % 64) 0 ++ Bytes.littleEndian 8 (8 * count))

def digest (message : Bytes) : Bytes :=
  let s := absorb initial (message ++ padding message.length)
  [s.a, s.b, s.c, s.d, s.e].flatMap fun w ↦ Bytes.littleEndian 4 w.toNat

@[simp]
theorem length_digest (message : Bytes) : (digest message).length = 20 := by
  simp [digest]

end TxoIndex.Ripemd160

import TxoIndex.Bytes

/-!
# SHA-256

The hash function of FIPS 180-4, with the message taken piece by piece. A running digest holds the
eight chaining words, the bytes that do not fill a block yet, and the number of bytes taken. Because
whole blocks are absorbed from the pending bytes followed by the new ones, cutting a message into
pieces in another way leads to the same digest.
-/

namespace TxoIndex.Sha256

/-! ## One block -/

/-- The eight words that a block is folded into. -/
structure Chain where
  a : UInt32
  b : UInt32
  c : UInt32
  d : UInt32
  e : UInt32
  f : UInt32
  g : UInt32
  h : UInt32
  deriving DecidableEq, Repr

/-- The fractional parts of the square roots of the first eight primes. -/
def initial : Chain :=
  ⟨0x6a09e667, 0xbb67ae85, 0x3c6ef372, 0xa54ff53a, 0x510e527f, 0x9b05688c, 0x1f83d9ab, 0x5be0cd19⟩

/-- The fractional parts of the cube roots of the first sixty-four primes. -/
def roundConstants : List UInt32 :=
  [0x428a2f98, 0x71374491, 0xb5c0fbcf, 0xe9b5dba5, 0x3956c25b, 0x59f111f1, 0x923f82a4, 0xab1c5ed5,
   0xd807aa98, 0x12835b01, 0x243185be, 0x550c7dc3, 0x72be5d74, 0x80deb1fe, 0x9bdc06a7, 0xc19bf174,
   0xe49b69c1, 0xefbe4786, 0x0fc19dc6, 0x240ca1cc, 0x2de92c6f, 0x4a7484aa, 0x5cb0a9dc, 0x76f988da,
   0x983e5152, 0xa831c66d, 0xb00327c8, 0xbf597fc7, 0xc6e00bf3, 0xd5a79147, 0x06ca6351, 0x14292967,
   0x27b70a85, 0x2e1b2138, 0x4d2c6dfc, 0x53380d13, 0x650a7354, 0x766a0abb, 0x81c2c92e, 0x92722c85,
   0xa2bfe8a1, 0xa81a664b, 0xc24b8b70, 0xc76c51a3, 0xd192e819, 0xd6990624, 0xf40e3585, 0x106aa070,
   0x19a4c116, 0x1e376c08, 0x2748774c, 0x34b0bcb5, 0x391c0cb3, 0x4ed8aa4a, 0x5b9cca4f, 0x682e6ff3,
   0x748f82ee, 0x78a5636f, 0x84c87814, 0x8cc70208, 0x90befffa, 0xa4506ceb, 0xbef9a3f7, 0xc67178f2]

/-- Rotation to the right, by an amount between one and thirty-one. -/
@[inline]
def rotateRight (x : UInt32) (n : UInt32) : UInt32 :=
  (x >>> n) ||| (x <<< (32 - n))

def words : Bytes → List UInt32
  | b₀ :: b₁ :: b₂ :: b₃ :: rest =>
    ((b₀.toUInt32 <<< 24) ||| (b₁.toUInt32 <<< 16) ||| (b₂.toUInt32 <<< 8) ||| b₃.toUInt32)
      :: words rest
  | _ => []

/-- Extends the message schedule by `count` words. The words so far are given newest first. -/
def extend : (count : Nat) → List UInt32 → List UInt32
  | 0, ws => ws
  | count + 1, ws =>
    match ws with
    | _ :: w₂ :: _ :: _ :: _ :: _ :: w₇ :: _ :: _ :: _ :: _ :: _ :: _ :: _ :: w₁₅ :: w₁₆ :: _ =>
      let s₀ := rotateRight w₁₅ 7 ^^^ rotateRight w₁₅ 18 ^^^ (w₁₅ >>> 3)
      let s₁ := rotateRight w₂ 17 ^^^ rotateRight w₂ 19 ^^^ (w₂ >>> 10)
      extend count ((w₁₆ + s₀ + w₇ + s₁) :: ws)
    | _ => ws

def schedule (block : Bytes) : List UInt32 :=
  (extend 48 (words block).reverse).reverse

/-- One round, with the sum of its constant and its word of the schedule. -/
@[inline]
def step (s : Chain) (kw : UInt32) : Chain :=
  let s₁ := rotateRight s.e 6 ^^^ rotateRight s.e 11 ^^^ rotateRight s.e 25
  let choice := (s.e &&& s.f) ^^^ ((~~~ s.e) &&& s.g)
  let t₁ := s.h + s₁ + choice + kw
  let s₀ := rotateRight s.a 2 ^^^ rotateRight s.a 13 ^^^ rotateRight s.a 22
  let majority := (s.a &&& s.b) ^^^ (s.a &&& s.c) ^^^ (s.b &&& s.c)
  ⟨t₁ + (s₀ + majority), s.a, s.b, s.c, s.d + t₁, s.e, s.f, s.g⟩

def rounds : List UInt32 → List UInt32 → Chain → Chain
  | k :: ks, w :: ws, s => rounds ks ws (step s (k + w))
  | _, _, s => s

def compress (s : Chain) (block : Bytes) : Chain :=
  let t := rounds roundConstants (schedule block) s
  ⟨s.a + t.a, s.b + t.b, s.c + t.c, s.d + t.d, s.e + t.e, s.f + t.f, s.g + t.g, s.h + t.h⟩

/-! ## Whole messages -/

def blockSize : Nat := 64

/-- Folds whole blocks into the chaining words, and returns the bytes that are left over. -/
def absorb (s : Chain) (bs : Bytes) : Chain × Bytes :=
  match _hsplit : Bytes.split? blockSize bs with
  | some (block, rest) => absorb (compress s block) rest
  | none => (s, bs)
termination_by bs.length
decreasing_by
  obtain ⟨hlen, rfl⟩ := Bytes.split?_eq_some_iff.1 _hsplit
  simp [hlen, blockSize]

/-- A digest under way. -/
structure Running where
  chain : Chain
  /-- The bytes that do not fill a block yet. -/
  pending : Bytes
  count : Nat

namespace Running

def start : Running := ⟨initial, [], 0⟩

def update (r : Running) (piece : Bytes) : Running :=
  let (chain, pending) := absorb r.chain (r.pending ++ piece)
  ⟨chain, pending, r.count + piece.length⟩

/-- The closing bytes of a message of `count` bytes: a one bit, zeros up to the last eight bytes of
a block, and the length in bits. -/
def padding (count : Nat) : Bytes :=
  0x80 :: (List.replicate ((119 - count % 64) % 64) 0 ++ Bytes.bigEndian 8 (8 * count))

def finalize (r : Running) : Bytes :=
  let s := (absorb r.chain (r.pending ++ padding r.count)).1
  [s.a, s.b, s.c, s.d, s.e, s.f, s.g, s.h].flatMap fun w ↦ Bytes.bigEndian 4 w.toNat

@[simp]
theorem length_finalize (r : Running) : r.finalize.length = 32 := by
  simp [finalize]

end Running

def digest (message : Bytes) : Bytes :=
  (Running.start.update message).finalize

@[simp]
theorem length_digest (message : Bytes) : (digest message).length = 32 := by
  simp [digest]

end TxoIndex.Sha256

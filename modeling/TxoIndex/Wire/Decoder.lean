import TxoIndex.Hash
import TxoIndex.Wire.CompactSize
import TxoIndex.Wire.Error

/-!
# Decoders

A decoder consumes bytes from the front of its input, or names the first problem that it meets. The
combinators read fixed-width words, counts, and lists that are preceded by their count; `exactly`
turns a decoder into a reader of whole byte strings.
-/

namespace TxoIndex

/-- Repeats a step that consumes part of a state, collecting what it yields; `done` holds what was
collected before, the latest first. -/
def repeatStep {σ ε α : Type} (step : StateT σ (Except ε) α) :
    (count : Nat) → (done : List α) → StateT σ (Except ε) (List α)
  | 0, done => fun s ↦ .ok (done.reverse, s)
  | count + 1, done => fun s ↦
    match step s with
    | .error e => .error e
    | .ok (a, s) => repeatStep step count (a :: done) s

/-- A decoder takes bytes from the front of its input. -/
abbrev Decoder (α : Type) := StateT Bytes (Except DecodeError) α

namespace Decoder

def fixed (n : Nat) : Decoder Bytes := fun bs ↦
  match Bytes.split? n bs with
  | none => .error .endOfInput
  | some (front, rest) => .ok (front, rest)

/-- A little-endian number of `width` bytes. -/
def number (width : Nat) : Decoder Nat := do
  return Bytes.littleEndianValue (← fixed width)

def byte : Decoder UInt8 := do
  return UInt8.ofNat (← number 1)

def word32 : Decoder UInt32 := do
  return UInt32.ofNat (← number 4)

def word64 : Decoder UInt64 := do
  return UInt64.ofNat (← number 8)

def hash : Decoder Hash := fun bs ↦
  match fixed 32 bs with
  | .error e => .error e
  | .ok (front, rest) =>
    match Hash.ofBytes? front with
    | none => .error .endOfInput
    | some h => .ok (h, rest)

def compactSize : Decoder Nat := fun bs ↦
  match CompactSize.read bs with
  | .error .truncated => .error .endOfInput
  | .error .nonMinimal => .error .nonMinimal
  | .ok r => .ok r

def times {α : Type} (count : Nat) (item : Decoder α) : Decoder (List α) :=
  repeatStep item count []

/-- A list behind its count. -/
def counted {α : Type} (item : Decoder α) : Decoder (List α) := do
  times (← compactSize) item

/-- A byte string behind its length. -/
def sized : Decoder Bytes := do
  fixed (← compactSize)

/-- Decodes one value and returns it with the bytes that follow it. -/
def run {α : Type} (d : Decoder α) (bs : Bytes) : Except CodecError (α × Bytes) :=
  match d bs with
  | .error e => .error (.malformed e)
  | .ok r => .ok r

/-- Decodes one value at the start of the bytes and tells how many of them it took. -/
def measured {α : Type} (d : Decoder α) (bs : Bytes) : Except CodecError (α × Nat) :=
  match d.run bs with
  | .error e => .error e
  | .ok (a, rest) => .ok (a, bs.length - rest.length)

/-- Decodes bytes as exactly one value, refusing trailing bytes. -/
def exactly {α : Type} (d : Decoder α) (bs : Bytes) : Except CodecError α :=
  match d bs with
  | .error e => .error (.malformed e)
  | .ok (a, rest) => if rest.isEmpty then .ok a else .error (.leftover rest.length)

end Decoder

/-! ## Writing -/

def word32Bytes (x : UInt32) : Bytes := Bytes.littleEndian 4 x.toNat

def word64Bytes (x : UInt64) : Bytes := Bytes.littleEndian 8 x.toNat

def sizedBytes (bs : Bytes) : Bytes := CompactSize.encode bs.length ++ bs

def countedBytes {α : Type} (item : α → Bytes) (xs : List α) : Bytes :=
  CompactSize.encode xs.length ++ xs.flatMap item

end TxoIndex

import TxoIndex.Bytes

/-!
# Witness addresses

The text of a witness program: a prefix for the network, a one, and characters of five bits each.
The first of these is the version, the last six are a checksum, and the program is spread over those
between them. Version zero and the later versions have different checksums.
-/

namespace TxoIndex.Bech32

def alphabet : List Char := "qpzry9x8gf2tvdw0s3jn54khce6mua7l".toList

/-! ## Checksums -/

/-- What each of the five bits that leave the checksum is replaced with. -/
def generator : List Nat := [0x3b6a57b2, 0x26508e6d, 0x1ea119fa, 0x3d4233dd, 0x2a1462b3]

/-- Takes five more bits into a checksum. -/
def step (sum value : Nat) : Nat :=
  let top := sum >>> 25
  generator.zipIdx.foldl (fun s (g, i) ↦ if top.testBit i then s ^^^ g else s)
    (((sum - top <<< 25) <<< 5) ^^^ value)

/-- The checksum of a text; it has to be the constant of its version. -/
def checksum (humanPart : List Char) (values : List Nat) : Nat :=
  let codes := humanPart.map Char.toNat
  (codes.map (· / 32) ++ 0 :: codes.map (· % 32) ++ values).foldl step 1

/-- The checksum that a text of a version has. -/
def constant (version : Nat) : Nat := if version = 0 then 1 else 0x2bc830a3

/-! ## Texts -/

/-- A text in lower case, unless it has letters of both cases. -/
def lowerCase? (cs : List Char) : Option (List Char) :=
  if cs.any Char.isLower && cs.any Char.isUpper then none else some (cs.map Char.toLower)

/-- The parts of a text before and behind its last one. -/
def split? (cs : List Char) : Option (List Char × List Char) :=
  let reversed := cs.reverse
  match reversed.dropWhile (· ≠ '1') with
  | [] => none
  | _ :: front => some (front.reverse, (reversed.takeWhile (· ≠ '1')).reverse)

/-- The bytes that groups of five bits spell. Fewer than five bits may be left over, and are zero.
-/
def bytes? (values : List Nat) : Option Bytes :=
  let n := values.foldl (fun n v ↦ 32 * n + v) 0
  let bits := 5 * values.length
  let padding := bits % 8
  let program := n >>> padding
  if padding < 5 ∧ program <<< padding = n then some (Bytes.bigEndian (bits / 8) program) else none

def isProgramLength (version length : Nat) : Bool :=
  if version = 0 then length = 20 || length = 32 else 2 ≤ length && length ≤ 40

/-- A witness program behind the prefix of its network. -/
structure Witness where
  humanPart : String
  version : Nat
  program : Bytes
  deriving DecidableEq, Repr

/-- Whether a text can stand before the one: there is something, and all of it is visible and in
ASCII. -/
def isHumanPart (cs : List Char) : Bool :=
  !cs.isEmpty && cs.all fun c ↦ 33 ≤ c.toNat && c.toNat ≤ 126

def maxLength : Nat := 90

def decode? (text : String) : Option Witness := do
  let cs ← lowerCase? text.toList
  let (humanPart, data) ← split? cs
  let values ← data.mapM fun c ↦ alphabet.idxOf? c
  let (version, values) ← match values with
    | version :: values => some (version, values)
    | [] => none
  let program ← bytes? (values.take (values.length - 6))
  if cs.length ≤ maxLength ∧ isHumanPart humanPart ∧ 6 ≤ values.length ∧ version ≤ 16 ∧
      checksum humanPart (version :: values) = constant version ∧
      isProgramLength version program.length then
    some ⟨String.ofList humanPart, version, program⟩
  else none

end TxoIndex.Bech32

import TxoIndex.Hex
import TxoIndex.Hash.Ripemd160
import TxoIndex.Hash.Sha256

/-!
# Hashes as identifiers

Transactions, blocks and scripts are named by thirty-two byte hashes. A hash is stored in the order
in which it was computed and shown in the reverse order, so display and parsing each reverse exactly
once. Reading a displayed hash accepts both cases of digits and refuses every other length before it
looks at a digit.
-/

namespace TxoIndex

/-- A thirty-two byte hash, in the order in which it was computed. -/
@[ext]
structure Hash where
  bytes : Bytes
  length_bytes : bytes.length = 32
  deriving DecidableEq

/-- The name of a transaction: the double hash of its bytes without witnesses. -/
abbrev Txid := Hash

/-- The name of a block: the double hash of its header. -/
abbrev BlockHash := Hash

/-- The name of a locking script: its single hash. -/
abbrev ScriptHash := Hash

namespace Hash

def ofBytes? (bs : Bytes) : Option Hash :=
  if h : bs.length = 32 then some ⟨bs, h⟩ else none

theorem ofBytes?_eq_some_iff {bs : Bytes} {h : Hash} : ofBytes? bs = some h ↔ h.bytes = bs := by
  unfold ofBytes?
  constructor
  · intro hsome
    split at hsome
    · cases hsome
      rfl
    · cases hsome
  · rintro rfl
    exact dif_pos h.length_bytes

/-- The hash of which all bytes are zero. It stands for "no parent" and "no transaction". -/
def zero : Hash := ⟨List.replicate 32 0, by simp⟩

instance : Inhabited Hash := ⟨zero⟩

def single (message : Bytes) : Hash :=
  ⟨Sha256.digest message, by simp⟩

def double (message : Bytes) : Hash :=
  single (single message).bytes

/-! ## Order -/

instance : Ord Hash := ⟨fun x y ↦ compare x.bytes y.bytes⟩

instance : Std.OrientedCmp (compare : Hash → Hash → Ordering) where
  eq_swap {x y} := (Std.OrientedCmp.eq_swap : compare x.bytes y.bytes = _)

instance : Std.TransCmp (compare : Hash → Hash → Ordering) where
  isLE_trans {x y z} hxy hyz := by
    change (compare x.bytes z.bytes).isLE
    exact Std.TransCmp.isLE_trans (show (compare x.bytes y.bytes).isLE from hxy) hyz

instance : Std.LawfulEqCmp (compare : Hash → Hash → Ordering) where
  compare_self {x} := (Std.ReflCmp.compare_self : compare x.bytes x.bytes = _)
  eq_of_compare {x y} h :=
    Hash.ext (Std.LawfulEqCmp.eq_of_compare (show compare x.bytes y.bytes = .eq from h))

/-! ## Text -/

/-- The display of a hash: its bytes in reverse order, in lower-case digits. -/
def display (h : Hash) : String :=
  Hex.encode h.bytes.reverse

inductive ParseError where
  /-- The text does not take sixty-four bytes. -/
  | length
  | digit
  deriving DecidableEq, Repr

def ParseError.message : ParseError → String
  | length => "failed to parse hex"
  | digit => "failed to parse hex digit"

/-- Reads the display of a hash, in either case. The length counts the bytes of the text, so a text
with other characters can have the right length and is then refused for its digits. -/
def parse (text : String) : Except ParseError Hash :=
  if text.utf8ByteSize ≠ 64 then .error .length
  else
    match Hex.decode? text.toList with
    | none => .error .digit
    | some bs =>
      match ofBytes? bs.reverse with
      | none => .error .digit
      | some h => .ok h

end Hash

/-- The twenty bytes that stand for a public key: the RIPEMD-160 of its SHA-256. -/
def keyHash (key : Bytes) : Bytes :=
  Ripemd160.digest (Sha256.digest key)

/-! ## Streaming -/

/-- Computes a hash from pieces of its message, without joining them. -/
structure HashStream where
  running : Sha256.Running

namespace HashStream

def start : HashStream := ⟨.start⟩

def update (s : HashStream) (piece : Bytes) : HashStream := ⟨s.running.update piece⟩

def single (s : HashStream) : Hash := ⟨s.running.finalize, by simp⟩

def double (s : HashStream) : Hash := Hash.single s.single.bytes

end HashStream

end TxoIndex

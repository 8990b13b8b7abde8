import TxoIndex.Bytes

/-!
# Errors of the block format

Blocks are read in two ways, by decoding them whole and by walking over their bytes, and each way
has its own causes of failure. Both ways refuse bytes that are left over at the end.
-/

namespace TxoIndex

inductive DecodeError where
  /-- The bytes end too early. -/
  | endOfInput
  /-- A count or length is not in its shortest form. -/
  | nonMinimal
  /-- A witness would take more room than allowed. -/
  | oversized (requested : Nat)
  /-- The flag after the marker of a witness transaction is not one. -/
  | unsupportedSegwit (flag : UInt8)
  /-- A witness transaction has inputs, but no input has a witness. -/
  | noWitnesses
  deriving DecidableEq, Repr

/-- The most that decoding allocates for a list of witness elements. -/
def maxVectorSize : Nat := 4000000

def DecodeError.message : DecodeError → String
  | endOfInput => "IO error"
  | nonMinimal => "non-minimal varint"
  | oversized requested =>
    s!"allocation of oversized vector: requested {requested}, maximum {maxVectorSize}"
  | unsupportedSegwit flag => s!"unsupported segwit version: {flag.toNat}"
  | noWitnesses => "parse failed: witness flag set but no witnesses present"

inductive WalkError where
  | moreBytesNeeded
  | nonMinimal
  | unknownSegwitFlag (flag : UInt8)
  | segwitFlagWithoutWitnesses
  deriving DecidableEq, Repr

def WalkError.message : WalkError → String
  | moreBytesNeeded => "MoreBytesNeeded"
  | nonMinimal => "NonMinimalVarInt"
  | unknownSegwitFlag flag => s!"UnknownSegwitFlag({flag.toNat})"
  | segwitFlagWithoutWitnesses => "SegwitFlagWithoutWitnesses"

/-- Why bytes are not exactly one value of the format. -/
inductive CodecError where
  | malformed (cause : DecodeError)
  | parse (cause : WalkError)
  /-- A value was read, and this many bytes follow it. -/
  | leftover (count : Nat)
  deriving DecidableEq, Repr

def CodecError.kind : CodecError → String
  | malformed _ => "Malformed"
  | parse _ => "Parse"
  | leftover _ => "Leftover"

def CodecError.message : CodecError → String
  | malformed cause => s!"decoding failed: {cause.message}"
  | parse cause => s!"parsing failed: {cause.message}"
  | leftover count => s!"{count} bytes were not parsed"

end TxoIndex

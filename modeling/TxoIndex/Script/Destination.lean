import TxoIndex.Hash

/-!
# Destinations

A locking script that has one of the standard shapes pays to a destination: a key, a script, or a
witness program. The shapes are templates of fixed bytes around a payload, and no script fits two of
them, so the order in which they are tried does not matter.
-/

namespace TxoIndex

inductive Destination where
  /-- The script has none of the standard shapes. -/
  | none
  /-- The owner of a key, given by the hash of the key. -/
  | keyHash (hash : Bytes)
  | scriptHash (hash : Bytes)
  | witnessKeyHash (hash : Bytes)
  | witnessScriptHash (hash : Bytes)
  /-- A witness program of a later version. -/
  | witnessUnknown (version : Nat) (program : Bytes)
  deriving DecidableEq, Repr

namespace Script

/-- The bytes between `front` and `back`, if a script consists of `front`, `length` bytes and
`back`. -/
def payload? (front : Bytes) (length : Nat) (back : Bytes) (script : Bytes) : Option Bytes :=
  let rest := script.drop front.length
  if script.take front.length = front ∧ rest.length = length + back.length ∧
      rest.drop length = back then
    some (rest.take length)
  else none

/-- The version that an opcode announces. -/
def witnessVersion? (opcode : UInt8) : Option Nat :=
  if opcode = 0 then some 0
  else if 0x51 ≤ opcode ∧ opcode ≤ 0x60 then some (opcode.toNat - 0x50)
  else none

/-- The version and program of a witness script: a version opcode and the push of two to forty
bytes. -/
def witnessProgram? : Bytes → Option (Nat × Bytes)
  | opcode :: push :: program =>
    if 2 ≤ push.toNat ∧ push.toNat ≤ 40 ∧ program.length = push.toNat then
      (witnessVersion? opcode).map (·, program)
    else none
  | _ => none

/-- The key of a script that a signature by the key unlocks: a compressed or an uncompressed one. -/
def key? (script : Bytes) : Option Bytes :=
  (payload? [0x21] 33 [0xac] script).or (payload? [0x41] 65 [0xac] script)

def payToKeyHash (hash : Bytes) : Bytes := [0x76, 0xa9, 0x14] ++ hash ++ [0x88, 0xac]

def payToScriptHash (hash : Bytes) : Bytes := [0xa9, 0x14] ++ hash ++ [0x87]

def versionOpcode (version : Nat) : UInt8 :=
  if version = 0 then 0 else UInt8.ofNat (0x50 + version)

def payToWitness (version : Nat) (program : Bytes) : Bytes :=
  versionOpcode version :: UInt8.ofNat program.length :: program

end Script

namespace Destination

/-- What a witness program pays to. Version zero knows only two lengths. -/
def ofWitnessProgram (version : Nat) (program : Bytes) : Destination :=
  if version ≠ 0 then .witnessUnknown version program
  else if program.length = 20 then .witnessKeyHash program
  else if program.length = 32 then .witnessScriptHash program
  else .none

def ofScript (script : Bytes) : Destination :=
  match Script.payload? [0xa9, 0x14] 20 [0x87] script with
  | some hash => .scriptHash hash
  | Option.none =>
    match Script.witnessProgram? script with
    | some (version, program) => ofWitnessProgram version program
    | Option.none =>
      match Script.key? script with
      | some key => .keyHash (TxoIndex.keyHash key)
      | Option.none =>
        match Script.payload? [0x76, 0xa9, 0x14] 20 [0x88, 0xac] script with
        | some hash => .keyHash hash
        | Option.none => .none

/-- The name of the kind of destination in reports. -/
def kind : Destination → String
  | none => "nonstandard"
  | keyHash _ => "pubkeyhash"
  | scriptHash _ => "scripthash"
  | witnessKeyHash _ => "witness_v0_keyhash"
  | witnessScriptHash _ => "witness_v0_scripthash"
  | witnessUnknown .. => "witness_unknown"

def payload? : Destination → Option Bytes
  | none => Option.none
  | keyHash bs | scriptHash bs | witnessKeyHash bs | witnessScriptHash bs => some bs
  | witnessUnknown _ program => some program

end Destination

end TxoIndex

import TxoIndex.Address.Base58
import TxoIndex.Address.Bech32
import TxoIndex.Network
import TxoIndex.Script.Destination

/-!
# Addresses

An address is a text for a locking script that is used on some of the networks. Witness programs
have a form of their own, with a prefix for the networks. Every text that does not have this form is
read as a hash behind a byte that tells what it is the hash of.
-/

namespace TxoIndex

/-- A locking script, and the networks on which its address is used. -/
structure Address where
  networks : List Network
  script : Bytes
  deriving DecidableEq, Repr

inductive AddressError where
  /-- The text stands for a witness program, but on none of the networks. -/
  | humanPart (text : String)
  | tooLong (length : Nat)
  /-- The text is not in base fifty-eight, or its checksum is wrong. -/
  | base58
  | payloadLength (length : Nat)
  /-- The first byte does not tell what follows. -/
  | prefixByte (value : UInt8)
  /-- The address is for another network. -/
  | network (required : Network)
  deriving DecidableEq, Repr

def AddressError.message : AddressError → String
  | humanPart text => s!"no network has the address prefix {text}"
  | tooLong length => s!"legacy address is too long: {length} bytes"
  | base58 => "address is not valid base58"
  | payloadLength length => s!"address holds {length} bytes, expected 21"
  | prefixByte value => s!"unknown address prefix {value.toNat}"
  | network required => s!"address is not for the network {required.name}"

namespace Address

def testNetworks : List Network := [.testnet, .testnet4, .signet, .regtest]

/-- The networks of witness addresses with this prefix. -/
def witnessNetworks? (humanPart : String) : Option (List Network) :=
  if humanPart = "bc" then some [.bitcoin]
  else if humanPart = "tb" then some [.testnet, .testnet4, .signet]
  else if humanPart = "bcrt" then some [.regtest]
  else none

def ofWitness (witness : Bech32.Witness) : Except AddressError Address :=
  match witnessNetworks? witness.humanPart with
  | some networks => .ok ⟨networks, Script.payToWitness witness.version witness.program⟩
  | none => .error (.humanPart witness.humanPart)

/-- The address that a hash behind its first byte stands for. -/
def ofPayload : Bytes → Except AddressError Address
  | [] => .error (.payloadLength 0)
  | first :: hash =>
    if hash.length ≠ 20 then .error (.payloadLength (hash.length + 1))
    else if first = 0 then .ok ⟨[.bitcoin], Script.payToKeyHash hash⟩
    else if first = 5 then .ok ⟨[.bitcoin], Script.payToScriptHash hash⟩
    else if first = 111 then .ok ⟨testNetworks, Script.payToKeyHash hash⟩
    else if first = 196 then .ok ⟨testNetworks, Script.payToScriptHash hash⟩
    else .error (.prefixByte first)

/-- The most bytes of an address that is not a witness program's. -/
def maxLegacyLength : Nat := 50

def parse (text : String) : Except AddressError Address :=
  match Bech32.decode? text with
  | some witness => ofWitness witness
  | none =>
    if maxLegacyLength < text.utf8ByteSize then .error (.tooLong text.utf8ByteSize)
    else
      match Base58.decodeChecked? text.toList with
      | none => .error .base58
      | some payload => ofPayload payload

/-- The locking script of an address, if it is used on a network. -/
def scriptOn (address : Address) (network : Network) : Except AddressError Bytes :=
  if network ∈ address.networks then .ok address.script else .error (.network network)

end Address

end TxoIndex

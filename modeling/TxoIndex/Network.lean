import TxoIndex.BlockFile
import TxoIndex.Json.Basic

/-!
# Networks

The five networks that block files can come from, with what depends on the network: the magic of the
frames, the name of the first block, the default place of the index, and the text forms of
addresses.
-/

namespace TxoIndex

inductive Network where
  | bitcoin
  | testnet
  | testnet4
  | signet
  | regtest
  deriving DecidableEq, Repr, Inhabited

namespace Network

def all : List Network := [bitcoin, testnet, testnet4, signet, regtest]

/-- The name in configuration files and on the command line. -/
def name : Network → String
  | bitcoin => "bitcoin"
  | testnet => "testnet"
  | testnet4 => "testnet4"
  | signet => "signet"
  | regtest => "regtest"

/-- The name with a capital letter. -/
def title : Network → String
  | bitcoin => "Bitcoin"
  | testnet => "Testnet"
  | testnet4 => "Testnet4"
  | signet => "Signet"
  | regtest => "Regtest"

def ofName? (text : String) : Option Network :=
  all.find? fun n ↦ n.name = text

/-- The network that a JSON value stands for: its name, or an object with its name as only key. -/
def ofJson? : Json → Option Network
  | .string text => ofName? text
  | .object [(text, .null)] => ofName? text
  | _ => none

def magic : Network → Magic
  | bitcoin => [0xf9, 0xbe, 0xb4, 0xd9]
  | testnet => [0x0b, 0x11, 0x09, 0x07]
  | testnet4 => [0x1c, 0x16, 0x3f, 0x28]
  | signet => [0x0a, 0x03, 0xcf, 0x40]
  | regtest => [0xfa, 0xbf, 0xb5, 0xda]

/-- The display of the name of the first block. -/
def genesisHash : Network → String
  | bitcoin => "000000000019d6689c085ae165831e934ff763ae46a2a6c172b3f1b60a8ce26f"
  | testnet => "000000000933ea01ad0ee984209779baaec3ced90fa3f408719526f8d77f4943"
  | testnet4 => "00000000da84f2bafbbc53dee25a72ae507ff4914b867c565be350b0da8bf043"
  | signet => "00000008819873e925422c1ff0f99f7cc9bbb232af63a077a480a3633bee1ef6"
  | regtest => "0f9188f13cb7b2c71f2a335e3a4fc328bf5beb436012afca590b1a11466e2206"

def indexPath (n : Network) : String := "db/" ++ n.name

end Network

end TxoIndex

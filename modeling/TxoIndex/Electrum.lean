import TxoIndex.Electrum.Method
import TxoIndex.Json.Printer
import TxoIndex.Network
import TxoIndex.Query

/-!
# Electrum calls

The calls that an index can serve without a node. A balance and a list of unspent outputs are served
for a script hash; a few calls are about the server itself; and all other methods of the protocol
are known but refused.
-/

namespace TxoIndex.Electrum

inductive CallError where
  | unknownMethod (name : String)
  /-- The method needs more than the index. -/
  | unsupported (method : Method)
  | missingScriptHash (method : Method)
  /-- The script hash is not given as a string. -/
  | notAString (method : Method) (given : Json)
  | query (cause : QueryError)

namespace CallError

def message : CallError → String
  | unknownMethod name => s!"unknown method {Text.quoted name}"
  | unsupported method => s!"{method.name} is not served by the index"
  | missingScriptHash method => s!"invalid params for {method.name}: missing script hash"
  | notAString method given =>
    s!"invalid params for {method.name}: script hash must be a string, not {given.compact}"
  | query cause => s!"query failed: {cause.message}"

/-- Whether the program gives up on the error instead of returning it. -/
def isPanic : CallError → Bool
  | query cause => cause.isPanic
  | _ => false

end CallError

def parseMethod (name : String) : Except CallError Method :=
  match Method.ofName? name with
  | some method => .ok method
  | none => .error (.unknownMethod name)

def protocolVersion : String := "1.4"

def serverVersion : String := "txodb 0.1.0"

/-- The script hash that is the first parameter of a call. -/
def scriptHashParam (method : Method) : List Json → Except CallError ScriptHash
  | [] => .error (.missingScriptHash method)
  | .string text :: _ =>
    match Query.parseScriptHash text with
    | .ok scriptHash => .ok scriptHash
    | .error e => .error (.query e)
  | other :: _ => .error (.notAString method other)

def balanceJson (confirmed : Nat) : Json :=
  .ofFields [("confirmed", .ofNat confirmed), ("unconfirmed", .ofNat 0)]

/-- What an unspent output is answered as. An unknown height is answered as zero. -/
def unspentJson (txo : Txo) : Json :=
  .ofFields
    [("tx_hash", .string txo.outpoint.txid.display), ("tx_pos", .ofNat txo.outpoint.vout.toNat),
      ("height", .ofNat (txo.height.getD 0).toNat), ("value", .ofNat txo.value.toNat)]

def featuresJson (network : Network) : Json :=
  .ofFields
    [("genesis_hash", .string network.genesisHash), ("server_version", .string serverVersion),
      ("hash_function", .string "sha256"), ("protocol_max", .string protocolVersion),
      ("protocol_min", .string protocolVersion), ("hosts", .object [])]

/-- Calls that ask the index about a script hash. -/
def ask (method : Method) (params : List Json) (query : ScriptHash → Except QueryError Json) :
    Except CallError Json := do
  let scriptHash ← scriptHashParam method params
  match query scriptHash with
  | .ok answer => return answer
  | .error e => throw (.query e)

def call (t : Tables) (network : Network) (method : Method) (params : List Json) :
    Except CallError Json :=
  match method with
  | .scriptHashGetBalance =>
    ask method params fun scriptHash ↦ balanceJson <$> Query.balance t scriptHash
  | .scriptHashListUnspent | .scriptHashUtxos =>
    ask method params fun scriptHash ↦ do
      return .array ((← Query.unspent t scriptHash).map unspentJson)
  | .serverPing => .ok .null
  | .serverVersion => .ok (.array [.string serverVersion, .string protocolVersion])
  | .serverFeatures => .ok (featuresJson network)
  | _ => .error (.unsupported method)

end TxoIndex.Electrum

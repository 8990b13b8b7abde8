import TxoIndex.Address
import TxoIndex.Config.File
import TxoIndex.Electrum
import TxoIndex.Preload.Error
import TxoIndex.Query

/-!
# Failures of commands

Everything that can keep a command from its end. A few of these make the program give up at once.
-/

namespace TxoIndex.Cli

inductive Failure where
  | config (cause : ConfigError)
  | store (cause : StoreError)
  | preload (cause : PreloadError)
  | query (cause : QueryError)
  | address (cause : AddressError)
  | call (cause : Electrum.CallError)

namespace Failure

def message : Failure → String
  | config cause => cause.message
  | store cause => cause.message
  | preload cause => cause.message
  | query cause => cause.message
  | address cause => cause.message
  | call cause => cause.message

/-- Whether the program gives up on the failure instead of returning it. -/
def isPanic : Failure → Bool
  | store cause => cause.isPanic
  | query cause => cause.isPanic
  | call cause => cause.isPanic
  | config _ | preload _ | address _ => false

end Failure

end TxoIndex.Cli

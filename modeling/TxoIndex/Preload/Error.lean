import TxoIndex.Store.Error
import TxoIndex.Store.Stage

/-!
# Errors of a preload

A preload fails as a whole when its block files cannot be listed, when the store fails outside of a
block, when spends are asked for too early, and when workers had to give up.
-/

namespace TxoIndex

inductive Pass where
  | headers
  | outputs
  | spends
  deriving DecidableEq, Repr

def Pass.name : Pass → String
  | headers => "headers"
  | outputs => "outputs"
  | spends => "spends"

inductive PreloadError where
  | store (cause : StoreError)
  /-- The block files cannot be listed. -/
  | listing (cause : OsError)
  /-- Spends are asked for while outputs are missing. -/
  | outputsNotIndexed (stage : Stage)
  /-- So many workers gave up in a pass. -/
  | aborted (pass : Pass) (workers : Nat)
  deriving DecidableEq

def PreloadError.message : PreloadError → String
  | store cause => s!"store failed: {cause.message}"
  | listing cause => s!"listing block files failed: {cause.message}"
  | outputsNotIndexed stage =>
    s!"spends require all outputs to be indexed first (stage: {stage.name})"
  | aborted pass workers => s!"{pass.name} pass aborted by {workers} worker(s)"

end TxoIndex

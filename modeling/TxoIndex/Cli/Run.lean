import TxoIndex.Cli.Arguments
import TxoIndex.Cli.Failure
import TxoIndex.Json.Parser
import TxoIndex.Preload.Files
import TxoIndex.Report
import TxoIndex.Store.Open

/-!
# Commands

What the commands do. Every command reads its configuration first, which may write one. It then
opens the index, does its work and closes the index again. What it prints before it fails is
printed.
-/

namespace TxoIndex.Cli

/-- What a command came to: the lines that it printed, and why it failed. -/
structure Outcome where
  lines : List String
  failure : Option Failure

namespace Outcome

def success (lines : List String) : Outcome := ⟨lines, none⟩

def failed (failure : Failure) : Outcome := ⟨[], some failure⟩

/-- The outcome of a command that printed lines before. -/
def after (lines : List String) (o : Outcome) : Outcome := { o with lines := lines ++ o.lines }

/-- What the program's exit code tells. -/
def exitCode (o : Outcome) : Nat :=
  match o.failure with
  | none => 0
  | some failure => if failure.isPanic then 101 else 1

end Outcome

/-- Opens the index of a configuration, and works on it. -/
def withStore (c : Config) (bulk : Bool) (work : OpenStore → FileTask Outcome) :
    FileTask Outcome := do
  match ← OpenStore.openAt c.path (c.storeOptions bulk) with
  | .error e => return .failed (.store e)
  | .ok opened => work opened

/-! ## Preloading -/

/-- How many workers can work at once: a pass goes through one file after another. -/
def availableWorkers : Nat := 1

def preload (c : Config) (directory : String) (workers : Option Nat) : FileTask Outcome :=
  withStore c true fun opened ↦ do
    match ← Preload.findFiles directory with
    | .error e => return .failed (.preload e)
    | .ok paths =>
      let preload : Preload :=
        { files := ← Preload.readFiles paths
          magic := c.network.magic
          workers := Preload.boundedWorkers availableWorkers (workers.getD c.preloadWorkers) }
      let (result, progress) := preload.run (fun _ ↦ opened.store.counting) ⟨opened.store, .zero, 0⟩
      match ← { opened with store := progress.store }.close with
      | .error e => return .failed (.store e)
      | .ok () =>
        match result with
        | .error e => return .failed (.preload e)
        | .ok summary => return .success (Report.summaryLines summary)

/-! ## Queries -/

/-- The lines about an address, and the script hash that is asked for. -/
def target (c : Config) : Target → Except Failure (List String × ScriptHash)
  | .scriptHash text =>
    match Query.parseScriptHash text with
    | .ok scriptHash => .ok ([], scriptHash)
    | .error e => .error (.query e)
  | .address text =>
    match Address.parse text >>= fun address ↦ address.scriptOn c.network with
    | .error e => .error (.address e)
    | .ok script =>
      .ok ([s!"{text} ({(Destination.ofScript script).kind})"], Hash.single script)

def balanceLines (t : Tables) (scriptHash : ScriptHash) : Outcome :=
  match Query.balance t scriptHash with
  | .error e => .failed (.query e)
  | .ok sats => .success [s!"balance: {Report.amount sats} BTC"]

def answer (t : Tables) (scriptHash : ScriptHash) : Outcome :=
  match Query.history t scriptHash with
  | .error e => .failed (.query e)
  | .ok history =>
    let heading := s!"script hash {scriptHash.display}: {history.length} TXOs"
    if history.isEmpty then .success [heading]
    else (balanceLines t scriptHash).after (heading :: Report.historyTable history)

def query (c : Config) (asked : Target) : FileTask Outcome :=
  withStore c false fun opened ↦ do
    match target c asked with
    | .error failure => return .failed failure
    | .ok (lines, scriptHash) => return (answer opened.store.tables scriptHash).after lines

/-! ## Other commands -/

def statusLines (store : Store) : Except StoreError (List String) := do
  let chain := Chain.ofHeaders (← store.tables.listHeaders)
  return Report.statusTable (← store.tables.stage) store.stats chain

def status (c : Config) : FileTask Outcome :=
  withStore c false fun opened ↦
    match statusLines opened.store with
    | .error e => return .failed (.store e)
    | .ok lines => return .success lines

/-- A parameter of a call: a JSON value, or else a string. -/
def param (text : String) : Json := (Json.parse? text).getD (.string text)

def call (c : Config) (name : String) (params : List String) : FileTask Outcome := do
  match Electrum.parseMethod name with
  | .error e => return .failed (.call e)
  | .ok method =>
    withStore c false fun opened ↦
      match Electrum.call opened.store.tables c.network method (params.map param) with
      | .error e => return .failed (.call e)
      | .ok result => return .success [result.pretty]

def runCommand (c : Config) : Command → FileTask Outcome
  | .preload directory workers => preload c directory workers
  | .query asked => query c asked
  | .status => status c
  | .call method params => call c method params

/-- A configuration with what the command line sets. -/
def Invocation.override (i : Invocation) (c : Config) : Config :=
  { c with network := i.network.getD c.network, indexPath := i.indexPath.or c.indexPath }

def Invocation.run (i : Invocation) : FileTask Outcome := do
  match ← Config.load i.configPath with
  | .error e => return .failed (.config e)
  | .ok c => runCommand (i.override c) i.command

def versionText : String := Electrum.serverVersion

def usageLines : List String :=
  ["usage: txodb [-n NETWORK] [-d INDEX] [-c CONFIG] COMMAND", "", "commands:",
    "  preload BLOCKS_DIR [-j WORKERS]", "  query SCRIPT_HASH", "  query -a ADDRESS", "  status",
    "  call METHOD [PARAMS]"]

def unlines (lines : List String) : String := "".intercalate (lines.map (· ++ "\n"))

/-- What a run of the program came to: its exit code, what it printed, and why it failed. -/
structure Exit where
  code : Nat
  output : String
  failure : Option Failure

def run (args : List String) : FileTask Exit :=
  match parse args with
  | .error .usage => return ⟨2, "", none⟩
  | .error .version => return ⟨0, unlines [versionText], none⟩
  | .error .help => return ⟨0, unlines usageLines, none⟩
  | .ok i => do
    let o ← i.run
    return ⟨o.exitCode, unlines o.lines, o.failure⟩

end TxoIndex.Cli

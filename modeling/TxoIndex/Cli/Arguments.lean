import TxoIndex.Decimal.Digits
import TxoIndex.Network

/-!
# Arguments of the command line

The arguments name a command, what the command is about, and options. Some options may stand before
or behind the name of the command, and then the one behind it counts; no option may be given twice
at one of these places. Arguments are read from left to right, and the first one that is wrong, or
asks for the version or for help, ends the reading.
-/

namespace TxoIndex.Cli

/-- Why there is no command to run. -/
inductive Stop where
  /-- The arguments are wrong. -/
  | usage
  /-- The version is asked for. -/
  | version
  | help
  deriving DecidableEq, Repr

inductive Flag where
  | network
  | database
  | config
  | workers
  | address
  deriving DecidableEq, Repr

namespace Flag

def long : Flag → String
  | network => "network"
  | database => "db"
  | config => "config"
  | workers => "workers"
  | address => "address"

def short : Flag → Char
  | network => 'n'
  | database => 'd'
  | config => 'c'
  | workers => 'j'
  | address => 'a'

def everywhere : List Flag := [network, database, config]

end Flag

/-- Reads a number: digits, with a plus sign before them or not, of sixty-four bits. -/
def number? (text : String) : Option Nat := do
  let digits := match text.toList with
    | '+' :: rest => rest
    | cs => cs
  let n ← Decimal.natural? digits
  if n < UInt64.size then some n else none

def Flag.accepts (value : String) : Flag → Bool
  | network => (Network.ofName? value).isSome
  | database | config => !value.isEmpty
  | workers => (number? value).isSome
  | address => true

/-- What is read on one side of the name of the command. -/
structure Level where
  flags : List Flag
  /-- How many arguments other than options may be given, unless any number may. -/
  capacity : Option Nat
  /-- Whether these may be empty. -/
  takesEmpty : Bool
  hasVersion : Bool

structure Reading where
  values : List (Flag × String)
  operands : List String

namespace Reading

def give (r : Reading) (flag : Flag) (value : String) : Except Stop Reading :=
  if (r.values.lookup flag).isSome ∨ ¬ flag.accepts value then .error .usage
  else .ok { r with values := r.values ++ [(flag, value)] }

/-- Takes an argument that is not an option. -/
def add (r : Reading) (level : Level) (operand : String) : Except Stop Reading :=
  if level.capacity.any (· ≤ r.operands.length) then .error .usage
  else if operand.isEmpty ∧ ¬ level.takesEmpty then .error .usage
  else .ok { r with operands := r.operands ++ [operand] }

end Reading

inductive Word where
  /-- Two dashes: no option follows. -/
  | separator
  /-- An option, with its value if that is in the same argument. -/
  | flag (flag : Flag) (value : Option String)
  | stop (stop : Stop)
  | operand (text : String)

/-- What an argument of two dashes and a name is. -/
def longWord (level : Level) (cs : List Char) : Word :=
  let name := String.ofList (cs.takeWhile (· ≠ '='))
  let value := match cs.dropWhile (· ≠ '=') with
    | [] => none
    | _ :: rest => some (String.ofList rest)
  match level.flags.find? fun f ↦ f.long = name with
  | some flag => .flag flag value
  | none =>
    if value.isSome then .stop .usage
    else if name = "help" then .stop .help
    else if name = "version" ∧ level.hasVersion then .stop .version
    else .stop .usage

/-- What an argument of one dash, a letter and more is. -/
def shortWord (level : Level) (c : Char) (rest : List Char) : Word :=
  match level.flags.find? fun f ↦ f.short = c with
  | some flag =>
    match rest with
    | [] => .flag flag none
    | '=' :: value => .flag flag (some (String.ofList value))
    | value => .flag flag (some (String.ofList value))
  | none =>
    if c = 'h' then .stop .help
    else if c = 'V' ∧ level.hasVersion then .stop .version
    else .stop .usage

def word (level : Level) (text : String) : Word :=
  match text.toList with
  | ['-', '-'] => .separator
  | '-' :: '-' :: cs => longWord level cs
  | '-' :: c :: rest => shortWord level c rest
  | _ => .operand text

/-- Whether an argument can be the value of the option before it. -/
def isValue (text : String) : Bool :=
  match text.toList with
  | '-' :: _ :: _ => false
  | _ => true

/-- Reads the arguments behind the name of a command. -/
def readLevel (level : Level) : List String → Reading → Except Stop Reading
  | [], r => .ok r
  | text :: rest, r =>
    match word level text with
    | .stop s => .error s
    | .separator => rest.foldlM (fun r operand ↦ r.add level operand) r
    | .operand operand =>
      match r.add level operand with
      | .error s => .error s
      | .ok r => readLevel level rest r
    | .flag flag (some value) =>
      match r.give flag value with
      | .error s => .error s
      | .ok r => readLevel level rest r
    | .flag flag none =>
      match rest with
      | [] => .error .usage
      | value :: rest =>
        if isValue value then
          match r.give flag value with
          | .error s => .error s
          | .ok r => readLevel level rest r
        else .error .usage

/-- The place before the name of the command. -/
def topLevel : Level := ⟨Flag.everywhere, some 0, true, true⟩

/-- Reads the arguments up to the name of the command, and returns it with those behind it. -/
def readTop : List String → Reading → Except Stop (Reading × String × List String)
  | [], _ => .error .usage
  | text :: rest, r =>
    match word topLevel text with
    | .stop s => .error s
    | .separator => .error .usage
    | .operand name => .ok (r, name, rest)
    | .flag flag (some value) =>
      match r.give flag value with
      | .error s => .error s
      | .ok r => readTop rest r
    | .flag flag none =>
      match rest with
      | [] => .error .usage
      | value :: rest =>
        if isValue value then
          match r.give flag value with
          | .error s => .error s
          | .ok r => readTop rest r
        else .error .usage

/-! ## Commands -/

inductive Target where
  | scriptHash (text : String)
  | address (text : String)
  deriving DecidableEq, Repr

inductive Command where
  | preload (directory : String) (workers : Option Nat)
  | query (target : Target)
  | status
  | call (method : String) (params : List String)
  deriving DecidableEq, Repr

/-- A command with the options that may be given to every command. -/
structure Invocation where
  network : Option Network
  indexPath : Option String
  configPath : String
  command : Command
  deriving DecidableEq, Repr

def defaultConfigPath : String := "txodb.json"

/-- What is read behind the name of a command, and how a command is made of it. -/
def grammar? (name : String) : Option (Level × (Reading → Option Command)) :=
  if name = "preload" then
    some (⟨Flag.everywhere ++ [.workers], some 1, false, false⟩, fun r ↦
      match r.operands with
      | [directory] => some (.preload directory ((r.values.lookup .workers).bind number?))
      | _ => none)
  else if name = "query" then
    some (⟨Flag.everywhere ++ [.address], some 1, true, false⟩, fun r ↦
      match r.operands, r.values.lookup .address with
      | [scriptHash], none => some (.query (.scriptHash scriptHash))
      | [], some address => some (.query (.address address))
      | _, _ => none)
  else if name = "status" then
    some (⟨Flag.everywhere, some 0, true, false⟩, fun _ ↦ some .status)
  else if name = "call" then
    some (⟨Flag.everywhere, none, true, false⟩, fun r ↦
      match r.operands with
      | method :: params => some (.call method params)
      | [] => none)
  else none

def commandNames : List String := ["preload", "query", "status", "call"]

def parse (args : List String) : Except Stop Invocation := do
  let (before, name, rest) ← readTop args ⟨[], []⟩
  match grammar? name with
  | none =>
    if name = "help" ∧ rest.length ≤ 1 ∧ rest.all commandNames.contains then throw .help
    else throw .usage
  | some (level, command?) =>
    let behind ← readLevel level rest ⟨[], []⟩
    match command? behind with
    | none => throw .usage
    | some command =>
      let value (flag : Flag) := (behind.values.lookup flag).or (before.values.lookup flag)
      return {
        network := (value .network).bind Network.ofName?
        indexPath := value .database
        configPath := (value .config).getD defaultConfigPath
        command }

end TxoIndex.Cli

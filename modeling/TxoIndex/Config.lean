import TxoIndex.Json.Printer
import TxoIndex.Network
import TxoIndex.Store.Write

/-!
# Configurations

What a user can set: where the index lies and which network it is for, how its map grows, and how it
is preloaded. Every setting has a default and a key under which a configuration file gives it.
-/

namespace TxoIndex

structure Config where
  /-- Where the index lies; otherwise a directory for the network. -/
  indexPath : Option String
  network : Network
  initialMapSize : Nat
  mapGrowthStep : Nat
  maxMapSize : Option Nat
  preloadWorkers : Nat
  /-- Whether commits of a preload may be lost in a crash. -/
  preloadNoSync : Bool
  deriving DecidableEq, Repr

namespace Config

def default : Config where
  indexPath := none
  network := .bitcoin
  initialMapSize := defaultMapSize
  mapGrowthStep := defaultMapSize
  maxMapSize := none
  preloadWorkers := 4
  preloadNoSync := true

instance : Inhabited Config := ⟨default⟩

def path (c : Config) : String := c.indexPath.getD c.network.indexPath

/-- How the store is opened, for a preload (`bulk`) or for queries. -/
def storeOptions (c : Config) (bulk : Bool) : StoreOptions where
  minMapSize := c.initialMapSize
  growthStep := c.mapGrowthStep
  maxMapSize := c.maxMapSize
  noSync := bulk && c.preloadNoSync

inductive Setting where
  | indexPath
  | network
  | initialMapSize
  | mapGrowthStep
  | maxMapSize
  | preloadWorkers
  | preloadNoSync
  deriving DecidableEq, Repr

namespace Setting

/-- The settings in the order of a configuration file. -/
def all : List Setting :=
  [indexPath, network, initialMapSize, mapGrowthStep, maxMapSize, preloadWorkers, preloadNoSync]

def key : Setting → String
  | indexPath => "db_path"
  | network => "network"
  | initialMapSize => "initial_map_size"
  | mapGrowthStep => "map_growth_step"
  | maxMapSize => "max_map_size"
  | preloadWorkers => "preload_workers"
  | preloadNoSync => "preload_no_sync"

def ofKey? (key : String) : Option Setting := all.find? fun s ↦ s.key = key

def toJson (c : Config) : Setting → Json
  | indexPath => c.indexPath.elim .null .string
  | network => .string c.network.name
  | initialMapSize => .ofNat c.initialMapSize
  | mapGrowthStep => .ofNat c.mapGrowthStep
  | maxMapSize => c.maxMapSize.elim .null .ofNat
  | preloadWorkers => .ofNat c.preloadWorkers
  | preloadNoSync => .bool c.preloadNoSync

end Setting

def toJson (c : Config) : Json := .object (Setting.all.map fun s ↦ (s.key, s.toJson c))

def text (c : Config) : String := c.toJson.pretty

end Config

end TxoIndex

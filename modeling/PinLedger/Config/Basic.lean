import PinLedger.Layer.Catalog
import PinLedger.Mismatch
import PinLedger.Service.Schedule
import PinLedger.Store.Choice

/-!
# PinLedger.Config.Basic

The configuration of a server.

* `Config` — the sections, with their defaults
* `ConfigError` — why there is no configuration
* `Config.validate` — the values that are not allowed
* `Config.storeChoice`, `Config.createStore` — the store that is asked for
-/

namespace PinLedger

/-- How a database is reached. -/
structure PostgresSettings where
  databaseUrl : String := ""
  maxConnections : Nat := 4
  minConnections : Nat := 1
  connectTimeout : Nat := 30
  idleTimeout : Nat := 600
  maxRetries : Nat := 3
  retryDelayMs : Nat := 100
deriving DecidableEq, Repr

/-- How the feed is reached. -/
structure FeedSettings where
  baseUrl : String := ""
  searchPath : String := "/preferences/search/findViews"
  /-- The parameter of a request that carries the watermark. -/
  sinceParam : String := "lastUpdate"
  /-- None waits for ever. -/
  timeoutSecs : Option Nat := none
deriving DecidableEq, Repr

/-- How runs are made. -/
structure PinningSettings where
  /-- The full width of the window. -/
  minutes : Nat := 1
  batchSize : Nat := 500
  lockKey : Int := 0x50494e53
  mappingFile : String := "layers.csv"
deriving DecidableEq, Repr

/-- Where a server listens. -/
structure ServerSettings where
  host : String := "0.0.0.0"
  portNumber : Nat := 8080
deriving DecidableEq, Repr

structure Config where
  /-- The name of a store. -/
  repository : String := "local"
  postgres : PostgresSettings := {}
  feed : FeedSettings := {}
  pinning : PinningSettings := {}
  schedule : Schedule := {}
  layers : List CatalogEntry := []
  server : ServerSettings := {}
deriving DecidableEq, Repr

/-- Why there is no configuration. -/
inductive ConfigError where
  /-- The file cannot be read. -/
  | read (path : String)
  /-- The file is malformed, or it is not what was asked for. -/
  | parse (path : String) (reason : Option Mismatch)
  | notFound
  /-- A value is not allowed. -/
  | invalid (key text : String)
deriving DecidableEq, Repr

def ConfigError.message : ConfigError → String
  | .read path => s!"Failed to read config file {path}"
  | .parse path reason =>
    s!"Failed to parse config file {path}: " ++ reason.elim "malformed document" Mismatch.message
  | .notFound => "No pinning.toml found in standard locations"
  | .invalid key text => s!"Invalid value for {key}: {text}"

namespace Config

/-- A window and a batch may not be empty. -/
def validate (c : Config) : Except ConfigError Unit :=
  if c.pinning.minutes = 0 then .error (.invalid "pinning.minutes" "must be greater than zero")
  else if c.pinning.batchSize = 0 then
    .error (.invalid "pinning.batch_size" "must be greater than zero")
  else .ok ()

def window (c : Config) : Window := .ofMinutes c.pinning.minutes

def catalog (c : Config) : Catalog := .ofEntries c.layers

def storeChoice (c : Config) : Except String StoreChoice := StoreChoice.read c.repository

/-- The store that is asked for, or why there is none of this name. -/
def storeChoice? (c : Config) : Except StoreError StoreChoice :=
  c.storeChoice.mapError fun text => .plain .configuration s!"Invalid repository type: {text}"

def createStore (c : Config) : Except StoreError Store := do (← c.storeChoice?).create

/-- Fails if a database is asked for, which there is none of here. -/
def checkDatabase (c : Config) : Except StoreError Unit := do
  match ← c.storeChoice? with
  | .postgres => .error .noDatabase
  | .memory => .ok ()

end Config

end PinLedger

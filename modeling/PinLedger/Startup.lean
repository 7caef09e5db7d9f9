import PinLedger.Config.Override
import PinLedger.Config.Reader
import PinLedger.Feed.Client
import PinLedger.Net.Address
import PinLedger.Service.Schedule

/-!
# PinLedger.Startup

The start of a server, up to the moment at which it listens.

* `Notice` — what a server says of its start
* `Startup` — steps that log and may fail
* `Config.load` — the configuration of a server
* `startUp` — the whole start
-/

namespace PinLedger

/-- What a server says of its start. -/
inductive Notice where
  | starting
  | storeReady (name : String)
  | feedAt (url : String)
  | resolved (layers tables : Nat)
  | registryReady (layers minutes : Nat)
  | scheduling (l : Loop)
  | listening (a : SocketAddress)
deriving DecidableEq, Repr

def Notice.message : Notice → String
  | .starting => "Starting pinning engine"
  | .storeReady name => s!"Repository initialized ({name})"
  | .feedAt url => s!"View feed at {url}"
  | .resolved layers tables => s!"Layer registry resolved {layers} layer ids over {tables} tables"
  | .registryReady layers minutes =>
    s!"Layer registry: {layers} layer ids, pinning window {minutes} minute(s)"
  | .scheduling l => s!"Scheduling {l.kind.name} every {l.interval}s"
  | .listening a => s!"Server listening on http://{a.render}"

/-- A line of the log. -/
inductive LogLine where
  | notice (n : Notice)
  | warning (w : Warning)
deriving DecidableEq, Repr

/-- Why a server does not start. -/
inductive StartError where
  | config (e : ConfigError)
  | store (e : StoreError)
  | feed (e : FeedError)
  | catalog (e : CatalogError)
  /-- The host and its number are no address. -/
  | address
deriving DecidableEq, Repr

def StartError.message : StartError → String
  | .config e => e.message
  | .store e => e.message
  | .feed e => e.message
  | .catalog e => e.message
  | .address => "invalid socket address syntax"

/-- What a server finds when it starts. -/
structure Surroundings where
  /-- The variables of the environment. -/
  env : String → Option String
  /-- The texts of the files, by path. -/
  files : Dict String String

abbrev Startup := ExceptT StartError (StateM (List LogLine))

def note (n : Notice) : Startup Unit := modify (· ++ [.notice n])

def warn (ws : List Warning) : Startup Unit := modify (· ++ ws.map .warning)

def attempt {ε α : Type} (wrap : ε → StartError) (x : Except ε α) : Startup α :=
  ofExcept (x.mapError wrap)

/-- The configuration of the file that the environment names or of the one in the usual place, or
the default one. -/
def Config.ofSurroundings (s : Surroundings) : Startup Config :=
  match s.env "PINNING_CONFIG" with
  | some path => attempt .config (Config.ofFile s.files path)
  | none =>
    match Config.ofDefaultFile s.files with
    | .error .notFound => do
      warn [.noConfig]
      pure {}
    | c => attempt .config c

/-- The configuration of a server, with the values of the environment. -/
def Config.load (s : Surroundings) : Startup Config := do
  let c ← ofSurroundings s
  let (r, c) := c.override s.env
  attempt .config r
  pure c

def Config.runSettings (c : Config) : RunSettings where
  window := c.window
  batchSize := c.pinning.batchSize
  lockKey := c.pinning.lockKey
  mapping := .file c.pinning.mappingFile

/-- The service of a server at its site. There is no network, so that the feed does not answer. -/
def Config.createEngine (c : Config) (s : Surroundings) (store : Store) : Startup Engine := do
  let feed := ({} : MemoryFeed).fail "no request can be made"
  let site : Site := { store, feed, catalog := c.catalog, files := s.files }
  let (engine, ws) := Engine.create c.runSettings site
  warn ws
  let engine ← attempt .catalog engine
  let registry := engine.service.registry
  note (.resolved registry.size registry.tables.length)
  pure engine

def Config.address? (c : Config) : Option SocketAddress :=
  SocketAddress.ofText? s!"{c.server.host}:{c.server.portNumber}"

/-- A server that is ready to listen. -/
structure Server where
  engine : Engine
  schedule : Schedule
  address : SocketAddress

def startUp (s : Surroundings) : Startup Server := do
  note .starting
  let c ← Config.load s
  let store ← attempt .store c.createStore
  note (.storeReady c.repository)
  let feed ← attempt .feed (FeedClient.ofSettings c.feed)
  note (.feedAt feed.url)
  let engine ← c.createEngine s store
  note (.registryReady engine.service.registry.size c.pinning.minutes)
  c.schedule.loops.forM fun l => note (.scheduling l)
  match c.address? with
  | none => throw .address
  | some address =>
    note (.listening address)
    pure { engine, schedule := c.schedule, address }

end PinLedger

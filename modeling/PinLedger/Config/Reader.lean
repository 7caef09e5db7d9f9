import PinLedger.Config.Basic
import PinLedger.Dict
import PinLedger.Toml.Document
import PinLedger.Toml.Shape

/-!
# PinLedger.Config.Reader

Configuration files.

* `Config.shape` — the sections of a file and their keys
* `Config.ofText` — the configuration of a text
* `Config.ofFile`, `Config.ofDefaultFile` — the configuration of a file, given the files there are
-/

namespace PinLedger

open Toml

def readNat16 : Reader Nat := readNatural "u16" 16

def readNat32 : Reader Nat := readNatural "u32" 32

def readNat64 : Reader Nat := readNatural "u64" 64

def readSize : Reader Nat := readNatural "usize" 64

def readKey64 : Reader Int := readWithin "i64" (-signLimit 64) (signLimit 64 - 1)

def repositoryShape : Shape String where
  name := "RepositorySettings"
  fields := [fieldOf "type" false readText fun x _ => x]
  blank := ({} : Config).repository

def PostgresSettings.shape : Shape PostgresSettings where
  name := "PostgresSettings"
  fields := [
    fieldOf "database_url" false readText fun x s => { s with databaseUrl := x },
    fieldOf "max_connections" false readNat32 fun x s => { s with maxConnections := x },
    fieldOf "min_connections" false readNat32 fun x s => { s with minConnections := x },
    fieldOf "connect_timeout" false readNat64 fun x s => { s with connectTimeout := x },
    fieldOf "idle_timeout" false readNat64 fun x s => { s with idleTimeout := x },
    fieldOf "max_retries" false readNat32 fun x s => { s with maxRetries := x },
    fieldOf "retry_delay_ms" false readNat64 fun x s => { s with retryDelayMs := x }]
  blank := {}

def FeedSettings.shape : Shape FeedSettings where
  name := "FeedSettings"
  fields := [
    fieldOf "base_url" false readText fun x s => { s with baseUrl := x },
    fieldOf "search_path" false readText fun x s => { s with searchPath := x },
    fieldOf "since_param" false readText fun x s => { s with sinceParam := x },
    fieldOf "timeout_secs" false readNat64 fun x s => { s with timeoutSecs := some x }]
  blank := {}

def PinningSettings.shape : Shape PinningSettings where
  name := "PinningSettings"
  fields := [
    fieldOf "minutes" false readNat32 fun x s => { s with minutes := x },
    fieldOf "batch_size" false readSize fun x s => { s with batchSize := x },
    fieldOf "lock_key" false readKey64 fun x s => { s with lockKey := x },
    fieldOf "mapping_file" false (readTextAs "path string") fun x s => { s with mappingFile := x }]
  blank := {}

def Schedule.shape : Shape Schedule where
  name := "ScheduleSettings"
  fields := [
    fieldOf "incremental_interval_secs" false readNat64 fun x s => { s with incremental := some x },
    fieldOf "reset_interval_secs" false readNat64 fun x s => { s with reset := some x }]
  blank := {}

def CatalogEntry.shape : Shape CatalogEntry where
  name := "CatalogLayer"
  fields := [
    fieldOf "workspace" true readText fun x e => { e with workspace := x },
    fieldOf "name" true readText fun x e => { e with name := x },
    fieldOf "table" true readText fun x e => { e with column := { e.column with table := x } },
    fieldOf "temporal_attribute" true readText fun x e =>
      { e with column := { e.column with name := x } }]
  blank := ⟨"", "", ⟨"", ""⟩⟩

def layersShape : Shape (List CatalogEntry) where
  name := "CatalogSettings"
  fields := [fieldOf "layers" false (listOf CatalogEntry.shape.reader) fun x _ => x]
  blank := []

def ServerSettings.shape : Shape ServerSettings where
  name := "ServerSettings"
  fields := [
    fieldOf "host" false readText fun x s => { s with host := x },
    fieldOf "port" false readNat16 fun x s => { s with portNumber := x }]
  blank := {}

namespace Config

/-- The sections of a file. Any of them may be missing. -/
def shape : Shape Config where
  name := "PinningConfig"
  fields := [
    fieldOf "repository" false repositoryShape.reader fun x c => { c with repository := x },
    fieldOf "postgres" false PostgresSettings.shape.reader fun x c => { c with postgres := x },
    fieldOf "feed" false FeedSettings.shape.reader fun x c => { c with feed := x },
    fieldOf "pinning" false PinningSettings.shape.reader fun x c => { c with pinning := x },
    fieldOf "schedule" false Schedule.shape.reader fun x c => { c with schedule := x },
    fieldOf "catalog" false layersShape.reader fun x c => { c with layers := x },
    fieldOf "server" false ServerSettings.shape.reader fun x c => { c with server := x }]
  blank := {}

/-- The configuration of a text; no reason is given for a text that is malformed. -/
def ofText (text : String) : Except (Option Mismatch) Config :=
  match readDocument text with
  | none => .error none
  | some v => (shape.reader v).mapError some

/-- The configuration of a file, given the texts of the files by path. -/
def ofFile (files : Dict String String) (path : String) : Except ConfigError Config :=
  match files.find? path with
  | none => .error (.read path)
  | some text => do
    let c ← (ofText text).mapError (.parse path)
    c.validate
    .ok c

/-- The places of the configuration file, the first one that there is counts. -/
def defaultPaths : List String := ["pinning.toml", "backend/pinning.toml", "../pinning.toml"]

/-- The configuration of the file in its usual place. -/
def ofDefaultFile (files : Dict String String) : Except ConfigError Config :=
  match defaultPaths.find? files.contains with
  | none => .error .notFound
  | some path => ofFile files path

end Config

end PinLedger

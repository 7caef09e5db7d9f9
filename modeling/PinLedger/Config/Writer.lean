import PinLedger.Config.Basic
import PinLedger.Json.Value

/-!
# PinLedger.Config.Writer

The configuration as an element, with its sections and keys named as in the file.

* `Config.json` — the element
-/

namespace PinLedger

open Json

def PostgresSettings.json (s : PostgresSettings) : Value := .object [
  ("database_url", .text s.databaseUrl), ("max_connections", .natural s.maxConnections),
  ("min_connections", .natural s.minConnections), ("connect_timeout", .natural s.connectTimeout),
  ("idle_timeout", .natural s.idleTimeout), ("max_retries", .natural s.maxRetries),
  ("retry_delay_ms", .natural s.retryDelayMs)]

def FeedSettings.json (s : FeedSettings) : Value := .object [
  ("base_url", .text s.baseUrl), ("search_path", .text s.searchPath),
  ("since_param", .text s.sinceParam), ("timeout_secs", .optional .natural s.timeoutSecs)]

def PinningSettings.json (s : PinningSettings) : Value := .object [
  ("minutes", .natural s.minutes), ("batch_size", .natural s.batchSize),
  ("lock_key", .integer s.lockKey), ("mapping_file", .text s.mappingFile)]

def Schedule.json (s : Schedule) : Value := .object [
  ("incremental_interval_secs", .optional .natural s.incremental),
  ("reset_interval_secs", .optional .natural s.reset)]

def CatalogEntry.json (e : CatalogEntry) : Value := .object [
  ("workspace", .text e.workspace), ("name", .text e.name), ("table", .text e.column.table),
  ("temporal_attribute", .text e.column.name)]

def ServerSettings.json (s : ServerSettings) : Value := .object [
  ("host", .text s.host), ("port", .natural s.portNumber)]

def Config.json (c : Config) : Value := .object [
  ("repository", .object [("type", .text c.repository)]), ("postgres", c.postgres.json),
  ("feed", c.feed.json), ("pinning", c.pinning.json), ("schedule", c.schedule.json),
  ("catalog", .object [("layers", .listOf CatalogEntry.json c.layers)]),
  ("server", c.server.json)]

end PinLedger

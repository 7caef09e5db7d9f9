import PinLedger.Feed.Memory
import PinLedger.Layer.Registry
import PinLedger.Outage
import PinLedger.Store.Basic
import PinLedger.Warning

/-!
# PinLedger.Site

What the services of a site share: the store, the feed, the catalog and the mapping files.

* `Site.readRegistry` — the registry of a mapping as it is now
* `Site.fetch` — the views of the feed, decoded
* `Site.health` — whether the store can be reached
-/

namespace PinLedger

structure Site where
  store : Store := {}
  feed : MemoryFeed := {}
  /-- The feed gives all its views whatever instant it is asked for. -/
  feedGivesAll : Bool := false
  catalog : Catalog := .ofEntries []
  /-- The texts of the mapping files, by path. -/
  files : Dict String String := ∅
  outages : Outages := {}

/-- Where a service has its mapping from. -/
inductive MappingSource where
  | entries (es : List MappingEntry)
  /-- Read whenever the mapping is asked for. -/
  | file (path : String)
deriving DecidableEq, Repr

namespace Site

/-- The entries of a mapping, and what is to be said about its lines. -/
def readMapping (s : Site) : MappingSource → Except CatalogError (List MappingEntry) × List Warning
  | .entries es => (.ok es, [])
  | .file path =>
    match s.files.find? path with
    | none => (.error (.mappingFile path), [])
    | some text =>
      let ls := PinLedger.readMapping text
      (.ok (mappingEntries ls), mappingWarnings ls)

def lookup (s : Site) : Registry.Lookup := fun workspace name =>
  match s.outages.catalog with
  | some .error => .error (.lookup s!"{workspace}:{name}" Outage.errorText)
  | some .breakdown => .error (.breakdown Outage.breakdownText)
  | _ => s.catalog.lookup workspace name

/-- The registry of a mapping, and what is to be said about its entries. -/
def readRegistry (s : Site) (source : MappingSource) :
    Except CatalogError Registry × List Warning :=
  match s.readMapping source with
  | (.error e, ws) => (.error e, ws)
  | (.ok es, ws) =>
    let (r, failed) := Registry.resolve s.lookup es
    (failed.elim (.ok r.registry) .error, ws ++ r.skipped.map .notInCatalog)

/-- The views that changed since an instant, decoded, and the latest of their updates. One view that
cannot be decoded spoils the page. -/
def fetch (s : Site) (since : Option Instant) :
    Except FeedError (List ParsedView × Option Instant) := do
  let raw ← s.feed.fetch (if s.feedGivesAll then none else since)
  let views ← raw.mapM RawView.parse
  .ok (views, latestUpdate raw)

def health (s : Site) : Except Trouble Bool :=
  match s.outages.onHealth with
  | some t => .error t
  | none => .ok s.store.isHealthy

end Site

end PinLedger

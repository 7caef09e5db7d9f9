import PinLedger.Config.Basic
import PinLedger.Feed.Page
import PinLedger.Text.Blank

/-!
# PinLedger.Feed.Client

The client of a feed that is reached by requests.

* `FeedClient.ofSettings` — the client, if the address of the feed is set
* `FeedClient.fetch` — a request
-/

namespace PinLedger

open Text

structure FeedClient where
  url : String
  sinceParam : String
deriving DecidableEq, Repr

namespace FeedClient

/-- A base address and a path with one slash between them; a blank path adds nothing. -/
def join (base path : List Char) : List Char :=
  let base := (base.reverse.dropWhile (· = '/')).reverse
  if path.isEmpty then base else base ++ '/' :: path.dropWhile (· = '/')

/-- The client of a feed. Blanks around the address and the path do not count. -/
def ofSettings (s : FeedSettings) : Except FeedError FeedClient :=
  let base := trim s.baseUrl.toList
  if base.isEmpty then .error (.misconfigured "feed.base_url is not set")
  else .ok ⟨String.ofList (join base (trim s.searchPath.toList)), s.sinceParam⟩

/-- A request for the views that changed since an instant. There is no network, so that no request
is answered. -/
def fetch (_ : FeedClient) (_ : Option Instant) : Except FeedError (List RawView) :=
  .error .request

end FeedClient

end PinLedger

import PinLedger.Json.Reader
import PinLedger.View

/-!
# PinLedger.Feed.Page

The documents of the feed. A page lists views, and each view carries its preference as a document in
a string.

* `RawView.shape`, `Preference.shape` — the structures of the documents
* `decodePage` — the views of a page
* `RawView.parse` — a view with its preference decoded
-/

namespace PinLedger

open Json

/-- A view as the feed lists it. -/
structure RawView where
  id : Int
  disabled : Bool
  /-- A document. -/
  preference : String
  lastUpdate : Option Instant
deriving DecidableEq, Repr

/-- A layer of a preference. -/
structure PreferenceLayer where
  id : String
  name : Option String
  /-- Of any kind; nothing depends on it. -/
  state : Option Json.Value

structure PreferenceTime where
  mode : TimeMode
  value : Instant

/-- The saved state of a map view. -/
structure Preference where
  layers : List PreferenceLayer
  time : PreferenceTime
  drivingLayer : Option String

/-- Why the views of the feed cannot be had. -/
inductive FeedError where
  /-- The page is malformed. -/
  | envelope (f : Fault)
  /-- The preference of a view is malformed. -/
  | preference (view : Int) (f : Fault)
  /-- A layer of a preference has a blank id. -/
  | blankLayer (view : Int) (index : Nat)
  /-- The feed does not answer. -/
  | unavailable (text : String)
  /-- The feed is not configured. -/
  | misconfigured (text : String)
  /-- No request can be made. -/
  | request
deriving DecidableEq, Repr

def FeedError.name : FeedError → String
  | .envelope _ => "Envelope"
  | .preference _ _ => "Preference"
  | .blankLayer _ _ => "InvalidPreference"
  | .unavailable _ => "Unavailable"
  | .misconfigured _ => "Configuration"
  | .request => "Request"

def FeedError.message : FeedError → String
  | .envelope f => s!"Malformed feed envelope at {renderPath f.path}: {f.reason.message}"
  | .preference view f =>
    s!"Malformed preference of view {view} at {renderPath f.path}: {f.reason.message}"
  | .blankLayer view index => s!"Invalid preference of view {view}: layers[{index}].id is empty"
  | .unavailable text => s!"Feed unavailable: {text}"
  | .misconfigured text => s!"Feed misconfigured: {text}"
  | .request => "Request failed"

/-- A field whose value is put into the structure by `put`. -/
def Json.fieldOf {α β : Type} (name : String) (required : Bool) (r : Reader β) (put : β → α → α) :
    Field α where
  name
  required
  read := fun depth s => (r depth s).map fun (b, rest) => (put b, rest)

/-- An instant to start from. -/
def Instant.epoch : Instant := ⟨0, 0, by decide, by decide, by decide⟩

def RawView.shape : Shape RawView where
  name := "RawView"
  fields := [
    fieldOf "id" true readInt fun x v => { v with id := x },
    fieldOf "disabled" false readBool fun x v => { v with disabled := x },
    fieldOf "preference" true readText fun x v => { v with preference := x },
    { fieldOf "lastUpdate" false (optional readInstant) fun x v => { v with lastUpdate := x } with
      aliases := ["last_update"] }]
  blank := ⟨0, false, "", none⟩

def embeddedShape : Shape (List RawView) where
  name := "Embedded"
  fields := [fieldOf "preferences" false (listOf RawView.shape.reader) fun x _ => x]
  blank := []

/-- A page. It may do without views. -/
def pageShape : Shape (List RawView) where
  name := "Envelope"
  fields := [fieldOf "_embedded" false (optional embeddedShape.reader) fun x _ => x.getD []]
  blank := []

/-- The views of a page, or what is wrong with it. -/
def decodePage (body : String) : Except FeedError (List RawView) :=
  (pageShape.readDocument body).mapError .envelope

/-- The mode of a name. Any other name is a mode too, an unknown one. -/
def TimeMode.ofName : String → TimeMode
  | "absolute" => .absolute
  | "relative" => .relative
  | _ => .unknown

def PreferenceTime.shape : Shape PreferenceTime where
  name := "PreferenceTime"
  fields := [
    fieldOf "mode" true (choice TimeMode.ofName) fun x t => { t with mode := x },
    fieldOf "value" true readInstant fun x t => { t with value := x }]
  blank := ⟨.unknown, .epoch⟩

def PreferenceLayer.shape : Shape PreferenceLayer where
  name := "PreferenceLayer"
  fields := [
    fieldOf "id" true readText fun x l => { l with id := x },
    fieldOf "name" false (optional readText) fun x l => { l with name := x },
    fieldOf "state" false (optional readValue) fun x l => { l with state := x }]
  blank := ⟨"", none, none⟩

def Preference.shape : Shape Preference where
  name := "Preference"
  fields := [
    fieldOf "layers" true (listOf PreferenceLayer.shape.reader) fun x p => { p with layers := x },
    fieldOf "time" true PreferenceTime.shape.reader fun x p => { p with time := x },
    fieldOf "drivingLayer" false (optional readText) fun x p => { p with drivingLayer := x }]
  blank := ⟨[], PreferenceTime.shape.blank, none⟩

/-- The trimmed ids of some layers without repetitions, in the order of their first mention, or the
index of the first blank one. The first layer has the index `i`, and the ids `seen` came before. -/
def layerIds (i : Nat) (seen : List String) : List PreferenceLayer → Except Nat (List String)
  | [] => .ok []
  | l :: rest =>
    let id := trimmed l.id
    if id = "" then .error i
    else if id ∈ seen then layerIds (i + 1) seen rest
    else (layerIds (i + 1) (id :: seen) rest).map (id :: ·)

def RawView.withPreference (raw : RawView) (p : Preference) : Except FeedError ParsedView :=
  match layerIds 0 [] p.layers with
  | .error i => .error (.blankLayer raw.id i)
  | .ok layers => .ok {
      id := raw.id
      layers
      time := p.time.value
      timeMode := p.time.mode
      disabled := raw.disabled
      drivingLayer := p.drivingLayer
      lastUpdate := raw.lastUpdate }

def RawView.parse (raw : RawView) : Except FeedError ParsedView :=
  match Preference.shape.readDocument raw.preference with
  | .error f => .error (.preference raw.id f)
  | .ok p => raw.withPreference p

def latestUpdate (views : List RawView) : Option Instant :=
  (views.filterMap (·.lastUpdate)).foldl (fun best t => some (best.elim t (·.latest t))) none

end PinLedger

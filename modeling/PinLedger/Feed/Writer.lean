import PinLedger.Feed.Page
import PinLedger.View.Writer

/-!
# PinLedger.Feed.Writer

The documents of the feed, written.

* `Preference.json`, `RawView.json` — a preference and a view as elements
* `renderPage` — the text of a page
-/

namespace PinLedger

open Json

def PreferenceLayer.json (l : PreferenceLayer) : Value := .object [
  ("id", .text l.id), ("name", .optional .text l.name), ("state", l.state.getD .null)]

def PreferenceTime.json (t : PreferenceTime) : Value := .object [
  ("mode", .text t.mode.name), ("value", instantJson t.value)]

def Preference.json (p : Preference) : Value := .object [
  ("layers", .listOf PreferenceLayer.json p.layers), ("time", p.time.json),
  ("drivingLayer", .optional .text p.drivingLayer)]

def RawView.json (v : RawView) : Value := .object [
  ("id", .integer v.id), ("disabled", .boolean v.disabled), ("preference", .text v.preference),
  ("lastUpdate", .optional instantJson v.lastUpdate)]

def renderPage (views : List RawView) : String :=
  (Value.object [("_embedded", .object [("preferences", .listOf RawView.json views)])]).render

end PinLedger

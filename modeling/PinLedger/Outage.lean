import PinLedger.StoreError

/-!
# PinLedger.Outage

Calls to the store and to the catalog that are told to fail.

* `Outage` — the ways to fail
* `Outages` — the calls that fail at present
* `Trouble` — what the caller of such a call meets
-/

namespace PinLedger

inductive Outage where
  /-- The call answers with an error. -/
  | error
  /-- The call breaks down, and with it the work that made it. -/
  | breakdown
  /-- The call does nothing and answers no. Only giving back a lock can do so. -/
  | refusal
deriving DecidableEq, Repr

/-- The calls that fail at present. -/
structure Outages where
  openSession : Option Outage := none
  lock : Option Outage := none
  unlock : Option Outage := none
  lastRun : Option Outage := none
  transaction : Option Outage := none
  health : Option Outage := none
  catalog : Option Outage := none
deriving DecidableEq, Repr

/-- What a call may meet in place of an answer. -/
inductive Trouble where
  | error (e : StoreError)
  /-- The call broke down with this text. -/
  | breakdown (text : String)
deriving DecidableEq, Repr

def Outage.errorText : String := "injected failure"

def Outage.breakdownText : String := "injected panic"

/-- The trouble of a call, named `operation` in the error. -/
def Outage.trouble (operation : String) : Outage → Option Trouble
  | .error => some (.error (.within .query errorText { operation := some operation }))
  | .breakdown => some (.breakdown breakdownText)
  | .refusal => none

namespace Outages

def onOpen (o : Outages) : Option Trouble := o.openSession.bind (Outage.trouble "open")

def onLock (o : Outages) : Option Trouble := o.lock.bind (Outage.trouble "lock")

def onUnlock (o : Outages) : Option Trouble := o.unlock.bind (Outage.trouble "unlock")

def onLastRun (o : Outages) : Option Trouble := o.lastRun.bind (Outage.trouble "last_run")

def onTransaction (o : Outages) : Option Trouble :=
  o.transaction.bind (Outage.trouble "transaction")

def onHealth (o : Outages) : Option Trouble := o.health.bind (Outage.trouble "health")

end Outages

end PinLedger

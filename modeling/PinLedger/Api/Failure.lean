import PinLedger.Warning

/-!
# PinLedger.Api.Failure

What a client is told when a request is not served.

* `ApiFailure` — the causes
* `ApiFailure.status`, `ApiFailure.code`, `ApiFailure.message`, `ApiFailure.details` — the reply
-/

namespace PinLedger

/-- Why a request is not served. -/
inductive ApiFailure where
  | notFound (text : String)
  | conflict (text : String)
  | internal (text : String)
  /-- Work in the background broke down with this text. -/
  | lost (text : String)
  | store (e : StoreError)
deriving DecidableEq, Repr

namespace ApiFailure

/-- The status of the reply. A client may try again later if the store may answer then. -/
def status : ApiFailure → Nat
  | .notFound _ => 404
  | .conflict _ => 409
  | .internal _ | .lost _ => 500
  | .store e => if e.isRetryable then 503 else 500

def code : ApiFailure → String
  | .notFound _ => "NOT_FOUND"
  | .conflict _ => "CONFLICT"
  | .internal _ | .lost _ => "INTERNAL_ERROR"
  | .store _ => "REPOSITORY_ERROR"

def message : ApiFailure → String
  | .notFound text | .conflict text | .internal text => text
  | .lost text => s!"Task join error: {lostTaskMessage text}"
  | .store e => e.message

def details : ApiFailure → Option String
  | .store e => some e.context.render
  | _ => none

end ApiFailure

end PinLedger

import PinLedger.Config.Basic
import PinLedger.Number.Word
import PinLedger.Text.Blank
import PinLedger.Text.Decimal

/-!
# PinLedger.Config.Override

Values of a configuration that are given by the environment.

* `readBounded` — a number that is given as a text
* `Config.override` — the configuration with the values of the environment
-/

namespace PinLedger

open Text

/-- Why a text is no number of a type. -/
inductive NumberFault where
  | empty
  | invalidDigit
  | tooLarge
deriving DecidableEq, Repr

def NumberFault.message : NumberFault → String
  | .empty => "cannot parse integer from empty string"
  | .invalidDigit => "invalid digit found in string"
  | .tooLarge => "number too large to fit in target type"

/-- The number that continues `n` with some digits, up to a bound. -/
def readDigitsFrom (bound n : Nat) : List Char → Except NumberFault Nat
  | [] => .ok n
  | c :: s =>
    match digitValue? c with
    | none => .error .invalidDigit
    | some d => if 10 * n + d ≤ bound then readDigitsFrom bound (10 * n + d) s else .error .tooLarge

/-- A natural number up to a bound. A plus sign may stand before it. -/
def readBounded (bound : Nat) : List Char → Except NumberFault Nat
  | [] => .error .empty
  | ['+'] => .error .invalidDigit
  | '+' :: s => readDigitsFrom bound 0 s
  | s => readDigitsFrom bound 0 s

/-- Changes of a configuration, of which the last one may fail. -/
abbrev Overriding := ExceptT ConfigError (StateM Config)

/-- Changes the configuration by a variable, if there is one. -/
def withVariable (env : String → Option String) (name : String)
    (change : Config → String → Config) : Overriding Unit :=
  match env name with
  | none => pure ()
  | some text => modify fun c => change c text

/-- Changes the configuration by a variable that holds a number, if there is one. -/
def withNumber (env : String → Option String) (name : String) (bound : Nat)
    (change : Config → Nat → Config) : Overriding Unit :=
  match env name with
  | none => pure ()
  | some text =>
    match readBounded bound (trim text.toList) with
    | .error f => throw (.invalid name f.message)
    | .ok n => modify fun c => change c n

/-- The changes that the environment asks for, in their order. -/
def overriding (env : String → Option String) : Overriding Unit := do
  withVariable env "DATABASE_URL" fun c x =>
    { c with postgres := { c.postgres with databaseUrl := x } }
  withVariable env "PINNING_FEED_URL" fun c x => { c with feed := { c.feed with baseUrl := x } }
  withVariable env "REPOSITORY_TYPE" fun c x => { c with repository := x }
  withVariable env "HOST" fun c x => { c with server := { c.server with host := x } }
  withNumber env "PINNING_MINUTES" (wordLimit 32 - 1) fun c x =>
    { c with pinning := { c.pinning with minutes := x } }
  withNumber env "PORT" (wordLimit 16 - 1) fun c x =>
    { c with server := { c.server with portNumber := x } }
  ofExcept (← get).validate

/-- The configuration with the values of the environment, as far as it was changed if that fails. -/
def Config.override (c : Config) (env : String → Option String) :
    Except ConfigError Unit × Config :=
  (overriding env).run.run c

end PinLedger

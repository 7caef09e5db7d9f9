import PinLedger.Number.Word
import PinLedger.Text.Decimal
import PinLedger.Text.Hex
import PinLedger.Text.Parts

/-!
# PinLedger.Net.Address

The addresses at which a server can listen: four octets or eight groups of 16 bits,
and after a colon the number under which it listens there.

* `SocketAddress.ofText?` — the address of a text
* `SocketAddress.render` — its text, with the longest row of zero groups left out
-/

namespace PinLedger

open Text

inductive SocketAddress where
  | v4 (a b c d number : Nat)
  /-- Eight groups; a scope of zero is none. -/
  | v6 (groups : List Nat) (scope number : Nat)
deriving DecidableEq, Repr

namespace SocketAddress

/-! ### Reading -/

def skipChar (c : Char) : List Char → Option (List Char)
  | d :: s => if d = c then some s else none
  | [] => none

/-- A row of digits: at least one, and at most `width` if there is such a bound. -/
def readDigits (isDigit : Char → Bool) (width : Option Nat) (s : List Char) :
    Option (List Char × List Char) :=
  let ds := s.takeWhile isDigit
  if ds.isEmpty ∨ width.any (· < ds.length) then none else some (ds, s.drop ds.length)

def readDecimal (bound : Nat) (s : List Char) : Option (Nat × List Char) := do
  let (ds, rest) ← readDigits isDigit none s
  if value ds ≤ bound then some (value ds, rest) else none

/-- An octet in decimal digits, without zeros in front. -/
def readOctet (s : List Char) : Option (Nat × List Char) := do
  let (ds, rest) ← readDigits isDigit (some 3) s
  if (ds.head? = some '0' ∧ 1 < ds.length) ∨ 255 < value ds then none else some (value ds, rest)

def readOctets (s : List Char) : Option ((Nat × Nat × Nat × Nat) × List Char) := do
  let (a, s) ← readOctet s
  let (b, s) ← readOctet (← skipChar '.' s)
  let (c, s) ← readOctet (← skipChar '.' s)
  let (d, s) ← readOctet (← skipChar '.' s)
  some ((a, b, c, d), s)

def readGroup (s : List Char) : Option (Nat × List Char) := do
  let (ds, rest) ← readDigits (fun c => (hexValue? c).isSome) (some 4) s
  some (ds.foldl (fun n c => 16 * n + (hexValue? c).getD 0) 0, rest)

/-- Up to so many groups with colons between them, and whether the last two of them were written as
four octets. -/
def readGroups : (left : Nat) → (first : Bool) → List Char → List Nat × Bool × List Char
  | 0, _, s => ([], false, s)
  | left + 1, first, s =>
    let start := if first then some s else skipChar ':' s
    match if left = 0 then none else start.bind readOctets with
    | some ((a, b, c, d), rest) => ([256 * a + b, 256 * c + d], true, rest)
    | none =>
      match start.bind readGroup with
      | none => ([], false, s)
      | some (g, rest) =>
        let (gs, octets, rest) := readGroups left false rest
        (g :: gs, octets, rest)

/-- Eight groups. Two colons in a row stand for the zero groups that are missing, at least one. -/
def readAllGroups (s : List Char) : Option (List Nat × List Char) :=
  let (front, octets, rest) := readGroups 8 true s
  if front.length = 8 then some (front, rest)
  else if octets then none
  else do
    let rest ← skipChar ':' (← skipChar ':' rest)
    let (back, _, rest) := readGroups (7 - front.length) true rest
    some (front ++ List.replicate (8 - front.length - back.length) 0 ++ back, rest)

def readScope (s : List Char) : Nat × List Char :=
  ((skipChar '%' s).bind (readDecimal (wordLimit 32 - 1))).getD (0, s)

def readServerNumber (s : List Char) : Option (Nat × List Char) := do
  readDecimal (wordLimit 16 - 1) (← skipChar ':' s)

def readV4 (s : List Char) : Option (SocketAddress × List Char) := do
  let ((a, b, c, d), s) ← readOctets s
  let (number, s) ← readServerNumber s
  some (.v4 a b c d number, s)

def readV6 (s : List Char) : Option (SocketAddress × List Char) := do
  let (groups, s) ← readAllGroups (← skipChar '[' s)
  let (scope, s) := readScope s
  let (number, s) ← readServerNumber (← skipChar ']' s)
  some (.v6 groups scope number, s)

def ofText? (text : String) : Option SocketAddress :=
  match (readV4 text.toList).or (readV6 text.toList) with
  | some (a, []) => some a
  | _ => none

/-! ### Writing -/

def octets (a b c d : Nat) : List Char := joined ['.'] ([a, b, c, d].map decimal)

/-- Start and length of the longest row of zero groups, of equal ones the first. The groups start
with the `i`-th. -/
def longestZeros (i : Nat) : List Nat → Nat × Nat
  | [] => (i, 0)
  | g :: gs =>
    let here := ((g :: gs).takeWhile (· = 0)).length
    let later := longestZeros (i + 1) gs
    if later.2 ≤ here then (i, here) else later

def renderGroups (gs : List Nat) : List Char := joined [':'] (gs.map hexadecimal)

/-- Eight groups, in which two colons stand for the longest row of two or more zero groups. Octets
that are mapped into groups are written as octets. -/
def renderAllGroups (gs : List Nat) : List Char :=
  match gs with
  | [0, 0, 0, 0, 0, 0xffff, x, y] =>
    "::ffff:".toList ++ octets (x / 256) (x % 256) (y / 256) (y % 256)
  | _ =>
    let (start, length) := longestZeros 0 gs
    if 1 < length then
      renderGroups (gs.take start) ++ "::".toList ++ renderGroups (gs.drop (start + length))
    else renderGroups gs

def chars : SocketAddress → List Char
  | .v4 a b c d number => octets a b c d ++ ':' :: decimal number
  | .v6 groups scope number =>
    let scope := if scope = 0 then [] else '%' :: decimal scope
    '[' :: renderAllGroups groups ++ scope ++ "]:".toList ++ decimal number

def render (a : SocketAddress) : String := String.ofList a.chars

end SocketAddress

end PinLedger

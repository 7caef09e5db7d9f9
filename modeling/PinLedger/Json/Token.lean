import PinLedger.Json.Reason
import PinLedger.Number.Word
import PinLedger.Text.Hex

/-!
# PinLedger.Json.Token

The smallest parts of a document: blanks, words, strings and numbers. Each reader takes its part
from the front of the text and gives the rest.

* `Json.skipBlank` — the text after blanks
* `Json.readString` — a string whose opening quote has been read
* `Json.readNumber` — a number
* `Json.skipString`, `Json.skipNumber` — the same, with nothing kept and less asked
-/

namespace PinLedger.Json

open Text

def isBlank (c : Char) : Bool := c = ' ' || c = '\n' || c = '\t' || c = '\r'

def skipBlank (s : List Char) : List Char := s.dropWhile isBlank

def readWord : (word : List Char) → List Char → Except Reason (Unit × List Char)
  | [], s => .ok ((), s)
  | _, [] => .error .endInValue
  | c :: word, d :: s => if c = d then readWord word s else .error .expectedIdent

/-! ### Strings -/

/-- Four hexadecimal digits. Text that is shorter than four bytes ends too early. -/
def readHex4 : List Char → Except Reason (Nat × List Char)
  | a :: b :: c :: d :: rest =>
    match hexValue? a, hexValue? b, hexValue? c, hexValue? d with
    | some a, some b, some c, some d => .ok (((a * 16 + b) * 16 + c) * 16 + d, rest)
    | _, _, _, _ => .error .invalidEscape
  | short =>
    .error (if 4 ≤ (String.ofList short).utf8ByteSize then .invalidEscape else .endInString)

def isLeadingSurrogate (n : Nat) : Bool := 0xD800 ≤ n && n ≤ 0xDBFF

def isTrailingSurrogate (n : Nat) : Bool := 0xDC00 ≤ n && n ≤ 0xDFFF

/-- The second half of a pair of surrogates. -/
def readTrailing (leading : Nat) : List Char → Except Reason (Char × List Char)
  | [] => .error .endInString
  | '\\' :: s =>
    match s with
    | [] => .error .endInString
    | 'u' :: s => do
      let (n, rest) ← readHex4 s
      if isTrailingSurrogate n then
        .ok (Char.ofNat ((leading - 0xD800) * 1024 + (n - 0xDC00) + 0x10000), rest)
      else .error .loneSurrogate
    | _ => .error .endOfHexEscape
  | _ => .error .endOfHexEscape

/-- The character of an escape whose backslash has been read. -/
def readEscape : List Char → Except Reason (Char × List Char)
  | [] => .error .endInString
  | c :: s =>
    match c with
    | '"' | '\\' | '/' => .ok (c, s)
    | 'b' => .ok ('\x08', s)
    | 'f' => .ok ('\x0c', s)
    | 'n' => .ok ('\n', s)
    | 'r' => .ok ('\r', s)
    | 't' => .ok ('\t', s)
    | 'u' => do
      let (n, rest) ← readHex4 s
      if isTrailingSurrogate n then .error .loneSurrogate
      else if isLeadingSurrogate n then readTrailing n rest
      else .ok (Char.ofNat n, rest)
    | _ => .error .invalidEscape

def readStringFrom : (fuel : Nat) → List Char → Except Reason (List Char × List Char)
  | 0, _ => .error .endInString
  | _, [] => .error .endInString
  | fuel + 1, c :: s =>
    if c = '"' then .ok ([], s)
    else if c = '\\' then do
      let (d, s) ← readEscape s
      let (ds, s) ← readStringFrom fuel s
      .ok (d :: ds, s)
    else if c.toNat < 32 then .error .controlCharacter
    else do
      let (ds, s) ← readStringFrom fuel s
      .ok (c :: ds, s)

/-- A string whose opening quote has been read. -/
def readString (s : List Char) : Except Reason (String × List Char) := do
  let (cs, s) ← readStringFrom s.length s
  .ok (String.ofList cs, s)

/-- The text after an escape whose backslash has been read. A code point need not be one. -/
def skipEscape : List Char → Except Reason (Unit × List Char)
  | [] => .error .endInString
  | c :: s =>
    match c with
    | '"' | '\\' | '/' | 'b' | 'f' | 'n' | 'r' | 't' => .ok ((), s)
    | 'u' => do
      let (_, s) ← readHex4 s
      .ok ((), s)
    | _ => .error .invalidEscape

def skipStringFrom : (fuel : Nat) → List Char → Except Reason (Unit × List Char)
  | 0, _ => .error .endInString
  | _, [] => .error .endInString
  | fuel + 1, c :: s =>
    if c = '"' then .ok ((), s)
    else if c = '\\' then do
      let ((), s) ← skipEscape s
      skipStringFrom fuel s
    else if c.toNat < 32 then .error .controlCharacter
    else skipStringFrom fuel s

/-- The text after a string whose opening quote has been read. -/
def skipString (s : List Char) : Except Reason (Unit × List Char) := skipStringFrom s.length s

/-! ### Numbers -/

def maxNatural : Nat := wordLimit 64 - 1

/-- Digits as long as the number that they continue stays below 2⁶⁴. -/
def readDigits (n : Nat) : List Char → Nat × List Char
  | [] => (n, [])
  | c :: s =>
    match digitValue? c with
    | some d => if 10 * n + d ≤ maxNatural then readDigits (10 * n + d) s else (n, c :: s)
    | none => (n, c :: s)

/-- A number that is not an integer, if it is not too large. -/
def double (negative : Bool) (significand : Nat) (exponent : Int) (s : List Char) :
    Except Reason (Number × List Char) :=
  match Binary64.scaled? significand exponent with
  | some x => .ok (.double negative x, s)
  | none => .error .numberOutOfRange

/-- The exponent after its letter, and the number. -/
def readExponent (negative : Bool) (significand : Nat) (exponent : Int) (s : List Char) :
    Except Reason (Number × List Char) :=
  let (down, s) := match s with
    | '+' :: s => (false, s)
    | '-' :: s => (true, s)
    | s => (false, s)
  match s with
  | [] => .error .endInValue
  | c :: _ =>
    if ¬ isDigit c then .error .invalidNumber
    else
      let ds := s.takeWhile isDigit
      let rest := s.drop ds.length
      if value ds < signLimit 32 then
        double negative significand (if down then exponent - value ds else exponent + value ds) rest
      else if significand ≠ 0 ∧ ¬ down then .error .numberOutOfRange
      else .ok (.double negative .zero, rest)

/-- What may follow the digits of a number that is not an integer. -/
def readAfterDigits (negative : Bool) (significand : Nat) (exponent : Int) :
    List Char → Except Reason (Number × List Char)
  | 'e' :: s | 'E' :: s => readExponent negative significand exponent s
  | s => double negative significand exponent s

/-- The digits after the point, and the number. Digits that 64 bits cannot hold are dropped. -/
def readFraction (negative : Bool) (significand : Nat) (exponent : Int) (s : List Char) :
    Except Reason (Number × List Char) :=
  match s with
  | [] => .error .endInValue
  | c :: _ =>
    let (n, rest) := readDigits significand s
    let count : Int := s.length - rest.length
    match rest with
    | d :: _ =>
      if isDigit d then
        readAfterDigits negative n (exponent - count) (rest.dropWhile isDigit)
      else if ¬ isDigit c then .error .invalidNumber
      else readAfterDigits negative n (exponent - count) rest
    | [] => readAfterDigits negative n (exponent - count) rest

def readAfterInteger (negative : Bool) (n : Nat) : List Char → Except Reason (Number × List Char)
  | '.' :: s => readFraction negative n 0 s
  | 'e' :: s | 'E' :: s => readExponent negative n 0 s
  | s =>
    if negative then
      -- minus zero, and what 64 bits cannot hold with a sign, are no integers
      if n = 0 ∨ signLimit 64 < n then double true n 0 s else .ok (.negative n, s)
    else .ok (.natural n, s)

/-- A number whose sign has been read. An integer part that 64 bits cannot hold is no integer. -/
def readUnsigned (negative : Bool) : List Char → Except Reason (Number × List Char)
  | [] => .error .endInValue
  | c :: s =>
    match digitValue? c with
    | none => .error .invalidNumber
    | some 0 =>
      if (s.head?.map isDigit).getD false then .error .invalidNumber
      else readAfterInteger negative 0 s
    | some d =>
      let (n, rest) := readDigits d s
      if (rest.head?.map isDigit).getD false then
        let more := rest.takeWhile isDigit
        match rest.drop more.length with
        | '.' :: s => readFraction negative n more.length s
        | s => readAfterDigits negative n more.length s
      else readAfterInteger negative n rest

def readNumber : List Char → Except Reason (Number × List Char)
  | '-' :: s => readUnsigned true s
  | s => readUnsigned false s

/-- Digits, at least one. -/
def skipDigits (s : List Char) : Except Reason (Unit × List Char) :=
  match s.takeWhile isDigit with
  | [] => .error .invalidNumber
  | ds => .ok ((), s.drop ds.length)

def skipExponent : List Char → Except Reason (Unit × List Char)
  | '+' :: s | '-' :: s => skipDigits s
  | s => skipDigits s

/-- The text after the fraction and the exponent of a number. -/
def skipAfterInteger : List Char → Except Reason (Unit × List Char)
  | '.' :: s => do
    let ((), s) ← skipDigits s
    match s with
    | 'e' :: s | 'E' :: s => skipExponent s
    | s => .ok ((), s)
  | 'e' :: s | 'E' :: s => skipExponent s
  | s => .ok ((), s)

/-- The text after a number of any size whose sign has been read. -/
def skipUnsigned : List Char → Except Reason (Unit × List Char)
  | '0' :: s =>
    if (s.head?.map isDigit).getD false then .error .invalidNumber else skipAfterInteger s
  | s => do
    let ((), s) ← skipDigits s
    skipAfterInteger s

def skipNumber : List Char → Except Reason (Unit × List Char)
  | '-' :: s => skipUnsigned s
  | s => skipUnsigned s

end PinLedger.Json

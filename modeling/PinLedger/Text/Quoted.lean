import PinLedger.Text.Unprintable

/-!
# PinLedger.Text.Quoted

Quotations in messages: between double quotes, with backslash forms for what would not be seen.

* `quoteChar` — how a quotation writes one character
* `quoted` — the quotation of a text
-/

namespace PinLedger.Text

def quoteChar (c : Char) : List Char :=
  if c = '\x00' then ['\\', '0']
  else if c = '\t' then ['\\', 't']
  else if c = '\r' then ['\\', 'r']
  else if c = '\n' then ['\\', 'n']
  else if c = '"' ∨ c = '\\' then ['\\', c]
  else if isUnprintable c then
    ['\\', 'u', '\x7b'] ++ Nat.toDigits 16 c.toNat ++ ['\x7d']
  else [c]

end PinLedger.Text

namespace PinLedger

def quoted (s : String) : String :=
  String.ofList ('"' :: s.toList.flatMap Text.quoteChar ++ ['"'])

def quotedOption : Option String → String
  | none => "None"
  | some s => "Some(" ++ quoted s ++ ")"

end PinLedger

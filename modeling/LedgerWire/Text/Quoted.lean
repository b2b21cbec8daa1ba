import LedgerWire.Text.Hex
import LedgerWire.Text.Shown

/-!
Quoted text for messages. Characters without a visible form of their own are written as escapes.
-/

namespace LedgerWire.Quoted

def codeEscape (value : Char) : List Char :=
  ['\\', 'u', '\x7b'] ++ Nat.toDigits 16 value.toNat ++ ['\x7d']

/-- `mark` is the quotation mark in use, the only one of the two that needs an escape. -/
def escapeChar (mark value : Char) : List Char :=
  if value = '\x00' then ['\\', '0']
  else if value = '\t' then ['\\', 't']
  else if value = '\r' then ['\\', 'r']
  else if value = '\n' then ['\\', 'n']
  else if value = '\\' || value = mark then ['\\', value]
  else if isShown value then [value]
  else codeEscape value

def quoteText (text : String) : String :=
  String.ofList ('"' :: text.toList.flatMap (escapeChar '"') ++ ['"'])

def quoteChar (value : Char) : String :=
  String.ofList ('\'' :: escapeChar '\'' value ++ ['\''])

end LedgerWire.Quoted

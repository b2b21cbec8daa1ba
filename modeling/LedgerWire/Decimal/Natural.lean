/-!
Natural numbers as decimal digits.
-/

namespace LedgerWire.Decimal

def digitValue (digit : Char) : Nat := digit.toNat - 48

def valueOf (digits : List Char) : Nat :=
  digits.foldl (fun value digit => value * 10 + digitValue digit) 0

def isNatural (text : List Char) : Bool := !text.isEmpty && text.all Char.isDigit

def withoutPlus : List Char → List Char
  | '+' :: rest => rest
  | text => text

end LedgerWire.Decimal

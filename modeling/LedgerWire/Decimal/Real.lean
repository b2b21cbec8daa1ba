/-!
Decimal texts of real numbers.
-/

namespace LedgerWire.Decimal

def withoutSign : List Char → List Char
  | '+' :: rest | '-' :: rest => rest
  | text => text

def isExponent : List Char → Bool
  | [] => true
  | mark :: rest =>
    let digits := withoutSign rest
    (mark = 'e' || mark = 'E') && !digits.isEmpty && digits.all Char.isDigit

def isDecimal (text : List Char) : Bool :=
  let whole := text.takeWhile Char.isDigit
  match text.dropWhile Char.isDigit with
  | '.' :: rest =>
    (!whole.isEmpty || (rest.head?.map Char.isDigit).getD false) &&
      isExponent (rest.dropWhile Char.isDigit)
  | rest => !whole.isEmpty && isExponent rest

/-- Infinity and a value that is no number have names, in which letter case does not matter. -/
def isReal (text : List Char) : Bool :=
  let magnitude := withoutSign text
  ["inf", "infinity", "nan"].contains (String.ofList (magnitude.map Char.toLower)) ||
    isDecimal magnitude

end LedgerWire.Decimal

/-!
Blank characters of all scripts.
-/

namespace LedgerWire.Space

def isSpace (value : Char) : Bool :=
  value = ' ' || ('\t' ≤ value && value ≤ '\r') ||
    [0x85, 0xA0, 0x1680, 0x2028, 0x2029, 0x202F, 0x205F, 0x3000].contains value.toNat ||
    (0x2000 ≤ value.toNat && value.toNat ≤ 0x200A)

def trim (text : List Char) : List Char :=
  ((text.dropWhile isSpace).reverse.dropWhile isSpace).reverse

end LedgerWire.Space

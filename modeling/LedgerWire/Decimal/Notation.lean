import LedgerWire.Decimal.Shortest

/-!
How a decimal is laid out: positionally while the power of its leading digit is in a given range,
and otherwise with an exponent.
-/

namespace LedgerWire.Decimal

/-- Positional notation is used for leading powers from `lowest` to `highest`, and always has a
point with a digit after it; an exponent follows `mark` and carries a sign of its own. -/
structure Notation where
  lowest : Int
  highest : Int
  mark : Char
  signed : Bool

def zeros (count : Nat) : List Char := List.replicate count '0'

def Notation.exponentText (layout : Notation) (power : Int) : List Char :=
  let digits := Nat.toDigits 10 power.natAbs
  if power < 0 then layout.mark :: '-' :: digits
  else if layout.signed then layout.mark :: '+' :: digits
  else layout.mark :: digits

def Notation.layOut (layout : Notation) (decimal : Scaled) : List Char :=
  let digits := Nat.toDigits 10 decimal.digits
  let leading := decimal.power + digits.length - 1
  if layout.lowest ≤ leading && leading ≤ layout.highest then
    if leading < 0 then '0' :: '.' :: zeros (-leading - 1).toNat ++ digits
    else
      let whole := leading.toNat + 1
      if digits.length ≤ whole then digits ++ zeros (whole - digits.length) ++ ['.', '0']
      else digits.take whole ++ '.' :: digits.drop whole
  else
    match digits with
    | [single] => single :: layout.exponentText leading
    | first :: rest => first :: '.' :: rest ++ layout.exponentText leading
    | [] => []

def Notation.write (layout : Notation) (value : Float) : List Char :=
  let bits := value.toBits
  let binary := Binary.ofBits bits
  let magnitude := if binary.significand = 0 then ['0', '.', '0'] else layout.layOut (shortest binary)
  if bits.toNat / 0x8000000000000000 = 1 then '-' :: magnitude else magnitude

end LedgerWire.Decimal

import LedgerWire.Decimal.Notation
import LedgerWire.Text.Ascii

/-!
Numbers as JSON text carries them. A whole number of 64 bits stays whole; every other literal
becomes a double, from the first digits that fit 64 bits and a power of ten.
-/

namespace LedgerWire.Json

inductive Number
  | whole (value : Int) (fits : -0x8000000000000000 ≤ value ∧ value < 0x10000000000000000)
  | float (value : Float)

def numberNotation : Decimal.Notation := ⟨-5, 15, 'e', true⟩

def naturalBytes (value : Nat) : Bytes := Ascii.bytes (Nat.toDigits 10 value)

/-- An infinity or a NaN has no literal and is written as null. -/
def Number.bytes : Number → Bytes
  | .whole value _ =>
    if value < 0 then 0x2D :: naturalBytes value.natAbs else naturalBytes value.natAbs
  | .float value =>
    if value.isFinite then Ascii.bytes (numberNotation.write value) else Ascii.bytes "null".toList

def ofNatural (value : UInt64) : Number :=
  .whole value.toNat ⟨by omega, by have := value.toNat_lt; omega⟩

def isDigit (byte : UInt8) : Bool := 0x30 ≤ byte && byte ≤ 0x39

def digitValue (byte : UInt8) : Nat := byte.toNat - 0x30

def digitsValue (digits : Bytes) : Nat :=
  digits.foldl (fun value digit => value * 10 + digitValue digit) 0

structure Literal where
  negative : Bool
  whole : Bytes
  fraction : Option Bytes
  exponent : Option (Bool × Bytes)
  deriving DecidableEq, Repr

/-- Takes digits into a significand while it stays below 2 ^ 64, and returns those left over. -/
def takeDigits (significand : Nat) : Bytes → Nat × Bytes
  | [] => (significand, [])
  | digit :: rest =>
    let next := significand * 10 + digitValue digit
    if next < 0x10000000000000000 then takeDigits next rest else (significand, digit :: rest)

def powerOfTen (exponent : Nat) : Float := Float.ofScientific 1 false exponent

def scaleDown (value : Float) (exponent : Nat) : Float :=
  if exponent ≤ 308 then value / powerOfTen exponent
  else if value == 0 then value
  else scaleDown (value / powerOfTen 308) (exponent - 308)
termination_by exponent

def scaled? (significand : Nat) (exponent : Int) : Option Float :=
  let value := significand.toUInt64.toFloat
  match exponent with
  | .negSucc below => some (scaleDown value (below + 1))
  | .ofNat exponent =>
    if exponent ≤ 308 then
      let product := value * powerOfTen exponent
      if product.isInf then none else some product
    else if significand = 0 then some value
    else none

def largestExponent : Nat := 0x7FFFFFFF

def Literal.magnitude? (literal : Literal) : Option Float :=
  let (significand, dropped) := takeDigits 0 literal.whole
  let fraction := literal.fraction.getD []
  let (significand, ignored) := takeDigits significand fraction
  let point : Int := (dropped.length : Int) - ((fraction.length : Int) - (ignored.length : Int))
  match literal.exponent with
  | none => scaled? significand point
  | some (below, digits) =>
    let exponent := digitsValue digits
    if largestExponent < exponent then
      if significand = 0 || below then some 0 else none
    else scaled? significand (if below then point - exponent else point + exponent)

def Literal.isWhole (literal : Literal) : Bool :=
  literal.fraction.isNone && literal.exponent.isNone && (takeDigits 0 literal.whole).2.isEmpty

def Literal.number? (literal : Literal) : Option Number :=
  let value := digitsValue literal.whole
  let signed : Int := if literal.negative then -value else value
  if fits : literal.isWhole ∧ ¬ (literal.negative ∧ value = 0) ∧
      -0x8000000000000000 ≤ signed ∧ signed < 0x10000000000000000 then
    some (.whole signed fits.2.2)
  else
    match literal.magnitude? with
    | some magnitude => some (.float (if literal.negative then -magnitude else magnitude))
    | none => none

end LedgerWire.Json

/-!
The fewest decimal digits that read back to a binary floating-point value. The value and the ends
of the interval of reals that round to it are compared as exact fractions; grids of one, two, three
digits and so on are tried until one has a point in the interval.
-/

namespace LedgerWire.Decimal

/-- The value `significand * 2 ^ power`. The gap to the next smaller value is only half the gap to
the next larger one where `narrowBelow` holds. -/
structure Binary where
  significand : Nat
  power : Int
  narrowBelow : Bool
  deriving DecidableEq, Repr

structure Scaled where
  digits : Nat
  power : Int
  deriving DecidableEq, Repr

def Binary.ofBits (bits : UInt64) : Binary :=
  let fraction : Nat := bits.toNat % 0x10000000000000
  let exponent : Nat := bits.toNat / 0x10000000000000 % 0x800
  if exponent = 0 then ⟨fraction, -1074, false⟩
  else ⟨0x10000000000000 + fraction, (exponent : Int) - 1075, fraction = 0 && 1 < exponent⟩

/-- A value and its rounding interval over one denominator: `low ≤ value ≤ high`. -/
structure Interval where
  low : Nat
  value : Nat
  high : Nat
  denominator : Nat
  closed : Bool
  deriving DecidableEq, Repr

def Binary.interval (binary : Binary) : Interval :=
  let scale := Nat.pow 2 binary.power.toNat
  let quarter := scale
  let value := 4 * binary.significand * scale
  { low := if binary.narrowBelow then value - quarter else value - 2 * quarter
    value := value
    high := value + 2 * quarter
    denominator := 4 * Nat.pow 2 (-binary.power).toNat
    closed := binary.significand % 2 = 0 }

def Interval.holds (interval : Interval) (digits up down : Nat) : Bool :=
  let point := digits * up * interval.denominator
  if interval.closed then interval.low * down ≤ point && point ≤ interval.high * down
  else interval.low * down < point && point < interval.high * down

/-- The point of the grid of multiples of `up / down` that is in the interval and nearest to the
value; of two that are equally near, the even one. -/
def Interval.nearest? (interval : Interval) (up down : Nat) : Option Nat :=
  let step := up * interval.denominator
  let below := interval.value * down / step
  let remainder := interval.value * down % step
  match interval.holds below up down, interval.holds (below + 1) up down with
  | true, false => some below
  | false, true => some (below + 1)
  | false, false => none
  | true, true =>
    if 2 * remainder < step then some below
    else if step < 2 * remainder then some (below + 1)
    else if below % 2 = 0 then some below
    else some (below + 1)

def Interval.search (interval : Interval) (power : Int) : Nat → Option Scaled
  | 0 => none
  | tries + 1 =>
    match interval.nearest? (Nat.pow 10 power.toNat) (Nat.pow 10 (-power).toNat) with
    | some (digits + 1) => some ⟨digits + 1, power⟩
    | _ => interval.search (power - 1) tries

def Interval.leadingPower (interval : Interval) : Int :=
  if interval.denominator ≤ interval.value then
    ((Nat.toDigits 10 (interval.value / interval.denominator)).length : Int) - 1
  else 1 - ((Nat.toDigits 10 (interval.denominator / interval.value)).length : Int)

def stripZeros : Nat → Scaled → Scaled
  | 0, decimal => decimal
  | fuel + 1, decimal =>
    if decimal.digits ≠ 0 && decimal.digits % 10 = 0 then
      stripZeros fuel ⟨decimal.digits / 10, decimal.power + 1⟩
    else decimal

/-- Of the decimals in the rounding interval, the nearest of those with the fewest digits. -/
def shortest (binary : Binary) : Scaled :=
  let interval := binary.interval
  match interval.search interval.leadingPower 20 with
  | some decimal => stripZeros 20 decimal
  | none => ⟨binary.significand, 0⟩

end LedgerWire.Decimal

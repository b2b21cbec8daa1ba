import LedgerWire.Decimal.Natural
import LedgerWire.Toml.Node
import LedgerWire.Toml.Text

/-!
Numbers, dates and times in TOML. Once the first characters show which of them is meant, a fault
further on is a fault of the whole text.
-/

namespace LedgerWire.Toml

def scanDigits (count : Nat) (text : List Char) : Option (Nat × List Char) :=
  let digits := text.take count
  if digits.length = count && digits.all Char.isDigit then
    some (Decimal.valueOf digits, text.drop count)
  else none

def scanWithin (count low high : Nat) (text : List Char) : Option (Nat × List Char) := do
  let (value, rest) ← scanDigits count text
  if low ≤ value && value ≤ high then some (value, rest) else none

def expect (wanted : Char) : List Char → Option (List Char)
  | value :: rest => if value = wanted then some rest else none
  | [] => none

def daysIn (year month : Nat) : Nat :=
  if month = 2 then if year % 4 = 0 && (year % 100 ≠ 0 || year % 400 = 0) then 29 else 28
  else if month = 4 || month = 6 || month = 9 || month = 11 then 30
  else 31

def skipDate (text : List Char) : Option (List Char) := do
  let (year, rest) ← scanDigits 4 text
  let rest ← expect '-' rest
  let (month, rest) ← scanWithin 2 1 12 rest
  let rest ← expect '-' rest
  let (_, rest) ← scanWithin 2 1 (daysIn year month) rest
  some rest

def skipTime (text : List Char) : Option (List Char) := do
  let (_, rest) ← scanWithin 2 0 23 text
  let rest ← expect ':' rest
  let (_, rest) ← scanWithin 2 0 59 rest
  let rest ← expect ':' rest
  let (_, rest) ← scanWithin 2 0 60 rest
  match rest with
  | '.' :: digit :: rest => if digit.isDigit then some (rest.dropWhile Char.isDigit) else none
  | ['.'] => none
  | rest => some rest

def skipOffset : List Char → Option (List Char)
  | 'Z' :: rest | 'z' :: rest => some rest
  | sign :: rest =>
    if sign = '+' || sign = '-' then do
      let (_, rest) ← scanWithin 2 0 23 rest
      let rest ← expect ':' rest
      let (_, rest) ← scanWithin 2 0 59 rest
      some rest
    else some (sign :: rest)
  | [] => some []

/-- A time of day may follow a date, after a letter or one blank, and an offset the time. -/
def skipMoment (text : List Char) : Option (List Char) := do
  let rest ← skipDate text
  match rest with
  | ' ' :: digit :: others =>
    if digit.isDigit then do skipOffset (← skipTime (digit :: others)) else some rest
  | 'T' :: others | 't' :: others => do skipOffset (← skipTime others)
  | _ => some rest

def startsDate (text : List Char) : Bool :=
  match scanDigits 4 text with
  | some (_, '-' :: _) => true
  | _ => false

def startsTime (text : List Char) : Bool :=
  match scanDigits 2 text with
  | some (_, ':' :: _) => true
  | _ => false

def scanGroups (isDigit : Char → Bool) : List Char → Option (List Char × List Char)
  | [] => none
  | digit :: rest =>
    if isDigit digit then
      match rest with
      | '_' :: more => withFirst digit (scanGroups isDigit more)
      | next :: more =>
        if isDigit next then withFirst digit (scanGroups isDigit (next :: more))
        else some ([digit], next :: more)
      | [] => some ([digit], [])
    else none

def scanWhole : List Char → Option (List Char × List Char)
  | '0' :: rest => some (['0'], rest)
  | text => scanGroups Char.isDigit text

def numberOf (base : Nat) (digits : List Char) : Nat :=
  digits.foldl (fun value digit => value * base + (Hex.charValue? digit).getD 0) 0

def integerIn? (value : Int) : Option Node :=
  if -0x8000000000000000 ≤ value ∧ value < 0x8000000000000000 then some (.integer value) else none

def scanBased (base : Nat) (isDigit : Char → Bool) (text : List Char) : Option (Node × List Char) := do
  let (digits, rest) ← scanGroups isDigit text
  let node ← integerIn? (numberOf base digits)
  some (node, rest)

def scanExponent (text : List Char) : Option (Option (Bool × List Char) × List Char) :=
  match text with
  | mark :: rest =>
    if mark = 'e' || mark = 'E' then do
      let (below, rest) := match rest with
        | '+' :: rest => (false, rest)
        | '-' :: rest => (true, rest)
        | rest => (false, rest)
      let (digits, rest) ← scanGroups Char.isDigit rest
      some (some (below, digits), rest)
    else some (none, text)
  | [] => some (none, [])

def isTooLarge (digits : List Char) (exponent : Int) : Bool :=
  let significand := numberOf 10 digits
  let magnitude := (Nat.toDigits 10 significand).length + exponent
  if significand = 0 || magnitude < 300 then false
  else if 320 < magnitude then true
  else
    Nat.pow 2 1024 - Nat.pow 2 970 ≤
      significand * Nat.pow 10 exponent.toNat / Nat.pow 10 (-exponent).toNat

def scanDecimal (negative : Bool) (text : List Char) : Option (Node × List Char) := do
  let (whole, rest) ← scanWhole text
  let (fraction, rest) ← match rest with
    | '.' :: rest => (scanGroups Char.isDigit rest).map fun (digits, rest) => (some digits, rest)
    | rest => some (none, rest)
  let (exponent, rest) ← scanExponent rest
  if fraction.isNone && exponent.isNone then do
    let value : Int := numberOf 10 whole
    let node ← integerIn? (if negative then -value else value)
    some (node, rest)
  else
    let fraction := fraction.getD []
    let (below, digits) := exponent.getD (false, [])
    let power : Int := if below then -(numberOf 10 digits) else numberOf 10 digits
    if !negative && isTooLarge (whole ++ fraction) (power - fraction.length) then none
    else some (.real (String.ofList (text.take (text.length - rest.length))), rest)

def scanNumber (text : List Char) : Option (Node × List Char) :=
  match text with
  | '0' :: 'x' :: rest => scanBased 16 (fun digit => (Hex.charValue? digit).isSome) rest
  | '0' :: 'o' :: rest => scanBased 8 (fun digit => '0' ≤ digit && digit ≤ '7') rest
  | '0' :: 'b' :: rest => scanBased 2 (fun digit => digit = '0' || digit = '1') rest
  | _ =>
    let (negative, unsigned) := match text with
      | '+' :: rest => (false, rest)
      | '-' :: rest => (true, rest)
      | rest => (false, rest)
    match unsigned with
    | 'i' :: 'n' :: 'f' :: rest => some (.real "inf", rest)
    | 'n' :: 'a' :: 'n' :: rest => some (.real "nan", rest)
    | unsigned => scanDecimal negative unsigned

def scanScalar (text : List Char) : Option (Node × List Char) :=
  match text with
  | 't' :: 'r' :: 'u' :: 'e' :: rest => some (.boolean true, rest)
  | 'f' :: 'a' :: 'l' :: 's' :: 'e' :: rest => some (.boolean false, rest)
  | _ => do
    let skipped ←
      if startsDate text then (skipMoment text).map some
      else if startsTime text then (skipTime text).map some
      else some none
    match skipped with
    | some rest => some (.moment (String.ofList (text.take (text.length - rest.length))), rest)
    | none => scanNumber text

end LedgerWire.Toml

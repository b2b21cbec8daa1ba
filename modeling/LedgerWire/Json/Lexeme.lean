import LedgerWire.Json.Fault

/-!
Reading the smallest parts of a JSON text: blanks, words, numbers and strings. A reader takes bytes
from the front and returns what is left.
-/

namespace LedgerWire.Json

abbrev Reader (α : Type) := Bytes → Except Fault (α × Bytes)

def isBlank (byte : UInt8) : Bool := byte = 0x20 || byte = 0x09 || byte = 0x0A || byte = 0x0D

def skipBlanks (bytes : Bytes) : Bytes := bytes.dropWhile isBlank

def quote : UInt8 := 0x22
def backslash : UInt8 := 0x5C
def comma : UInt8 := 0x2C
def colon : UInt8 := 0x3A
def openList : UInt8 := 0x5B
def closeList : UInt8 := 0x5D
def openRecord : UInt8 := 0x7B
def closeRecord : UInt8 := 0x7D

def readWord : Bytes → Reader Unit
  | [], bytes => .ok ((), bytes)
  | _ :: _, [] => .error .endOfInput
  | letter :: letters, byte :: rest =>
    if byte = letter then readWord letters rest else .error .malformed

def readDigits (bytes : Bytes) : Except Fault (Bytes × Bytes) :=
  match bytes with
  | [] => .error .endOfInput
  | byte :: _ =>
    if isDigit byte then .ok (bytes.takeWhile isDigit, bytes.dropWhile isDigit)
    else .error .malformed

def readWhole (bytes : Bytes) : Except Fault (Bytes × Bytes) := do
  let (digits, rest) ← readDigits bytes
  if digits.head? = some 0x30 && digits.length ≠ 1 then .error .malformed else .ok (digits, rest)

def readFraction (bytes : Bytes) : Except Fault (Option Bytes × Bytes) :=
  match bytes with
  | 0x2E :: rest => do
    let (digits, rest) ← readDigits rest
    .ok (some digits, rest)
  | _ => .ok (none, bytes)

def readSign : Bytes → Bool × Bytes
  | 0x2B :: rest => (false, rest)
  | 0x2D :: rest => (true, rest)
  | bytes => (false, bytes)

def readExponent (bytes : Bytes) : Except Fault (Option (Bool × Bytes) × Bytes) :=
  match bytes with
  | byte :: rest =>
    if byte = 0x65 || byte = 0x45 then do
      let (below, rest) := readSign rest
      let (digits, rest) ← readDigits rest
      .ok (some (below, digits), rest)
    else .ok (none, bytes)
  | [] => .ok (none, bytes)

def readMinus : Bytes → Bool × Bytes
  | 0x2D :: rest => (true, rest)
  | bytes => (false, bytes)

def readLiteral : Reader Literal := fun bytes => do
  let (negative, rest) := readMinus bytes
  let (whole, rest) ← readWhole rest
  let (fraction, rest) ← readFraction rest
  let (exponent, rest) ← readExponent rest
  .ok (⟨negative, whole, fraction, exponent⟩, rest)

def readNumber : Reader Number := fun bytes => do
  let (literal, rest) ← readLiteral bytes
  match literal.number? with
  | some number => .ok (number, rest)
  | none => .error .malformed

def hexValue? (byte : UInt8) : Option Nat := (Hex.digitValue? byte).map UInt8.toNat

def unitValue? (a b c d : UInt8) : Option Nat := do
  let a ← hexValue? a
  let b ← hexValue? b
  let c ← hexValue? c
  let d ← hexValue? d
  some (((a * 16 + b) * 16 + c) * 16 + d)

def escapeValue? (letter : UInt8) : Option UInt8 :=
  if letter = quote || letter = backslash || letter = 0x2F then some letter
  else if letter = 0x62 then some 0x08
  else if letter = 0x66 then some 0x0C
  else if letter = 0x6E then some 0x0A
  else if letter = 0x72 then some 0x0D
  else if letter = 0x74 then some 0x09
  else none

def isHighUnit (unit : Nat) : Bool := 0xD800 ≤ unit && unit ≤ 0xDBFF
def isLowUnit (unit : Nat) : Bool := 0xDC00 ≤ unit && unit ≤ 0xDFFF

def joinUnits (high low : Nat) : Char :=
  Char.ofNat ((high - 0xD800) * 0x400 + (low - 0xDC00) + 0x10000)

def withFront (front : Bytes) (result : Except Fault (Bytes × Bytes)) :
    Except Fault (Bytes × Bytes) := do
  let (content, rest) ← result
  .ok (front ++ content, rest)

/-- The content of a string up to its closing quote, with escapes resolved. `high` is a high unit
that has been read and needs a low one at once. -/
def readContent (high : Option Nat) : Bytes → Except Fault (Bytes × Bytes)
  | [] => .error .endOfInput
  | byte :: rest =>
    if byte = backslash then
      match rest with
      | [] => .error .endOfInput
      | letter :: rest =>
        if letter = 0x75 then
          match rest with
          | a :: b :: c :: d :: rest =>
            match unitValue? a b c d, high with
            | none, _ => .error .malformed
            | some unit, none =>
              if isLowUnit unit then .error .malformed
              else if isHighUnit unit then readContent (some unit) rest
              else withFront (Utf8.encodeChar (Char.ofNat unit)) (readContent none rest)
            | some unit, some high =>
              if isLowUnit unit then
                withFront (Utf8.encodeChar (joinUnits high unit)) (readContent none rest)
              else .error .malformed
          | _ => .error .endOfInput
        else
          match escapeValue? letter, high with
          | some value, none => withFront [value] (readContent none rest)
          | _, _ => .error .malformed
    else if high.isSome then .error .malformed
    else if byte = quote then .ok ([], rest)
    else if byte < 0x20 then .error .malformed
    else withFront [byte] (readContent none rest)

/-- A string whose opening quote has been read. Its bytes are looked at as text only once the
closing quote is found. -/
def readString : Reader String := fun bytes => do
  let (content, rest) ← readContent none bytes
  match Utf8.decode content with
  | .ok text => .ok (text, rest)
  | .error _ => .error .malformed

def skipString : Bytes → Except Fault Bytes
  | [] => .error .endOfInput
  | byte :: rest =>
    if byte = backslash then
      match rest with
      | [] => .error .endOfInput
      | letter :: rest =>
        if letter = 0x75 then
          match rest with
          | a :: b :: c :: d :: rest =>
            if (unitValue? a b c d).isSome then skipString rest else .error .malformed
          | _ => .error .endOfInput
        else if (escapeValue? letter).isSome then skipString rest
        else .error .malformed
    else if byte = quote then .ok rest
    else if byte < 0x20 then .error .malformed
    else skipString rest

def nullTail : Bytes := [0x75, 0x6C, 0x6C]
def trueTail : Bytes := [0x72, 0x75, 0x65]
def falseTail : Bytes := [0x61, 0x6C, 0x73, 0x65]

def readFound : Reader Found := fun bytes =>
  match skipBlanks bytes with
  | [] => .error .endOfInput
  | byte :: rest =>
    if byte = 0x6E then do
      let (_, rest) ← readWord nullTail rest
      .ok (.null, rest)
    else if byte = 0x74 then do
      let (_, rest) ← readWord trueTail rest
      .ok (.boolean true, rest)
    else if byte = 0x66 then do
      let (_, rest) ← readWord falseTail rest
      .ok (.boolean false, rest)
    else if byte = 0x2D || isDigit byte then do
      let (number, rest) ← readNumber (byte :: rest)
      .ok (.number number, rest)
    else if byte = quote then do
      let (text, rest) ← readString rest
      .ok (.text text, rest)
    else if byte = openList then .ok (.list, rest)
    else if byte = openRecord then .ok (.record, rest)
    else .error .malformed

end LedgerWire.Json

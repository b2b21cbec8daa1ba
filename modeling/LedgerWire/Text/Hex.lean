import LedgerWire.Text.Utf8

/-!
Base-16 text. Two digits make a byte; the first byte that is no digit is reported with its place.
-/

namespace LedgerWire.Hex

def digitValue? (byte : UInt8) : Option UInt8 :=
  if 0x30 ≤ byte && byte ≤ 0x39 then some (byte - 0x30)
  else if 0x41 ≤ byte && byte ≤ 0x46 then some (byte - 0x37)
  else if 0x61 ≤ byte && byte ≤ 0x66 then some (byte - 0x57)
  else none

def charValue? (digit : Char) : Option Nat :=
  if digit.isDigit then some (digit.toNat - 0x30)
  else if 'A' ≤ digit && digit ≤ 'F' then some (digit.toNat - 0x37)
  else if 'a' ≤ digit && digit ≤ 'f' then some (digit.toNat - 0x57)
  else none

def digit (value : UInt8) : UInt8 := if value < 10 then 0x30 + value else 0x57 + value

def encodeByte (byte : UInt8) : Bytes := [digit (byte / 16), digit (byte % 16)]

def encode (bytes : Bytes) : Bytes := bytes.flatMap encodeByte

structure Fault where
  byte : UInt8
  position : Nat
  deriving DecidableEq, Repr

/-- The bytes written by pairs of digits; `position` counts the digits before. A last digit
without a partner counts as no digit. -/
def decodeFrom (position : Nat) : Bytes → Except Fault Bytes
  | [] => .ok []
  | [single] => .error ⟨single, position⟩
  | high :: low :: rest =>
    match digitValue? high with
    | none => .error ⟨high, position⟩
    | some highValue =>
      match digitValue? low with
      | none => .error ⟨low, position + 1⟩
      | some lowValue =>
        match decodeFrom (position + 2) rest with
        | .error fault => .error fault
        | .ok bytes => .ok ((highValue * 16 + lowValue) :: bytes)

def decode (digits : Bytes) : Except Fault Bytes := decodeFrom 0 digits

end LedgerWire.Hex

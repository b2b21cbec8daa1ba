import LedgerWire.Text.Utf8

/-!
Base-64 text of bytes. Four letters carry three bytes; padding may be left out when reading, and
the bits of the last letter that carry nothing are zero.
-/

namespace LedgerWire.Base64

def letter (value : Nat) : UInt8 :=
  if value < 26 then (0x41 + value).toUInt8
  else if value < 52 then (0x61 + (value - 26)).toUInt8
  else if value < 62 then (0x30 + (value - 52)).toUInt8
  else if value = 62 then 0x2B
  else 0x2F

def letterValue? (byte : UInt8) : Option Nat :=
  if 0x41 ≤ byte && byte ≤ 0x5A then some (byte.toNat - 0x41)
  else if 0x61 ≤ byte && byte ≤ 0x7A then some (byte.toNat - 0x61 + 26)
  else if 0x30 ≤ byte && byte ≤ 0x39 then some (byte.toNat - 0x30 + 52)
  else if byte = 0x2B then some 62
  else if byte = 0x2F then some 63
  else none

def pad : UInt8 := 0x3D

def encode : Bytes → Bytes
  | [] => []
  | [a] => [letter (a.toNat / 4), letter (a.toNat % 4 * 16), pad, pad]
  | [a, b] =>
    [letter (a.toNat / 4), letter (a.toNat % 4 * 16 + b.toNat / 16), letter (b.toNat % 16 * 4), pad]
  | a :: b :: c :: rest =>
    letter (a.toNat / 4) :: letter (a.toNat % 4 * 16 + b.toNat / 16) ::
      letter (b.toNat % 16 * 4 + c.toNat / 64) :: letter (c.toNat % 64) :: encode rest

inductive Fault
  | invalidByte (byte : UInt8) (offset : Nat)
  | invalidLength
  | invalidLastLetter (byte : UInt8) (offset : Nat)
  deriving DecidableEq, Repr

def Fault.message : Fault → String
  | .invalidByte byte offset =>
    "Invalid byte " ++ toString byte.toNat ++ ", offset " ++ toString offset ++ "."
  | .invalidLength => "Encoded text cannot have a 6-bit remainder."
  | .invalidLastLetter byte offset =>
    "Invalid last symbol " ++ toString byte.toNat ++ ", offset " ++ toString offset ++ "."

def isLetter (byte : UInt8) : Bool := (letterValue? byte).isSome

/-- The bytes that six-bit values carry, and whether the bits left over are all zero. -/
def pack : List Nat → Bytes × Bool
  | a :: b :: c :: d :: rest =>
    let (bytes, clean) := pack rest
    ((a * 4 + b / 16).toUInt8 :: (b % 16 * 16 + c / 4).toUInt8 :: (c % 4 * 64 + d).toUInt8 :: bytes,
      clean)
  | [a, b, c] => ([(a * 4 + b / 16).toUInt8, (b % 16 * 16 + c / 4).toUInt8], c % 4 = 0)
  | [a, b] => ([(a * 4 + b / 16).toUInt8], b % 16 = 0)
  | [a] => ([], a = 0)
  | [] => ([], true)

def paddingFits (letters : Nat) (padding : Bytes) : Bool :=
  padding.isEmpty ||
    (2 ≤ letters % 4 && letters % 4 + padding.length ≤ 4 && padding.all (· = pad))

/-- A length that leaves one letter over is refused before anything else is looked at, unless the
text ends in a byte that has no place in base-64 text at all. -/
def decode (text : Bytes) : Except Fault Bytes :=
  let letters := text.takeWhile isLetter
  let rest := text.dropWhile isLetter
  if text.length % 4 = 1 then
    match text.getLast? with
    | some last =>
      if isLetter last || last = pad then .error .invalidLength
      else .error (.invalidByte last (text.length - 1))
    | none => .error .invalidLength
  else if paddingFits letters.length rest then
    let (bytes, clean) := pack (letters.filterMap letterValue?)
    if clean then .ok bytes
    else .error (.invalidLastLetter (letters.getLast?.getD 0) (letters.length - 1))
  else .error (.invalidByte (rest.headD 0) letters.length)

end LedgerWire.Base64

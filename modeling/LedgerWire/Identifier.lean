import LedgerWire.Json.Codec

/-!
Identifiers of a fixed number of bytes, such as account addresses and object ids. They are read
from hex text of any length up to their width, with or without a prefix, and stand at the right end
of their bytes; the full form shows every digit and the short form starts at the first that counts.
-/

namespace LedgerWire

structure Identifier (width : Nat) where
  bytes : Bytes
  length_eq : bytes.length = width
  deriving DecidableEq

namespace Identifier

variable {width : Nat}

inductive Fault
  | notHex (text : String) (fault : Hex.Fault)
  | notText (fault : Utf8.Fault)
  | tooLong (limit length : Nat)
  deriving DecidableEq, Repr

def Fault.message : Fault → String
  | .notHex text fault =>
    "invalid hex string: " ++ Quoted.quoteText text ++ ": Invalid character " ++
      Quoted.quoteChar (Char.ofNat fault.byte.toNat) ++ " at position " ++ toString fault.position
  | .notText fault => "invalid hex string: " ++ fault.message
  | .tooLong limit length =>
    "hex string is too long: identifier is " ++ toString limit ++ " bytes, got " ++ toString length

def zero (width : Nat) : Identifier width := ⟨List.replicate width 0, List.length_replicate⟩

def isZero (identifier : Identifier width) : Bool := identifier.bytes.all (· = 0)

/-- The text after one prefix, `0x` or `0X`. -/
def withoutPrefix : Bytes → Bytes
  | 0x30 :: 0x78 :: digits => digits
  | 0x30 :: 0x58 :: digits => digits
  | digits => digits

def pairedDigits (text : String) : Bytes :=
  let digits := withoutPrefix (Utf8.encode text)
  if digits.length % 2 = 1 then 0x30 :: digits else digits

def ofBytes? (bytes : Bytes) : Option (Identifier width) :=
  if fits : bytes.length ≤ width then
    some ⟨List.replicate (width - bytes.length) 0 ++ bytes, by simp; omega⟩
  else none

/-- Digits are looked at before the length is, and zeros at the left count for the length. -/
def ofHex (text : String) : Except Fault (Identifier width) :=
  match Hex.decode (pairedDigits text) with
  | .error fault => .error (.notHex text fault)
  | .ok bytes =>
    match ofBytes? bytes with
    | some identifier => .ok identifier
    | none => .error (.tooLong width bytes.length)

def digits (identifier : Identifier width) : Bytes := Hex.encode identifier.bytes

def fullText (identifier : Identifier width) : String := "0x" ++ Ascii.text identifier.digits

def shortText (identifier : Identifier width) : String :=
  match identifier.digits.dropWhile (· = 0x30) with
  | [] => "0x0"
  | digits => "0x" ++ Ascii.text digits

def labelledText (identifier : Identifier width) : String :=
  "FixedBytes(" ++ identifier.shortText ++ ")"

def bytesLe : Bytes → Bytes → Bool
  | [], _ => true
  | _ :: _, [] => false
  | left :: lefts, right :: rights =>
    left < right || (left = right && bytesLe lefts rights)

def le (left right : Identifier width) : Bool := bytesLe left.bytes right.bytes

def dropRepeats : List (Identifier width) → List (Identifier width)
  | [] => []
  | [only] => [only]
  | first :: second :: rest =>
    if first = second then dropRepeats (second :: rest) else first :: dropRepeats (second :: rest)

def sortDistinct (identifiers : List (Identifier width)) : List (Identifier width) :=
  dropRepeats (identifiers.mergeSort le)

def looseForm (text : String) : List Char :=
  let rest := match text.toList with
    | '0' :: 'x' :: rest => rest
    | rest => rest
  rest.dropWhile (· = '0')

/-- Compares texts without looking at what they hold, a lowercase prefix and zeros apart. -/
def looselyEqual (left right : String) : Bool := looseForm left = looseForm right

def codec (width : Nat) : Json.Codec (Identifier width) :=
  .ofString ("a hex string of at most " ++ toString width ++ " bytes") fullText fun text =>
    (ofHex text).mapError Fault.message

end Identifier

def addressWidth : Nat := 32

abbrev Address := Identifier addressWidth
abbrev ObjectId := Identifier addressWidth

namespace Address

def codec : Json.Codec Address := Identifier.codec addressWidth

end Address

end LedgerWire

/-!
Bytes read as UTF-8. A byte sequence falls into characters, broken stretches and at most one
character cut off by the end of the input; strict decoding reports the first fault, lenient
decoding puts a replacement character in the place of each.
-/

namespace LedgerWire

abbrev Bytes := List UInt8

namespace Utf8

/-- One character, `width` bytes that no character starts with, or a cut-off character. -/
inductive Segment
  | char (value : Char)
  | broken (width : Nat)
  | cut
  deriving DecidableEq, Repr

def isTail (byte : UInt8) : Bool := 0x80 ≤ byte && byte ≤ 0xBF

def isSecond (first second : UInt8) : Bool :=
  if first = 0xE0 then 0xA0 ≤ second && second ≤ 0xBF
  else if first = 0xED then 0x80 ≤ second && second ≤ 0x9F
  else if first = 0xF0 then 0x90 ≤ second && second ≤ 0xBF
  else if first = 0xF4 then 0x80 ≤ second && second ≤ 0x8F
  else isTail second

def joinTwo (first second : UInt8) : Char :=
  Char.ofNat (first.toNat % 32 * 64 + second.toNat % 64)

def joinThree (first second third : UInt8) : Char :=
  Char.ofNat (first.toNat % 16 * 4096 + second.toNat % 64 * 64 + third.toNat % 64)

def joinFour (first second third fourth : UInt8) : Char :=
  Char.ofNat (first.toNat % 8 * 262144 + second.toNat % 64 * 4096 + third.toNat % 64 * 64 +
    fourth.toNat % 64)

def segmentAt (first : UInt8) (rest : Bytes) : Segment :=
  if first < 0x80 then .char (Char.ofNat first.toNat)
  else if 0xC2 ≤ first && first ≤ 0xDF then
    match rest with
    | [] => .cut
    | second :: _ => if isTail second then .char (joinTwo first second) else .broken 1
  else if 0xE0 ≤ first && first ≤ 0xEF then
    match rest with
    | [] => .cut
    | second :: rest =>
      if isSecond first second then
        match rest with
        | [] => .cut
        | third :: _ => if isTail third then .char (joinThree first second third) else .broken 2
      else .broken 1
  else if 0xF0 ≤ first && first ≤ 0xF4 then
    match rest with
    | [] => .cut
    | second :: rest =>
      if isSecond first second then
        match rest with
        | [] => .cut
        | third :: rest =>
          if isTail third then
            match rest with
            | [] => .cut
            | fourth :: _ =>
              if isTail fourth then .char (joinFour first second third fourth) else .broken 3
          else .broken 2
      else .broken 1
  else .broken 1

def encodeChar (value : Char) : Bytes :=
  let code := value.toNat
  if code < 0x80 then [code.toUInt8]
  else if code < 0x800 then [(0xC0 + code / 64).toUInt8, (0x80 + code % 64).toUInt8]
  else if code < 0x10000 then
    [(0xE0 + code / 4096).toUInt8, (0x80 + code / 64 % 64).toUInt8, (0x80 + code % 64).toUInt8]
  else
    [(0xF0 + code / 262144).toUInt8, (0x80 + code / 4096 % 64).toUInt8,
      (0x80 + code / 64 % 64).toUInt8, (0x80 + code % 64).toUInt8]

def Segment.width : Segment → Nat
  | .char value => (encodeChar value).length
  | .broken width => width
  | .cut => 3

def segmentsAfter (skip : Nat) : Bytes → List Segment
  | [] => []
  | first :: rest =>
    match skip with
    | skip + 1 => segmentsAfter skip rest
    | 0 =>
      let segment := segmentAt first rest
      segment :: segmentsAfter (segment.width - 1) rest

def segments (bytes : Bytes) : List Segment := segmentsAfter 0 bytes

def encodeChars (text : List Char) : Bytes := text.flatMap encodeChar

def encode (text : String) : Bytes := encodeChars text.toList

inductive Fault
  | broken (width offset : Nat)
  | cut (offset : Nat)
  deriving DecidableEq, Repr

def Fault.message : Fault → String
  | .broken width offset =>
    "invalid utf-8 sequence of " ++ toString width ++ " bytes from index " ++ toString offset
  | .cut offset => "incomplete utf-8 byte sequence from index " ++ toString offset

def collect (offset : Nat) : List Segment → Except Fault (List Char)
  | [] => .ok []
  | .char value :: rest =>
    match collect (offset + (encodeChar value).length) rest with
    | .ok text => .ok (value :: text)
    | .error fault => .error fault
  | .broken width :: _ => .error (.broken width offset)
  | .cut :: _ => .error (.cut offset)

def decodeChars (bytes : Bytes) : Except Fault (List Char) := collect 0 (segments bytes)

def decode (bytes : Bytes) : Except Fault String := (decodeChars bytes).map String.ofList

def Segment.shown : Segment → Char
  | .char value => value
  | _ => '\uFFFD'

/-- Every fault becomes one replacement character. -/
def decodeLenient (bytes : Bytes) : String := String.ofList ((segments bytes).map Segment.shown)

end Utf8
end LedgerWire

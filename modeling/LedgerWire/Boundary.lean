import LedgerWire.Config
import LedgerWire.Owner
import LedgerWire.Validation

/-!
Where payloads come in from the transport and go out to it. Everything decoded here is told to the
log, and a failure is passed on as it is.
-/

namespace LedgerWire

open Json

inductive LogLevel
  | debug
  | trace
  deriving DecidableEq, Repr

inductive BoundaryFault
  | decode (fault : DecodeFault)
  | transaction (defect : Defect)
  | json (fault : Json.Fault)
  | config (fault : ConfigFault)
  | logging (fault : LoggingFault)

def BoundaryFault.decodeFault? : BoundaryFault → Option DecodeFault
  | .decode fault | .transaction (.undecodable fault) => some fault
  | _ => none

/-- An event for the log, with the size of the payload, the sender, and what went wrong, where it
has them. A codec has no name, so that an event about one names no target. -/
structure LogEvent where
  level : LogLevel
  message : String
  target : Option String
  size : Option Nat
  sender : Option String
  fault : Option BoundaryFault

structure Logged (α : Type) where
  outcome : Except BoundaryFault α
  events : List LogEvent

namespace Boundary

variable {α : Type}

def decoded (target : Option String) (bytes : Bytes) : LogEvent :=
  ⟨.trace, "decoded payload", target, some bytes.length, none, none⟩

def undecoded (target : Option String) (bytes : Bytes) (fault : BoundaryFault) : LogEvent :=
  ⟨.debug, "failed to decode payload", target, some bytes.length, none, some fault⟩

def unencoded (fault : BoundaryFault) : LogEvent :=
  ⟨.debug, "failed to encode payload", none, none, none, some fault⟩

def rejected (data : SignedData) (defect : Defect) : LogEvent :=
  ⟨.debug, "rejected transaction data", none, none, some data.sender.shortText,
    some (.transaction defect)⟩

def decode (codec : Codec α) (bytes : Bytes) : Logged α :=
  match codec.decode bytes with
  | .ok value => ⟨.ok value, [decoded none bytes]⟩
  | .error fault => ⟨.error (.json fault), [undecoded none bytes (.json fault)]⟩

def encode (codec : Codec α) (value : α) : Logged Bytes := ⟨.ok (codec.encode value), []⟩

/-- Keys that are no texts leave nothing to write unless there are none. -/
def encodeKeyedByBytes (entries : List (Bytes × Value)) : Logged Bytes :=
  if entries.isEmpty then ⟨.ok (Value.record []).bytes, []⟩
  else ⟨.error (.json .malformed), [unencoded (.json .malformed)]⟩

def logged (target : String) (bytes : Bytes) (outcome : Except DecodeFault α) : Logged α :=
  match outcome with
  | .ok value => ⟨.ok value, [decoded (some target) bytes]⟩
  | .error fault => ⟨.error (.decode fault), [undecoded (some target) bytes (.decode fault)]⟩

def decodeOwner (bytes : Bytes) : Logged Owner := logged "ObjectOwner" bytes (Owner.ofBytes bytes)

def decodeOperation (bytes : Bytes) : Logged Operation :=
  logged "TransactionKind" bytes (Operation.ofBytes bytes)

/-- An address between quotes or bare. -/
def addressOfBytes (bytes : Bytes) : Except DecodeFault Address :=
  let trimmed := Ascii.trim bytes
  if trimmed.head? = some quote then do
    let text ← asDecoded (Codec.string.decode trimmed)
    (Identifier.ofHex text).mapError .identifier
  else
    match Utf8.decode trimmed with
    | .ok text => (Identifier.ofHex text).mapError .identifier
    | .error fault => .error (.identifier (.notText fault))

def decodeAddress (bytes : Bytes) : Logged Address := logged "Address" bytes (addressOfBytes bytes)

def decodeSignedData (bytes : Bytes) : Logged SignedData :=
  let read := logged "SenderSignedData" bytes (SignedData.ofBytes bytes)
  match read.outcome with
  | .error fault => ⟨.error fault, read.events⟩
  | .ok data =>
    match data.check with
    | .ok () => read
    | .error defect => ⟨.error (.transaction defect), read.events ++ [rejected data defect]⟩

end Boundary

end LedgerWire

import LedgerWire.DecodeFault
import LedgerWire.Json.Union
import LedgerWire.ObjectRef

/-!
Who owns an object. An owner is a bare name or a rule, told apart by the shape of the value alone.
-/

namespace LedgerWire

open Json

inductive OwnerRule
  | addressOwner (address : Address)
  | objectOwner (address : Address)
  | shared (since : Version)
  deriving DecidableEq

namespace OwnerRule

def sharedFields : Fields Version := .required "initial_shared_version" Version.codec

def sharedName : String := "struct variant OwnerRecord::Shared"

def toValue : OwnerRule → Value
  | .addressOwner address => .record [("AddressOwner", Address.codec.toValue address)]
  | .objectOwner address => .record [("ObjectOwner", Address.codec.toValue address)]
  | .shared since => .record [("Shared", sharedFields.toValue since)]

def arms (shared : Arm OwnerRule) : List (Arm OwnerRule) :=
  [.holding "AddressOwner" Address.codec .addressOwner,
    .holding "ObjectOwner" Address.codec .objectOwner, shared]

def codec : Codec OwnerRule := .union toValue (arms (.withFields "Shared" sharedName sharedFields .shared))

/-- The arms of a rule that has been seen to be a record. -/
def memberArms : List (Arm OwnerRule) := arms (.withMembers "Shared" sharedName sharedFields .shared)

end OwnerRule

inductive Owner
  | named (name : String)
  | ruled (rule : OwnerRule)
  deriving DecidableEq

namespace Owner

def immutableName : String := "Immutable"

def address? : Owner → Option Address
  | .ruled (.addressOwner address) | .ruled (.objectOwner address) => some address
  | _ => none

def isShared : Owner → Bool
  | .ruled (.shared _) => true
  | _ => false

def isImmutable : Owner → Bool
  | .named text => text = immutableName
  | .ruled _ => false

def toValue : Owner → Value
  | .named text => .text text
  | .ruled rule => rule.toValue

def expected : String := "an owner string or an owner object"

def readRule (depth : Nat) : Reader Owner := fun bytes => do
  match ← nextEntry closeRecord true bytes with
  | .finished _ => wrongType "enum" .record
  | .entry rest =>
    let (name, rest) ← readKey rest
    let arm ← Arm.named OwnerRule.memberArms name
    let rest ← readColon rest
    let (rule, rest) ← arm.contentOfText depth rest
    let rest ← endOfRecord rest
    .ok (.ruled rule, rest)

def ruleOfMembers : Members → Except Fault Owner
  | [] => wrongType "enum" .record
  | (name, content) :: others => do
    let arm ← Arm.named OwnerRule.memberArms name
    let rule ← arm.contentOfValue content
    if others.isEmpty then .ok (.ruled rule)
    else .error (.mismatch (.wrongLength (others.length + 1) "fewer elements in map"))

def codec : Codec Owner where
  toValue := toValue
  ofText depth bytes := do
    let (found, rest) ← readFound bytes
    match found, depth with
    | .text text, _ => .ok (.named text, rest)
    | .record, 0 => .error .malformed
    | .record, depth + 1 => readRule depth rest
    | found, _ => wrongType expected found
  ofValue
    | .text text => .ok (.named text)
    | .record members => ruleOfMembers members
    | value => wrongType expected value.found

def previewSize : Nat := 32

def preview (bytes : Bytes) : String :=
  let text := Utf8.decodeLenient (bytes.take previewSize)
  if previewSize < bytes.length then text ++ "..." else text

/-- Decides by the first byte that is no blank. -/
def ofBytes (bytes : Bytes) : Except DecodeFault Owner :=
  match bytes.find? fun byte => !Ascii.isSpace byte with
  | some 0x22 => asDecoded ((Codec.string.decode bytes).map .named)
  | some 0x7B => asDecoded ((OwnerRule.codec.decode bytes).map .ruled)
  | _ => .error (.unrecognizedShape (preview bytes))

def toBytes (owner : Owner) : Bytes := owner.toValue.bytes

end Owner

/-- An owner being put together, with a place for each shape. The name counts if both are set. -/
structure OwnerDraft where
  name : Option String
  rule : Option OwnerRule
  deriving DecidableEq

namespace OwnerDraft

def empty : OwnerDraft := ⟨none, none⟩

def toBytes (draft : OwnerDraft) : Except DecodeFault Bytes :=
  match draft.name with
  | some text => .ok (Codec.string.encode text)
  | none =>
    match draft.rule with
    | some rule => .ok (OwnerRule.codec.encode rule)
    | none => .error .emptyUnion

def toOwner (draft : OwnerDraft) : Except DecodeFault Owner :=
  match draft.name, draft.rule with
  | some text, _ => .ok (.named text)
  | none, some rule => .ok (.ruled rule)
  | none, none => .error .emptyUnion

def ofOwner : Owner → OwnerDraft
  | .named text => ⟨some text, none⟩
  | .ruled rule => ⟨none, some rule⟩

end OwnerDraft

end LedgerWire

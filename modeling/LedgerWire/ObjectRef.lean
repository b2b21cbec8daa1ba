import LedgerWire.Decimal.Natural
import LedgerWire.Identifier
import LedgerWire.Json.Record
import LedgerWire.Payload

/-!
References to one version of an object. Versions and epochs are counters: they are read from a
number or from a decimal text, and written as a number.
-/

namespace LedgerWire

namespace Counter

def ofText? (text : String) : Option UInt64 :=
  let digits := Decimal.withoutPlus text.toList
  if Decimal.isNatural digits && Decimal.valueOf digits < 0x10000000000000000 then
    some (Decimal.valueOf digits).toUInt64
  else none

def refuse (text : String) : Except Json.Fault UInt64 := Json.Codec.refuse ("invalid number: " ++ text)

def visit : Json.Found → Except Json.Fault UInt64
  | .number (.whole value _) =>
    if value < 0 then refuse (toString value) else .ok value.toNat.toUInt64
  | .text text =>
    match ofText? text with
    | some value => .ok value
    | none => refuse text
  | found => Json.wrongType "an unsigned integer or a decimal string" found

def codec : Json.Codec UInt64 := .scalar (fun value => .number (Json.ofNatural value)) visit

end Counter

structure Version where
  number : UInt64
  deriving DecidableEq

namespace Version

def least : Version := ⟨0⟩

def codec : Json.Codec Version := Counter.codec.refine Version.number fun number => .ok ⟨number⟩

end Version

structure ObjectRef where
  id : ObjectId
  version : Version
  digest : Payload
  deriving DecidableEq

namespace ObjectRef

open Json

/-- The fields, where it is given how identifiers are read. -/
def fieldsOver (identifier : Codec Address) : Fields ObjectRef :=
  (Fields.both (.required "objectId" identifier)
    (.both (.required "version" Version.codec) (.required "digest" Payload.codec))).as
  (fun (id, version, digest) => ⟨id, version, digest⟩)
  (fun object => (object.id, object.version, object.digest))

def codecOver (identifier : Codec Address) : Codec ObjectRef :=
  .record "struct ObjectRef" (fieldsOver identifier)

def fields : Fields ObjectRef := fieldsOver Address.codec
def codec : Codec ObjectRef := codecOver Address.codec

end ObjectRef

end LedgerWire

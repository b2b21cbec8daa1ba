import LedgerWire.Operation

/-!
Transaction data as the sender signs it. It can be read in one pass, or in two: the second pass
decodes operations and identifiers, so that these fail in their own words.
-/

namespace LedgerWire

open Json

structure SignedData where
  operations : List Operation
  sender : Address
  gas : ObjectRef
  budget : UInt64

namespace SignedData

def otherFields : Fields (Address × ObjectRef × UInt64) :=
  .both (.required "sender" Address.codec)
    (.both (.required "gasPayment" ObjectRef.codec) (.required "gasBudget" .natural))

/-- The fields, where it is given how operations are read. -/
def fieldsOver (operation : Codec Operation) : Fields SignedData :=
  (Fields.both (.optionalList "transactions" operation) otherFields).as
  (fun (operations, sender, gas, budget) => ⟨operations, sender, gas, budget⟩)
  (fun data => (data.operations, data.sender, data.gas, data.budget))

def codecOver (operation : Codec Operation) : Codec SignedData :=
  .record "struct SenderSignedData" (fieldsOver operation)

def fields : Fields SignedData := fieldsOver Operation.codec
def codec : Codec SignedData := codecOver Operation.codec

def toBytes (data : SignedData) : Bytes := codec.encode data

def isSingle (data : SignedData) : Bool := data.operations.length = 1

def inputs (data : SignedData) : List ObjectRef := data.operations.flatMap Operation.inputs ++ [data.gas]

end SignedData

structure ObjectRefDraft where
  id : String
  version : Version
  digest : String

namespace ObjectRefDraft

def fields : Fields ObjectRefDraft :=
  (Fields.both (.required "objectId" .string)
    (.both (.required "version" Version.codec) (.required "digest" .string))).as
  (fun (id, version, digest) => ⟨id, version, digest⟩)
  (fun draft => (draft.id, draft.version, draft.digest))

def codec : Codec ObjectRefDraft := .record "struct ObjectRefWire" fields

def toObjectRef (draft : ObjectRefDraft) : Except DecodeFault ObjectRef := do
  let id ← (Identifier.ofHex draft.id).mapError .identifier
  let digest ← (Payload.ofText draft.digest).mapError .payload
  .ok ⟨id, draft.version, digest⟩

end ObjectRefDraft

/-- Signed data after the first pass. -/
structure SignedDraft where
  operations : List FreeForm
  sender : String
  gas : ObjectRefDraft
  budget : UInt64

namespace SignedDraft

def fields : Fields SignedDraft :=
  (Fields.both (.optionalList "transactions" Codec.freeForm)
    (.both (.required "sender" .string)
      (.both (.required "gasPayment" ObjectRefDraft.codec) (.required "gasBudget" .natural)))).as
  (fun (operations, sender, gas, budget) => ⟨operations, sender, gas, budget⟩)
  (fun draft => (draft.operations, draft.sender, draft.gas, draft.budget))

def codec : Codec SignedDraft := .record "struct SenderSignedDataWire" fields

def toOperation (form : FreeForm) : Except DecodeFault Operation := do
  Operation.ofRecord (← asDecoded (OperationRecord.codec.ofValue form.value))

/-- The second pass: the operations in their order, then the sender, then the gas object. -/
def toSignedData (draft : SignedDraft) : Except DecodeFault SignedData := do
  let operations ← draft.operations.mapM toOperation
  let sender ← (Identifier.ofHex draft.sender).mapError .identifier
  let gas ← draft.gas.toObjectRef
  .ok ⟨operations, sender, gas, draft.budget⟩

end SignedDraft

def SignedData.ofBytes (bytes : Bytes) : Except DecodeFault SignedData := do
  (← asDecoded (SignedDraft.codec.decode bytes)).toSignedData

structure BuiltTransaction where
  gas : List ObjectRef
  inputs : List FreeRecord
  bytes : Payload

namespace BuiltTransaction

def fields : Fields BuiltTransaction :=
  (Fields.both (.required "gas" ObjectRef.codec.list)
    (.both (.required "inputObjects" Codec.freeRecord.list) (.required "txBytes" Payload.codec))).as
  (fun (gas, inputs, bytes) => ⟨gas, inputs, bytes⟩)
  (fun built => (built.gas, built.inputs, built.bytes))

def codec : Codec BuiltTransaction := .record "struct TransactionBytes" fields

end BuiltTransaction

end LedgerWire

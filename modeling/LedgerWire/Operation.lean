import LedgerWire.DecodeFault
import LedgerWire.Operation.Content

/-!
Operations of a transaction. On the wire an operation is a record with one optional field for each
kind, of which exactly one is filled.
-/

namespace LedgerWire

open Json

inductive Operation
  | transferObject (transfer : ObjectTransfer)
  | publish (publication : Publication)
  | call (call : FunctionCall)
  | transferNative (transfer : CoinTransfer)
  | changeEpoch (change : EpochChange)
  | payNative (payment : Payment)
  | pay (payment : Payment)
  | payAllNative (sweep : Sweep)

/-- A field for each kind of operation. A key that is missing and one that holds null are alike. -/
structure OperationRecord where
  transferObject : Option ObjectTransfer
  publish : Option Publication
  call : Option FunctionCall
  transferNative : Option CoinTransfer
  changeEpoch : Option EpochChange
  payNative : Option Payment
  pay : Option Payment
  payAllNative : Option Sweep

namespace OperationRecord

def empty : OperationRecord := ⟨none, none, none, none, none, none, none, none⟩

def populated (record : OperationRecord) : Nat :=
  [record.transferObject.isSome, record.publish.isSome, record.call.isSome,
    record.transferNative.isSome, record.changeEpoch.isSome, record.payNative.isSome,
    record.pay.isSome, record.payAllNative.isSome].count true

def fieldsOver (identifier : Codec Address) : Fields OperationRecord :=
  (Fields.both (.optional "TransferObject" (ObjectTransfer.codecOver identifier))
    (.both (.optional "Publish" Publication.codec)
      (.both (.optional "Call" (FunctionCall.codecOver identifier))
        (.both (.optional "TransferSui" (CoinTransfer.codecOver identifier))
          (.both (.optional "ChangeEpoch" EpochChange.codec)
            (.both (.optional "PaySui" (Payment.ofNativeCoinsOver identifier))
              (.both (.optional "Pay" (Payment.ofCoinsOver identifier))
                (.optional "PayAllSui" (Sweep.codecOver identifier))))))))).as
  (fun (transferObject, publish, call, transferNative, changeEpoch, payNative, pay, payAllNative) =>
    ⟨transferObject, publish, call, transferNative, changeEpoch, payNative, pay, payAllNative⟩)
  (fun record =>
    (record.transferObject, record.publish, record.call, record.transferNative, record.changeEpoch,
      record.payNative, record.pay, record.payAllNative))

def codecOver (identifier : Codec Address) : Codec OperationRecord :=
  .record "struct SparseTransactionKind" (fieldsOver identifier)

def fields : Fields OperationRecord := fieldsOver Address.codec
def codec : Codec OperationRecord := codecOver Address.codec

def firstFilled? (record : OperationRecord) : Option Operation :=
  match record with
  | ⟨some transfer, _, _, _, _, _, _, _⟩ => some (.transferObject transfer)
  | ⟨_, some publication, _, _, _, _, _, _⟩ => some (.publish publication)
  | ⟨_, _, some call, _, _, _, _, _⟩ => some (.call call)
  | ⟨_, _, _, some transfer, _, _, _, _⟩ => some (.transferNative transfer)
  | ⟨_, _, _, _, some change, _, _, _⟩ => some (.changeEpoch change)
  | ⟨_, _, _, _, _, some payment, _, _⟩ => some (.payNative payment)
  | ⟨_, _, _, _, _, _, some payment, _⟩ => some (.pay payment)
  | ⟨_, _, _, _, _, _, _, some sweep⟩ => some (.payAllNative sweep)
  | _ => none

/-- The operation of a record with one field filled; otherwise how many are. -/
def toOperation (record : OperationRecord) : Except Nat Operation :=
  if record.populated ≠ 1 then .error record.populated
  else
    match record.firstFilled? with
    | some operation => .ok operation
    | none => .error 0

end OperationRecord

namespace Operation

def toRecord : Operation → OperationRecord
  | .transferObject transfer => { OperationRecord.empty with transferObject := some transfer }
  | .publish publication => { OperationRecord.empty with publish := some publication }
  | .call calling => { OperationRecord.empty with call := some calling }
  | .transferNative transfer => { OperationRecord.empty with transferNative := some transfer }
  | .changeEpoch change => { OperationRecord.empty with changeEpoch := some change }
  | .payNative payment => { OperationRecord.empty with payNative := some payment }
  | .pay payment => { OperationRecord.empty with pay := some payment }
  | .payAllNative sweep => { OperationRecord.empty with payAllNative := some sweep }

def codec : Codec Operation :=
  OperationRecord.codec.refine toRecord fun record => record.toOperation.mapError armCountMessage

def name : Operation → String
  | .transferObject _ => "TransferObject"
  | .publish _ => "Publish"
  | .call _ => "Call"
  | .transferNative _ => "TransferSui"
  | .changeEpoch _ => "ChangeEpoch"
  | .payNative _ => "PaySui"
  | .pay _ => "Pay"
  | .payAllNative _ => "PayAllSui"

def text : Operation → String
  | .call calling => "Call(" ++ calling.target ++ ")"
  | operation => operation.name

def recipients : Operation → List Address
  | .transferObject transfer => [transfer.recipient]
  | .transferNative transfer => [transfer.recipient]
  | .pay payment | .payNative payment => payment.recipients
  | .payAllNative sweep => [sweep.recipient]
  | .publish _ | .call _ | .changeEpoch _ => []

def inputs : Operation → List ObjectRef
  | .transferObject transfer => [transfer.object]
  | .pay payment | .payNative payment => payment.coins
  | .payAllNative sweep => sweep.coins
  | .publish _ | .call _ | .transferNative _ | .changeEpoch _ => []

def isSystem : Operation → Bool
  | .changeEpoch _ => true
  | _ => false

def ofRecord (record : OperationRecord) : Except DecodeFault Operation :=
  record.toOperation.mapError .armCount

/-- The whole text is read before the filled fields are counted. -/
def ofBytes (bytes : Bytes) : Except DecodeFault Operation := do
  ofRecord (← asDecoded (OperationRecord.codec.decode bytes))

def toBytes (operation : Operation) : Bytes := codec.encode operation

end Operation

end LedgerWire

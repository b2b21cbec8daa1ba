import LedgerWire.Config
import LedgerWire.Owner
import LedgerWire.SignedData
import LedgerWire.TimeRange

/-!
The types whose values travel on their own, each with its codec.
-/

namespace LedgerWire

open Json

/-- Coin payments and native payments hold the same and differ in what messages call them. -/
inductive WireType
  | identifier (width : Nat)
  | payload
  | version
  | objectRef
  | ownerRule
  | owner
  | network
  | timeRange
  | moduleName
  | objectTransfer
  | publication
  | functionCall
  | coinTransfer
  | epochChange
  | coinPayment
  | nativePayment
  | sweep
  | operationRecord
  | operation
  | signedData
  | builtTransaction
  | clientConfig
  | logFormat
  deriving DecidableEq, Repr

namespace WireType

abbrev Carrier : WireType → Type
  | .identifier width => Identifier width
  | .payload => Payload
  | .version => Version
  | .objectRef => ObjectRef
  | .ownerRule => OwnerRule
  | .owner => Owner
  | .network => Network
  | .timeRange => TimeRange
  | .moduleName => ModuleName
  | .objectTransfer => ObjectTransfer
  | .publication => Publication
  | .functionCall => FunctionCall
  | .coinTransfer => CoinTransfer
  | .epochChange => EpochChange
  | .coinPayment | .nativePayment => Payment
  | .sweep => Sweep
  | .operationRecord => OperationRecord
  | .operation => Operation
  | .signedData => SignedData
  | .builtTransaction => BuiltTransaction
  | .clientConfig => ClientConfig
  | .logFormat => LogFormat

def codec : (wireType : WireType) → Codec wireType.Carrier
  | .identifier width => Identifier.codec width
  | .payload => Payload.codec
  | .version => Version.codec
  | .objectRef => ObjectRef.codec
  | .ownerRule => OwnerRule.codec
  | .owner => Owner.codec
  | .network => Network.codec
  | .timeRange => TimeRange.codec
  | .moduleName => ModuleName.codec
  | .objectTransfer => ObjectTransfer.codec
  | .publication => Publication.codec
  | .functionCall => FunctionCall.codec
  | .coinTransfer => CoinTransfer.codec
  | .epochChange => EpochChange.codec
  | .coinPayment => Payment.ofCoins
  | .nativePayment => Payment.ofNativeCoins
  | .sweep => Sweep.codec
  | .operationRecord => OperationRecord.codec
  | .operation => Operation.codec
  | .signedData => SignedData.codec
  | .builtTransaction => BuiltTransaction.codec
  | .clientConfig => ClientConfig.codec
  | .logFormat => LogFormat.codec

end WireType

end LedgerWire

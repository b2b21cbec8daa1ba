import LedgerWire.ModuleName
import LedgerWire.ObjectRef

/-!
What the operations of a transaction carry.
-/

namespace LedgerWire

open Json

structure ObjectTransfer where
  recipient : Address
  object : ObjectRef
  deriving DecidableEq

namespace ObjectTransfer

def fieldsOver (identifier : Codec Address) : Fields ObjectTransfer :=
  (Fields.both (.required "recipient" identifier)
    (.required "object_ref" (ObjectRef.codecOver identifier))).as
  (fun (recipient, object) => ⟨recipient, object⟩)
  (fun transfer => (transfer.recipient, transfer.object))

def codecOver (identifier : Codec Address) : Codec ObjectTransfer :=
  .record "struct TransferObject" (fieldsOver identifier)

def fields : Fields ObjectTransfer := fieldsOver Address.codec
def codec : Codec ObjectTransfer := codecOver Address.codec

end ObjectTransfer

structure Publication where
  modules : List Payload
  deriving DecidableEq

namespace Publication

def bytecodeSize (publication : Publication) : Nat := (publication.modules.map Payload.size).foldr (· + ·) 0

def fields : Fields Publication :=
  (Fields.required "modules" Payload.codec.list).as Publication.mk Publication.modules

def codec : Codec Publication := .record "struct ModulePublish" fields

end Publication

/-- A call of a function in a published module. What the arguments look like is for the function
to say. -/
structure FunctionCall where
  package : ObjectId
  module : String
  function : String
  typeArguments : List FreeForm
  arguments : List FreeForm

namespace FunctionCall

def moduleName (call : FunctionCall) : ModuleName := ⟨call.package, call.module⟩

def target (call : FunctionCall) : String := call.moduleName.text ++ "::" ++ call.function

def fieldsOver (identifier : Codec Address) : Fields FunctionCall :=
  (Fields.both (.required "package" identifier)
    (.both (.required "module" .string)
      (.both (.required "function" .string)
        (.both (.withDefault "typeArguments" Codec.freeForm.list [])
          (.withDefault "arguments" Codec.freeForm.list []))))).as
  (fun (package, module, function, typeArguments, arguments) =>
    ⟨package, module, function, typeArguments, arguments⟩)
  (fun call => (call.package, call.module, call.function, call.typeArguments, call.arguments))

def codecOver (identifier : Codec Address) : Codec FunctionCall :=
  .record "struct MoveCall" (fieldsOver identifier)

def fields : Fields FunctionCall := fieldsOver Address.codec
def codec : Codec FunctionCall := codecOver Address.codec

end FunctionCall

structure CoinTransfer where
  recipient : Address
  amount : UInt64
  deriving DecidableEq

namespace CoinTransfer

def fieldsOver (identifier : Codec Address) : Fields CoinTransfer :=
  (Fields.both (.required "recipient" identifier) (.required "amount" .natural)).as
  (fun (recipient, amount) => ⟨recipient, amount⟩)
  (fun transfer => (transfer.recipient, transfer.amount))

def codecOver (identifier : Codec Address) : Codec CoinTransfer :=
  .record "struct TransferSui" (fieldsOver identifier)

def fields : Fields CoinTransfer := fieldsOver Address.codec
def codec : Codec CoinTransfer := codecOver Address.codec

end CoinTransfer

structure EpochChange where
  epoch : UInt64
  storageCharge : UInt64
  computationCharge : UInt64
  deriving DecidableEq

namespace EpochChange

def fields : Fields EpochChange :=
  (Fields.both (.required "epoch" Counter.codec)
    (.both (.required "storage_charge" .natural) (.required "computation_charge" .natural))).as
  (fun (epoch, storage, computation) => ⟨epoch, storage, computation⟩)
  (fun change => (change.epoch, change.storageCharge, change.computationCharge))

def codec : Codec EpochChange := .record "struct ChangeEpoch" fields

end EpochChange

/-- Coins that are split so that every recipient gets the amount in the same place. -/
structure Payment where
  coins : List ObjectRef
  recipients : List Address
  amounts : List UInt64
  deriving DecidableEq

namespace Payment

def total? (payment : Payment) : Option UInt64 :=
  payment.amounts.foldlM
    (fun sum amount =>
      if sum.toNat + amount.toNat < 0x10000000000000000 then some (sum + amount) else none) 0

def fieldsOver (identifier : Codec Address) : Fields Payment :=
  (Fields.both (.required "coins" (ObjectRef.codecOver identifier).list)
    (.both (.required "recipients" identifier.list) (.required "amounts" Codec.natural.list))).as
  (fun (coins, recipients, amounts) => ⟨coins, recipients, amounts⟩)
  (fun payment => (payment.coins, payment.recipients, payment.amounts))

/-- Payments of one coin type and of the native coin differ in what messages call them. -/
def codecOver (expected : String) (identifier : Codec Address) : Codec Payment :=
  .record expected (fieldsOver identifier)

def ofCoinsOver : Codec Address → Codec Payment := codecOver "struct Pay"
def ofNativeCoinsOver : Codec Address → Codec Payment := codecOver "struct PaySui"

def fields : Fields Payment := fieldsOver Address.codec
def codec (expected : String) : Codec Payment := codecOver expected Address.codec
def ofCoins : Codec Payment := ofCoinsOver Address.codec
def ofNativeCoins : Codec Payment := ofNativeCoinsOver Address.codec

end Payment

structure Sweep where
  coins : List ObjectRef
  recipient : Address
  deriving DecidableEq

namespace Sweep

def fieldsOver (identifier : Codec Address) : Fields Sweep :=
  (Fields.both (.required "coins" (ObjectRef.codecOver identifier).list)
    (.required "recipient" identifier)).as
  (fun (coins, recipient) => ⟨coins, recipient⟩) (fun sweep => (sweep.coins, sweep.recipient))

def codecOver (identifier : Codec Address) : Codec Sweep :=
  .record "struct PayAllSui" (fieldsOver identifier)

def fields : Fields Sweep := fieldsOver Address.codec
def codec : Codec Sweep := codecOver Address.codec

end Sweep

end LedgerWire

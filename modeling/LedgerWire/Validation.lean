import LedgerWire.SignedData

/-!
What can be said against a transaction from its own data alone. Who owns the objects and what the
gas costs is for the node to check.
-/

namespace LedgerWire

inductive Defect
  | noCoins (kind : String)
  | noRecipients (kind : String)
  | amountMismatch (kind : String) (recipients amounts : Nat)
  | amountOverflow (kind : String)
  | noModules
  | emptyName (part : String)
  | noOperations
  | zeroBudget
  | undecodable (fault : DecodeFault)

/-- The words of a defect; those of a fault below it are its own. -/
def Defect.message : Defect → Option String
  | .noCoins kind => some (kind ++ " has no input coins")
  | .noRecipients kind => some (kind ++ " has no recipients")
  | .amountMismatch kind recipients amounts =>
    some (kind ++ " has " ++ toString recipients ++ " recipients but " ++ toString amounts ++
      " amounts")
  | .amountOverflow kind => some (kind ++ " amounts overflow u64")
  | .noModules => some "publish carries no modules"
  | .emptyName part => some ("move call has an empty " ++ part ++ " name")
  | .noOperations => some "transaction data has no operations"
  | .zeroBudget => some "gas budget must be positive"
  | .undecodable fault => fault.message

def Payment.check (kind : String) (payment : Payment) : Except Defect Unit :=
  if payment.coins.isEmpty then .error (.noCoins kind)
  else if payment.recipients.isEmpty then .error (.noRecipients kind)
  else if payment.recipients.length ≠ payment.amounts.length then
    .error (.amountMismatch kind payment.recipients.length payment.amounts.length)
  else if payment.total?.isNone then .error (.amountOverflow kind)
  else .ok ()

def Operation.check (operation : Operation) : Except Defect Unit :=
  match operation with
  | .pay payment | .payNative payment => payment.check operation.name
  | .payAllNative sweep => if sweep.coins.isEmpty then .error (.noCoins operation.name) else .ok ()
  | .publish publication => if publication.modules.isEmpty then .error .noModules else .ok ()
  | .call calling =>
    if calling.module.isEmpty then .error (.emptyName "module")
    else if calling.function.isEmpty then .error (.emptyName "function")
    else .ok ()
  | .transferObject _ | .transferNative _ | .changeEpoch _ => .ok ()

def SignedData.check (data : SignedData) : Except Defect Unit :=
  if data.operations.isEmpty then .error .noOperations
  else if data.budget = 0 then .error .zeroBudget
  else data.operations.forM Operation.check

end LedgerWire

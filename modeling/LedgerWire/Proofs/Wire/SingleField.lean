import LedgerWire.Proofs.Json.Members
import LedgerWire.Proofs.Wire.ArmCount

/-!
Operations and the records that have one field filled. Each operation is the one such record makes, and
on the wire it is that field alone: its key is the operation's name, and its value is written as what
the operation carries is written on its own.
-/

namespace LedgerWire

open Json

theorem OperationRecord.ofRecord_eq_ok {record : OperationRecord} {operation : Operation} :
    Operation.ofRecord record = .ok operation ↔ record = operation.toRecord := by
  rw [Operation.ofRecord, mapError_eq_ok, toOperation_eq_ok]

theorem OperationRecord.firstFilled?_of_populated {record : OperationRecord} (one : record.populated = 1) :
    record.firstFilled? ≠ none := by
  obtain ⟨operation, rfl⟩ := populated_eq_one.1 one
  rw [firstFilled?_toRecord]
  exact Option.some_ne_none operation

theorem OperationRecord.ofRecord_of_not_single {record : OperationRecord}
    (notSingle : ∀ operation : Operation, record ≠ operation.toRecord) :
    record.populated ≠ 1 ∧ Operation.ofRecord record = .error (.armCount record.populated) := by
  have notOne : record.populated ≠ 1 := by
    intro one
    obtain ⟨operation, same⟩ := populated_eq_one.1 one
    exact notSingle operation same
  refine ⟨notOne, ?_⟩
  rw [Operation.ofRecord, toOperation_eq_error.2 ⟨rfl, notOne⟩]
  rfl

namespace Operation

/-- What an operation carries, written on its own. -/
def content : Operation → Bytes
  | .transferObject transfer => ObjectTransfer.codec.encode transfer
  | .publish publication => Publication.codec.encode publication
  | .call calling => FunctionCall.codec.encode calling
  | .transferNative transfer => CoinTransfer.codec.encode transfer
  | .changeEpoch change => EpochChange.codec.encode change
  | .payNative payment => Payment.ofNativeCoins.encode payment
  | .pay payment => Payment.ofCoins.encode payment
  | .payAllNative sweep => Sweep.codec.encode sweep

theorem members_toRecord (operation : Operation) : ∃ value : Value,
    OperationRecord.fields.members operation.toRecord = [(operation.name, value)] ∧
      value.bytes = operation.content := by
  cases operation <;> exact ⟨_, rfl, rfl⟩

theorem builds_toBytes (operation : Operation) : ∃ member : WrittenMember,
    member.pair = (operation.name, operation.content) ∧ Builds [member] operation.toBytes := by
  obtain ⟨value, members, written⟩ := operation.members_toRecord
  refine ⟨.ofValue operation.name value, ?_, ?_⟩
  · rw [← written]
    rfl
  · have same : operation.toBytes = (Value.record [(operation.name, value)]).bytes := by
      rw [← members]
      rfl
    rw [same]
    exact builds_recordText [.ofValue operation.name value]

/-- Operations are the records with one field filled, one to one, and every other record is refused
with the count of its filled fields; where there is one, it is found. What an operation is written as
is a record of one member, with the operation's name for its key and the text of what it carries. -/
theorem one_field_each :
    (∀ record operation, ofRecord record = .ok operation ↔ record = operation.toRecord) ∧
    (∀ operation : Operation, operation.toRecord.populated = 1) ∧
    (∀ record, (∀ operation : Operation, record ≠ operation.toRecord) →
      record.populated ≠ 1 ∧ ofRecord record = .error (.armCount record.populated)) ∧
    (∀ record : OperationRecord, record.populated = 1 → record.firstFilled? ≠ none) ∧
    ∀ operation : Operation, (∃ members, Builds members operation.toBytes) ∧
      ∀ members, Builds members operation.toBytes →
        members.map WrittenMember.pair = [(operation.name, operation.content)] := by
  refine ⟨fun _ _ => OperationRecord.ofRecord_eq_ok,
    fun operation => OperationRecord.populated_eq_one.2 ⟨operation, rfl⟩,
    fun _ => OperationRecord.ofRecord_of_not_single,
    fun _ => OperationRecord.firstFilled?_of_populated, ?_⟩
  intro operation
  obtain ⟨member, same, builds⟩ := operation.builds_toBytes
  refine ⟨⟨[member], builds⟩, ?_⟩
  intro members buildsToo
  rw [buildsToo.unique builds, ← same]
  rfl

def nativePayment : Operation := .payNative ⟨[], [.zero addressWidth], [7]⟩

theorem native_payment_alone :
    ofRecord nativePayment.toRecord = .ok nativePayment ∧ nativePayment.toRecord.firstFilled? ≠ none ∧
      ofRecord twoFilled = .error (.armCount 2) ∧
      ∃ members, Builds members nativePayment.toBytes ∧ members.map WrittenMember.pair =
        [("PaySui", Payment.ofNativeCoins.encode ⟨[], [.zero addressWidth], [7]⟩)] := by
  obtain ⟨converts, single, refuses, found, written⟩ := one_field_each
  have notSingle : ∀ operation : Operation, twoFilled ≠ operation.toRecord := by
    intro operation same
    have counted := single operation
    rw [← same] at counted
    exact absurd counted (by decide)
  obtain ⟨⟨members, builds⟩, pairs⟩ := written nativePayment
  exact ⟨(converts _ _).2 rfl, found _ (single nativePayment), (refuses twoFilled notSingle).2, members,
    builds, pairs members builds⟩

end Operation

end LedgerWire

import LedgerWire.Proofs.Wire.Plain
import LedgerWire.SignedData

/-!
The laws of the codecs of operations, of what operations carry, and of transactions. Only calls and
the inputs of a built transaction hold free-form parts, and so may hold floating-point numbers.
-/

namespace LedgerWire

open Json

theorem objects_lawful : ObjectRef.codec.list.Lawful 2 := .list ObjectRef.lawful

theorem objects_writesExact : ObjectRef.codec.list.WritesExact fun _ => True :=
  .mono (.list ObjectRef.writesExact) fun _ _ _ _ => trivial

namespace ObjectTransfer

theorem lawful_fields : fields.Lawful 1 :=
  .as (.both (by decide) (.required _ Address.lawful) (.required _ ObjectRef.lawful))
    (fun _ => rfl) (fun _ => rfl)

theorem lawful : codec.Lawful 2 := .record lawful_fields

theorem writesExact : codec.WritesExact fun _ => True :=
  .mono (.record (.as (.both (.required Address.writesExact) (.required ObjectRef.writesExact))))
    fun _ _ => ⟨trivial, trivial⟩

end ObjectTransfer

namespace Publication

theorem lawful_fields : fields.Lawful 1 :=
  .as (.required _ (.list Payload.lawful)) (fun _ => rfl) (fun _ => rfl)

theorem lawful : codec.Lawful 2 := .record lawful_fields

theorem writesExact : codec.WritesExact fun _ => True :=
  .mono (.record (.as (.required (.list Payload.writesExact)))) fun _ _ _ _ => trivial

end Publication

namespace FunctionCall

theorem lawful_fields : fields.Lawful 1 :=
  .as
    (.both (by decide) (.required _ Address.lawful)
      (.both (by decide) (.required _ .string)
        (.both (by decide) (.required _ .string)
          (.both (by decide) (.withDefault _ (Nat.le_refl _) (.list .freeForm))
            (.withDefault _ (Nat.le_refl _) (.list .freeForm))))))
    (fun _ => rfl) (fun _ => rfl)

theorem lawful : codec.Lawful 2 := .record lawful_fields

/-- No floating-point number in what the function is given. -/
def FloatFree (call : FunctionCall) : Prop :=
  (∀ form ∈ call.typeArguments, form.value.Exact) ∧ ∀ form ∈ call.arguments, form.value.Exact

theorem writesExact_form : Codec.freeForm.WritesExact fun form => form.value.Exact :=
  fun _ exact => exact

theorem writesExact : codec.WritesExact FloatFree :=
  .mono
    (.record (.as (.both (.required Address.writesExact)
      (.both (.required writesExact_string) (.both (.required writesExact_string)
        (.both (.withDefault (.list writesExact_form)) (.withDefault (.list writesExact_form))))))))
    fun _ free => ⟨trivial, trivial, trivial, free.1, free.2⟩

end FunctionCall

namespace CoinTransfer

theorem lawful_fields : fields.Lawful 0 :=
  .as (.both (by decide) (.required _ Address.lawful) (.required _ .natural))
    (fun _ => rfl) (fun _ => rfl)

theorem lawful : codec.Lawful 1 := .record lawful_fields

theorem writesExact : codec.WritesExact fun _ => True :=
  .mono (.record (.as (.both (.required Address.writesExact) (.required writesExact_natural))))
    fun _ _ => ⟨trivial, trivial⟩

end CoinTransfer

namespace EpochChange

theorem lawful_fields : fields.Lawful 0 :=
  .as
    (.both (by decide) (.required _ Counter.lawful)
      (.both (by decide) (.required _ .natural) (.required _ .natural)))
    (fun _ => rfl) (fun _ => rfl)

theorem lawful : codec.Lawful 1 := .record lawful_fields

theorem writesExact : codec.WritesExact fun _ => True :=
  .mono
    (.record (.as (.both (.required Counter.writesExact)
      (.both (.required writesExact_natural) (.required writesExact_natural)))))
    fun _ _ => ⟨trivial, trivial, trivial⟩

end EpochChange

namespace Payment

theorem lawful_fields : fields.Lawful 2 :=
  .as
    (.both (by decide) (.required _ objects_lawful)
      (.both (by decide) (.required _ (.list Address.lawful)) (.required _ (.list .natural))))
    (fun _ => rfl) (fun _ => rfl)

theorem lawful (expected : String) : (codec expected).Lawful 3 := .record lawful_fields

theorem writesExact (expected : String) : (codec expected).WritesExact fun _ => True :=
  .mono
    (.record (.as (.both (.required objects_writesExact)
      (.both (.required (.list Address.writesExact)) (.required (.list writesExact_natural))))))
    fun _ _ => ⟨trivial, fun _ _ => trivial, fun _ _ => trivial⟩

end Payment

namespace Sweep

theorem lawful_fields : fields.Lawful 2 :=
  .as (.both (by decide) (.required _ objects_lawful) (.required _ Address.lawful))
    (fun _ => rfl) (fun _ => rfl)

theorem lawful : codec.Lawful 3 := .record lawful_fields

theorem writesExact : codec.WritesExact fun _ => True :=
  .mono (.record (.as (.both (.required objects_writesExact) (.required Address.writesExact))))
    fun _ _ => ⟨trivial, trivial⟩

end Sweep

namespace OperationRecord

theorem lawful_fields : fields.Lawful 3 :=
  .as
    (.both (by decide) (.optional _ ObjectTransfer.lawful Codec.neverNull_record)
      (.both (by decide) (.optional _ Publication.lawful Codec.neverNull_record)
        (.both (by decide) (.optional _ FunctionCall.lawful Codec.neverNull_record)
          (.both (by decide) (.optional _ CoinTransfer.lawful Codec.neverNull_record)
            (.both (by decide) (.optional _ EpochChange.lawful Codec.neverNull_record)
              (.both (by decide) (.optional _ (Payment.lawful _) Codec.neverNull_record)
                (.both (by decide) (.optional _ (Payment.lawful _) Codec.neverNull_record)
                  (.optional _ Sweep.lawful Codec.neverNull_record))))))))
    (fun _ => rfl) (fun _ => rfl)

theorem lawful : codec.Lawful 4 := .record lawful_fields

def FloatFree (record : OperationRecord) : Prop := ∀ call ∈ record.call, call.FloatFree

theorem writesExact : codec.WritesExact FloatFree :=
  .mono
    (.record (.as (.both (.optional ObjectTransfer.writesExact)
      (.both (.optional Publication.writesExact) (.both (.optional FunctionCall.writesExact)
        (.both (.optional CoinTransfer.writesExact) (.both (.optional EpochChange.writesExact)
          (.both (.optional (Payment.writesExact _)) (.both (.optional (Payment.writesExact _))
            (.optional Sweep.writesExact))))))))))
    fun _ free => ⟨fun _ _ => trivial, fun _ _ => trivial, free, fun _ _ => trivial,
      fun _ _ => trivial, fun _ _ => trivial, fun _ _ => trivial, fun _ _ => trivial⟩

theorem count_cons_eq_zero (filled : Bool) (others : List Bool) :
    (filled :: others).count true = 0 ↔ filled = false ∧ others.count true = 0 := by
  cases filled <;> simp

theorem count_cons_eq_one (filled : Bool) (others : List Bool) :
    (filled :: others).count true = 1 ↔
      (filled = true ∧ others.count true = 0) ∨ (filled = false ∧ others.count true = 1) := by
  cases filled <;> simp

theorem populated_eq_one {record : OperationRecord} :
    record.populated = 1 ↔ ∃ operation : Operation, record = operation.toRecord := by
  constructor
  · intro one
    rcases record with ⟨transferObject, publish, call, transferNative, changeEpoch, payNative, pay,
      payAllNative⟩
    simp only [populated, count_cons_eq_one, count_cons_eq_zero, List.count_nil,
      Option.isSome_iff_exists, Option.isSome_eq_false_iff, Option.isNone_iff_eq_none] at one
    -- Each alternative fills one field; those before it are empty, and so is the rest.
    rcases one with ⟨⟨transfer, rfl⟩, rest⟩ | ⟨rfl, ⟨⟨publication, rfl⟩, rest⟩ |
      ⟨rfl, ⟨⟨calling, rfl⟩, rest⟩ | ⟨rfl, ⟨⟨transfer, rfl⟩, rest⟩ | ⟨rfl, ⟨⟨change, rfl⟩, rest⟩ |
      ⟨rfl, ⟨⟨payment, rfl⟩, rest⟩ | ⟨rfl, ⟨⟨payment, rfl⟩, rest⟩ |
      ⟨rfl, ⟨⟨sweep, rfl⟩, _⟩ | ⟨rfl, impossible⟩⟩⟩⟩⟩⟩⟩⟩
    · exact ⟨.transferObject transfer, by simp [rest, Operation.toRecord, empty]⟩
    · exact ⟨.publish publication, by simp [rest, Operation.toRecord, empty]⟩
    · exact ⟨.call calling, by simp [rest, Operation.toRecord, empty]⟩
    · exact ⟨.transferNative transfer, by simp [rest, Operation.toRecord, empty]⟩
    · exact ⟨.changeEpoch change, by simp [rest, Operation.toRecord, empty]⟩
    · exact ⟨.payNative payment, by simp [rest, Operation.toRecord, empty]⟩
    · exact ⟨.pay payment, by simp [rest, Operation.toRecord, empty]⟩
    · exact ⟨.payAllNative sweep, rfl⟩
    · omega
  · rintro ⟨operation, same⟩
    rw [same]
    cases operation <;> rfl

theorem firstFilled?_toRecord (operation : Operation) :
    operation.toRecord.firstFilled? = some operation := by
  cases operation <;> rfl

/-- Where one field is filled there is a first one, so that the last way out is never taken. -/
theorem toOperation_eq_ok {record : OperationRecord} {operation : Operation} :
    record.toOperation = .ok operation ↔ record = operation.toRecord := by
  constructor
  · intro converted
    by_cases one : record.populated = 1
    · obtain ⟨single, rfl⟩ := populated_eq_one.1 one
      rw [toOperation, if_neg (not_not.2 one), firstFilled?_toRecord] at converted
      rw [Except.ok.inj converted]
    · rw [toOperation, if_pos one] at converted
      simp at converted
  · rintro rfl
    have one : operation.toRecord.populated = 1 := populated_eq_one.2 ⟨operation, rfl⟩
    rw [toOperation, if_neg (not_not.2 one), firstFilled?_toRecord]

end OperationRecord

namespace Operation

theorem lawful : codec.Lawful 4 := by
  refine .refine OperationRecord.lawful ?_
  intro record operation
  rw [mapError_eq_ok, OperationRecord.toOperation_eq_ok]

def FloatFree : Operation → Prop
  | .call calling => calling.FloatFree
  | _ => True

theorem floatFree_toRecord {operation : Operation} (free : operation.FloatFree) :
    operation.toRecord.FloatFree := by
  cases operation with
  | call calling =>
      intro call same
      rw [← Option.some.inj same]
      exact free
  | _ =>
      intro call impossible
      simp [toRecord, OperationRecord.empty] at impossible

theorem writesExact : codec.WritesExact FloatFree :=
  .mono (.refine OperationRecord.writesExact) fun _ free => floatFree_toRecord free

end Operation

namespace SignedData

theorem lawful_fields : fields.Lawful 5 :=
  .as
    (.both (by decide) (.optionalList _ Operation.lawful)
      (.both (by decide) (.required _ Address.lawful)
        (.both (by decide) (.required _ ObjectRef.lawful) (.required _ .natural))))
    (fun _ => rfl) (fun _ => rfl)

theorem lawful : codec.Lawful 6 := .record lawful_fields

def FloatFree (data : SignedData) : Prop := ∀ operation ∈ data.operations, operation.FloatFree

theorem writesExact : codec.WritesExact FloatFree :=
  .mono
    (.record (.as (.both (.optionalList Operation.writesExact)
      (.both (.required Address.writesExact)
        (.both (.required ObjectRef.writesExact) (.required writesExact_natural))))))
    fun _ free => ⟨free, trivial, trivial, trivial⟩

end SignedData

namespace BuiltTransaction

theorem lawful_fields : fields.Lawful 2 :=
  .as
    (.both (by decide) (.required _ objects_lawful)
      (.both (by decide) (.required _ (.list .freeRecord)) (.required _ Payload.lawful)))
    (fun _ => rfl) (fun _ => rfl)

theorem lawful : codec.Lawful 3 := .record lawful_fields

def FloatFree (built : BuiltTransaction) : Prop :=
  ∀ form ∈ built.inputs, (Value.record form.members).Exact

theorem writesExact_input :
    Codec.freeRecord.WritesExact fun form => (Value.record form.members).Exact :=
  fun _ exact => exact

theorem writesExact : codec.WritesExact FloatFree :=
  .mono
    (.record (.as (.both (.required objects_writesExact)
      (.both (.required (.list writesExact_input)) (.required Payload.writesExact)))))
    fun _ free => ⟨trivial, free, trivial⟩

end BuiltTransaction

end LedgerWire

import LedgerWire.Proofs.Json.RepeatedKey
import LedgerWire.Proofs.Wire.TwoPass

/-!
Transaction data that has a key twice where a record of it is read. Operations on their own and
signed data in one pass are never read from such a text. In two passes signed data is: a key that is
repeated in an operation of the list is overlooked, and its last value counts.
-/

namespace LedgerWire

open Json

namespace ObjectRef

def shape : Shape := fields.shape [.other, .other, .other]

theorem guards : codec.Guards shape := .record lawful_fields.sound .others

theorem list_guards : codec.list.Guards (.list shape) := .list lawful.coherent.skips guards

end ObjectRef

namespace ObjectTransfer

def shape : Shape := fields.shape [.other, ObjectRef.shape]

theorem guards : codec.Guards shape :=
  .record lawful_fields.sound (.as
    (.cons (Fields.apart_of_keys (by decide)) .others (.single ObjectRef.guards)))

end ObjectTransfer

namespace Publication

def shape : Shape := fields.shape [.other]

theorem guards : codec.Guards shape := .record lawful_fields.sound .others

end Publication

namespace FunctionCall

/-- What the function is given has no shape of its own. -/
def shape : Shape := fields.shape [.other, .other, .other, .other, .other]

theorem guards : codec.Guards shape := .record lawful_fields.sound .others

end FunctionCall

namespace CoinTransfer

def shape : Shape := fields.shape [.other, .other]

theorem guards : codec.Guards shape := .record lawful_fields.sound .others

end CoinTransfer

namespace EpochChange

def shape : Shape := fields.shape [.other, .other, .other]

theorem guards : codec.Guards shape := .record lawful_fields.sound .others

end EpochChange

namespace Payment

def shape : Shape := fields.shape [.list ObjectRef.shape, .other, .other]

theorem guards (expected : String) : (codec expected).Guards shape :=
  .record lawful_fields.sound (.as
    (.cons (Fields.apart_of_keys (by decide)) (.single ObjectRef.list_guards) .others))

end Payment

namespace Sweep

def shape : Shape := fields.shape [.list ObjectRef.shape, .other]

theorem guards : codec.Guards shape :=
  .record lawful_fields.sound (.as
    (.cons (Fields.apart_of_keys (by decide)) (.single ObjectRef.list_guards) .others))

end Sweep

namespace Operation

def shape : Shape :=
  OperationRecord.fields.shape [ObjectTransfer.shape, Publication.shape, FunctionCall.shape,
    CoinTransfer.shape, EpochChange.shape, Payment.shape, Payment.shape, Sweep.shape]

theorem record_guards : OperationRecord.codec.Guards shape :=
  .record OperationRecord.lawful_fields.sound (.as
    (.cons (Fields.apart_of_keys (by decide)) (.single (.nullable ObjectTransfer.guards))
      (.cons (Fields.apart_of_keys (by decide)) (.single (.nullable Publication.guards))
        (.cons (Fields.apart_of_keys (by decide)) (.single (.nullable FunctionCall.guards))
          (.cons (Fields.apart_of_keys (by decide)) (.single (.nullable CoinTransfer.guards))
            (.cons (Fields.apart_of_keys (by decide)) (.single (.nullable EpochChange.guards))
              (.cons (Fields.apart_of_keys (by decide)) (.single (.nullable (Payment.guards _)))
                (.cons (Fields.apart_of_keys (by decide)) (.single (.nullable (Payment.guards _)))
                  (.single (.nullable Sweep.guards))))))))))

theorem guards : codec.Guards shape := .refine record_guards

theorem ofBytes_ne_of_repeatsKey {bytes : Bytes} (repeats : RepeatsKey shape bytes)
    (operation : Operation) : ofBytes bytes ≠ .ok operation := by
  intro decoded
  simp only [ofBytes, bind_eq_ok, asDecoded, mapError_eq_ok] at decoded
  rcases decoded with ⟨record, read, _⟩
  exact record_guards.decode_ne repeats record read

end Operation

namespace SignedData

def partShapes (operation : Shape) : List Shape := [.list operation, .other, ObjectRef.shape, .other]

def shapeWith (operation : Shape) : Shape := fields.shape (partShapes operation)

def shape : Shape := shapeWith Operation.shape

theorem shape_fieldsOver (operation : Codec Operation) (held : List Shape) :
    (fieldsOver operation).shape held = fields.shape held := by
  simp only [fields, Fields.shape, Fields.shapes, keys_fieldsOver]

theorem guards_codecOver {operation : Codec Operation} {inner : Shape}
    (coherent : operation.Coherent) (guards : operation.Guards inner) :
    (codecOver operation).Guards (shapeWith inner) := by
  rw [shapeWith, ← shape_fieldsOver operation]
  exact .record (sound_fieldsOver coherent) (.as
    (.cons (apart_otherFields operation) (.single (.list coherent.skips guards))
      (.cons (Fields.apart_of_keys (by decide)) .others
        (.cons (Fields.apart_of_keys (by decide)) (.single ObjectRef.guards) .others))))

theorem guards : codec.Guards shape :=
  guards_codecOver Operation.lawful.coherent Operation.guards

theorem settledCodec_guards : settledCodec.Guards (shapeWith .other) :=
  guards_codecOver (Codec.coherent_settled _) .other

/-- The text of an operation in the text of signed data. -/
def HasOperation (bytes operation : Bytes) : Prop :=
  ∃ entries place texts rest, EntriesOf (fields.keys.map Prod.fst) bytes entries ∧
    ("transactions", place) ∈ entries ∧ ListOutline place texts rest ∧ operation ∈ texts

theorem field_of_repeatsKey {operation : Shape} {field : String × Shape} {place : Bytes}
    (known : field ∈ fields.shapes (partShapes operation)) (repeats : RepeatsKey field.2 place) :
    field = ("transactions", .list operation) ∨ field = ("gasPayment", ObjectRef.shape) := by
  change field ∈ [(_, Shape.list operation), (_, Shape.other), (_, ObjectRef.shape), (_, Shape.other)]
    at known
  simp only [List.mem_cons, List.not_mem_nil, or_false] at known
  rcases known with same | same | same | same
  · exact Or.inl same
  · rw [same] at repeats
    cases repeats
  · exact Or.inr same
  · rw [same] at repeats
    cases repeats

theorem gas_known {operation : Shape} :
    ("gasPayment", ObjectRef.shape) ∈ fields.shapes (partShapes operation) :=
  .tail _ (.tail _ (.head _))

theorem repeatsKey_shapeWith_iff {operation : Shape} {bytes : Bytes} :
    RepeatsKey (shapeWith operation) bytes ↔
      RepeatsKey (shapeWith .other) bytes ∨
        ∃ text, HasOperation bytes text ∧ RepeatsKey operation text := by
  constructor
  · intro repeats
    cases repeats with
    | here found known twice => exact Or.inl (.here found known twice)
    | inField found known inside repeats =>
        rcases field_of_repeatsKey known repeats with same | same
        · subst same
          cases repeats with
          | inItem list member repeats =>
              exact Or.inr ⟨_, ⟨_, _, _, _, found, inside, list, member⟩, repeats⟩
        · subst same
          exact Or.inl (.inField found gas_known inside repeats)
  · rintro (repeats | ⟨text, ⟨entries, place, texts, rest, found, inside, list, member⟩, repeats⟩)
    · cases repeats with
      | here found known twice => exact .here found known twice
      | inField found known inside repeats =>
          rcases field_of_repeatsKey known repeats with same | same
          · subst same
            cases repeats with
            | inItem list member repeats => cases repeats
          · subst same
            exact .inField found gas_known inside repeats
    · have known : ("transactions", .list operation) ∈ fields.shapes (partShapes operation) :=
        List.mem_cons_self
      exact .inField found known inside (.inItem list member repeats)

/-- Operations on their own and signed data in one pass are read from no text that repeats a key.
Neither is signed data in two passes, unless the key is repeated in one of its operations and the
data with the last value of every key is good. -/
theorem repeated_keys (bytes : Bytes) :
    (RepeatsKey Operation.shape bytes →
      ∀ operation, (Boundary.decodeOperation bytes).outcome ≠ .ok operation) ∧
    (RepeatsKey shape bytes → ∀ data, (Boundary.decode codec bytes).outcome ≠ .ok data) ∧
    ((RepeatsKey shape bytes → ∀ data, (Boundary.decodeSignedData bytes).outcome ≠ .ok data) ↔
      ¬ ((∃ text, HasOperation bytes text ∧ RepeatsKey Operation.shape text) ∧
        ∃ data, settledCodec.decode bytes = .ok data ∧ data.check = .ok ())) := by
  refine ⟨?_, ?_, ?_, ?_⟩
  · intro repeats operation decoded
    exact Operation.ofBytes_ne_of_repeatsKey repeats operation (Boundary.decodeOperation_eq_ok.1 decoded)
  · intro repeats data decoded
    exact guards.decode_ne repeats data (Boundary.decode_eq_ok.1 decoded)
  · rintro refuses ⟨inOperation, data, decoded, checked⟩
    have accepted := Boundary.decodeSignedData_eq_ok.2 ⟨ofBytes_iff_settledCodec.2 decoded, checked⟩
    exact refuses (repeatsKey_shapeWith_iff.2 (Or.inr inOperation)) data accepted
  · intro never repeats data accepted
    obtain ⟨read, checked⟩ := Boundary.decodeSignedData_eq_ok.1 accepted
    have decoded := ofBytes_iff_settledCodec.1 read
    rcases repeatsKey_shapeWith_iff.1 repeats with outside | inOperation
    · exact settledCodec_guards.decode_ne outside data decoded
    · exact never ⟨inOperation, data, decoded, checked⟩

def twoAmounts : Value :=
  .record [("TransferSui", .record [("recipient", .text (Identifier.zero addressWidth).fullText),
    ("amount", .number (ofNatural 1)), ("amount", .number (ofNatural 2))])]

def withTwoAmounts : Value :=
  .record (("transactions", .list [twoAmounts]) ::
    otherFields.members (.zero addressWidth, ⟨.zero addressWidth, ⟨1⟩, ⟨[]⟩⟩, 10))

theorem repeats_withTwoAmounts : withTwoAmounts.Repeats shape := by
  have transfer : twoAmounts.Repeats Operation.shape := by
    refine .inField "TransferSui" CoinTransfer.shape (.tail _ (.tail _ (.tail _ (.head _))))
      List.mem_cons_self ?_
    exact .here "amount" (by decide) (by decide)
  exact .inField "transactions" (.list Operation.shape) List.mem_cons_self List.mem_cons_self
    (.inItem List.mem_cons_self transfer)

theorem ofValue_twoAmounts :
    Operation.codec.settled.ofValue twoAmounts =
      .ok (.transferNative ⟨.zero addressWidth, 2⟩) := by
  have written : Operation.codec.toValue (.transferNative ⟨.zero addressWidth, 2⟩) =
      .record [("TransferSui", .record
        [("recipient", .text (Identifier.zero addressWidth).fullText),
          ("amount", .number (ofNatural 2))])] := rfl
  have distinct : (Operation.codec.toValue (.transferNative ⟨.zero addressWidth, 2⟩)).Distinct := by
    rw [written]
    simp [Value.Distinct, distinctMembers]
  have same : twoAmounts.settle =
      (Operation.codec.toValue (.transferNative ⟨.zero addressWidth, 2⟩)).settle := by
    rw [written]
    simp [twoAmounts, Value.settle, settleMembers, Members.settleIn]
  rw [Codec.settled_ofValue_iff, same, Operation.lawful.settles _ distinct]
  exact Operation.lawful.inverts _

theorem ofValue_withTwoAmounts : settledCodec.ofValue withTwoAmounts = .ok (oneTransfer 2) := by
  have operations : Operation.codec.settled.list.ofValue (.list [twoAmounts]) =
      .ok [.transferNative ⟨.zero addressWidth, 2⟩] :=
    Codec.valuesOfItems_eq_ok.2 (.cons ofValue_twoAmounts .nil)
  refine (Codec.record_ofValue_iff (sound_fieldsOver (Codec.coherent_settled _))).2
    ⟨_, Or.inl rfl, collect_fieldsOver.2 ⟨?_, ?_⟩⟩
  · simp only [Fields.optionalList, Fields.placeValue_single, Fields.collect_single]
    exact operations
  · refine lawful_otherFields.inverts.collects _ _ ?_
    intro key isKey
    rw [valuesAt_cons, if_neg]
    · rfl
    · intro same
      rw [← same] at isKey
      exact absurd isKey (by decide)

theorem two_amounts_accepted :
    RepeatsKey shape withTwoAmounts.bytes ∧
      (Boundary.decodeSignedData withTwoAmounts.bytes).outcome = .ok (oneTransfer 2) ∧
      ∀ data, (Boundary.decode codec withTwoAmounts.bytes).outcome ≠ .ok data := by
  have exact : withTwoAmounts.Exact :=
    ⟨⟨⟨⟨trivial, trivial, trivial, trivial⟩, trivial⟩, trivial⟩,
      trivial, ⟨trivial, trivial, trivial, trivial⟩, trivial, trivial⟩
  have parsed := Value.ofBytes_bytes withTwoAmounts exact (by decide)
  have repeats : RepeatsKey shape withTwoAmounts.bytes := by
    obtain ⟨rest, read, _⟩ := readDocument_eq_ok.1 parsed
    exact repeats_withTwoAmounts depthLimit _ ⟨rest, read⟩
  have decoded := (coherent_settledCodec.decode_iff_ofValue parsed).2 ofValue_withTwoAmounts
  refine ⟨repeats, ?_, ?_⟩
  · exact Boundary.decodeSignedData_eq_ok.2 ⟨ofBytes_iff_settledCodec.2 decoded, rfl⟩
  · intro data read
    exact guards.decode_ne repeats data (Boundary.decode_eq_ok.1 read)

end SignedData

end LedgerWire

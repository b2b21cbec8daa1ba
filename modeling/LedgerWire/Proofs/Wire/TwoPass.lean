import LedgerWire.Proofs.Json.Passes
import LedgerWire.Proofs.Wire.Boundary
import LedgerWire.Proofs.Wire.Operations

/-!
Signed data read in two passes. On the way the operations of the transaction become settled values:
of a key that is repeated in them only the last member counts. Apart from this the two passes take
what one pass takes.
-/

namespace LedgerWire

open Json

namespace Json.Codec

variable {α : Type}

/-- A codec that reads a value and settles it before it is decoded. -/
def settled (item : Codec α) : Codec α :=
  freeForm.refine (fun value => .ofValue (item.toValue value)) fun form =>
    (item.ofValue form.value).mapError fun _ => "no value of the type"

theorem coherent_settled (item : Codec α) : item.settled.Coherent :=
  coherent_refine _ _ coherent_freeForm

theorem settled_ofValue_iff {item : Codec α} {value : Value} {result : α} :
    item.settled.ofValue value = .ok result ↔ item.ofValue value.settle = .ok result := by
  rw [settled, refine_ofValue_iff]
  constructor
  · rintro ⟨form, read, accepted⟩
    rw [← Except.ok.inj read, mapError_eq_ok] at accepted
    exact accepted
  · intro accepted
    exact ⟨.ofValue value, rfl, mapError_eq_ok.2 accepted⟩

theorem settled_list_ofValue_iff {item : Codec α} (settles : Settles item.ofValue) {value : Value}
    (distinct : value.Distinct) {results : List α} :
    item.settled.list.ofValue value = .ok results ↔ item.list.ofValue value = .ok results := by
  rw [list_ofValue_iff, list_ofValue_iff]
  refine exists_congr fun items => and_congr_right fun isList => ?_
  rw [isList, Value.Distinct, distinctItems_iff] at distinct
  refine forall₂_congr_mem (fun item' member result => ?_) results
  rw [settled_ofValue_iff, settles item' (distinct item' member)]

end Json.Codec

namespace ObjectRefDraft

theorem lawful_fields : fields.Lawful 0 :=
  .as
    (.both (by decide) (.required _ .string)
      (.both (by decide) (.required _ Version.lawful) (.required _ .string)))
    (fun _ => rfl) (fun _ => rfl)

theorem lawful : codec.Lawful 1 := .record lawful_fields

theorem toObjectRef_eq_ok {draft : ObjectRefDraft} {object : ObjectRef} :
    draft.toObjectRef = .ok object ↔ Identifier.ofHex draft.id = .ok object.id ∧
      draft.version = object.version ∧ Payload.ofText draft.digest = .ok object.digest := by
  simp only [toObjectRef, bind_eq_ok, mapError_eq_ok]
  constructor
  · rintro ⟨id, idRead, digest, digestRead, same⟩
    rw [← Except.ok.inj same]
    exact ⟨idRead, rfl, digestRead⟩
  · rintro ⟨idRead, sameVersion, digestRead⟩
    exact ⟨object.id, idRead, object.digest, digestRead, by rw [sameVersion]⟩

theorem finishes : codec.Finishes ObjectRef.codec fun draft object => draft.toObjectRef = .ok object := by
  refine .record lawful_fields.sound ObjectRef.lawful_fields.sound ?_
  refine .as
    (.both (Fields.apart_of_keys (by decide)) (Fields.apart_of_keys (by decide))
      (.required _ (.string _ _ _))
      (.both (Fields.apart_of_keys (by decide)) (Fields.apart_of_keys (by decide))
        (.required _ (.refl _)) (.required _ (.string _ _ _)))) ?_
  rintro ⟨id, version, digest⟩ object
  simp only [toObjectRef_eq_ok, mapError_eq_ok, Prod.exists]
  constructor
  · rintro ⟨idRead, sameVersion, digestRead⟩
    exact ⟨object.id, object.version, object.digest, ⟨idRead, sameVersion, digestRead⟩, rfl⟩
  · rintro ⟨id', version', digest', ⟨idRead, sameVersion, digestRead⟩, same⟩
    rw [← same]
    exact ⟨idRead, sameVersion, digestRead⟩

end ObjectRefDraft

theorem SignedDraft.lawful_fields : fields.Lawful 1 :=
  .as
    (.both (by decide) (.optionalList _ .freeForm)
      (.both (by decide) (.required _ .string)
        (.both (by decide) (.required _ ObjectRefDraft.lawful) (.required _ .natural))))
    (fun _ => rfl) (fun _ => rfl)

theorem SignedDraft.toOperation_eq_ok {form : FreeForm} {operation : Operation} :
    toOperation form = .ok operation ↔ Operation.codec.ofValue form.value = .ok operation := by
  simp only [toOperation, asDecoded, Operation.ofRecord, Operation.codec, bind_eq_ok, mapError_eq_ok,
    Codec.refine_ofValue_iff]

namespace SignedData

theorem keys_fieldsOver (operation : Codec Operation) :
    (fieldsOver operation).keys = ("transactions", true) :: otherFields.keys := rfl

/-- Signed data read in one pass, but with every operation settled before it is decoded. -/
def settledCodec : Codec SignedData := codecOver Operation.codec.settled

theorem lawful_otherFields : otherFields.Lawful 1 :=
  .both (by decide) (.required _ Address.lawful)
    (.both (by decide) (.required _ ObjectRef.lawful) (.required _ .natural))

theorem apart_otherFields (operation : Codec Operation) :
    Fields.Apart (.optionalList "transactions" operation) otherFields := by
  have keys : ∀ pair ∈ [("transactions", true)], otherFields.isKey pair.1 = false := by decide
  exact Fields.apart_of_keys keys

theorem sound_fieldsOver {operation : Codec Operation} (coherent : operation.Coherent) :
    (fieldsOver operation).Sound :=
  Fields.sound_as _ _ (Fields.sound_both (apart_otherFields operation)
    (Fields.sound_single (Codec.coherent_list coherent).skips fun required => Bool.noConfusion required)
    lawful_otherFields.sound)

theorem agrees_fieldsOver {operation : Codec Operation} (coherent : operation.Coherent) :
    (fieldsOver operation).Agrees :=
  Fields.agrees_as _ _ (Fields.agrees_both (apart_otherFields operation)
    (Fields.agrees_single (Codec.coherent_list coherent).agrees) lawful_otherFields.agrees)

theorem coherent_settledCodec : settledCodec.Coherent :=
  Codec.coherent_record (sound_fieldsOver (Codec.coherent_settled _))
    (agrees_fieldsOver (Codec.coherent_settled _))

theorem collect_fieldsOver {operation : Codec Operation} {members : Members} {data : SignedData} :
    (fieldsOver operation).collect (fieldsOver operation).placeValue members = .ok data ↔
      (Fields.optionalList "transactions" operation).collect
          (Fields.optionalList "transactions" operation).placeValue members = .ok data.operations ∧
        otherFields.collect otherFields.placeValue members =
          .ok (data.sender, data.gas, data.budget) := by
  have whole : (fieldsOver operation).collect (fieldsOver operation).placeValue members = _ :=
    Fields.collect_as _ _ _ (Fields.both (.optionalList "transactions" operation) otherFields).placeValue
      members
  rw [whole, map_eq_ok]
  simp only [Fields.placeValue_both, Fields.collect_both (apart_otherFields operation)]
  constructor
  · rintro ⟨⟨operations, sender, gas, budget⟩, collected, same⟩
    rw [← same]
    exact collected
  · intro collected
    exact ⟨(data.operations, data.sender, data.gas, data.budget), collected, rfl⟩

theorem toSignedData_eq_ok {draft : SignedDraft} {data : SignedData} :
    draft.toSignedData = .ok data ↔
      List.Forall₂ (fun form operation => Operation.codec.ofValue form.value = .ok operation)
          draft.operations data.operations ∧
        Identifier.ofHex draft.sender = .ok data.sender ∧ draft.gas.toObjectRef = .ok data.gas ∧
        draft.budget = data.budget := by
  simp only [SignedDraft.toSignedData, bind_eq_ok, mapM_eq_ok, mapError_eq_ok,
    SignedDraft.toOperation_eq_ok]
  constructor
  · rintro ⟨operations, decoded, sender, senderRead, gas, gasRead, same⟩
    rw [← Except.ok.inj same]
    exact ⟨decoded, senderRead, gasRead, rfl⟩
  · rintro ⟨decoded, senderRead, gasRead, sameBudget⟩
    exact ⟨data.operations, decoded, data.sender, senderRead, data.gas, gasRead, by rw [sameBudget]⟩

theorem finishes_settledCodec :
    SignedDraft.codec.Finishes settledCodec fun draft data => draft.toSignedData = .ok data := by
  have operations : Codec.freeForm.Finishes Operation.codec.settled fun form operation =>
      (Operation.codec.ofValue form.value).mapError (fun _ => "no value of the type") =
        .ok operation := .refine _ _ _
  -- Field by field: only operations, object references and the sender wait for the second pass.
  refine .record SignedDraft.lawful_fields.sound (sound_fieldsOver (Codec.coherent_settled _)) ?_
  refine .as
    (.both (Fields.apart_of_keys (by decide)) (apart_otherFields _)
      (.optionalList _ Codec.coherent_freeForm.skips (Codec.coherent_settled _).skips operations)
      (.both (Fields.apart_of_keys (by decide)) (Fields.apart_of_keys (by decide))
        (.required _ (.string _ _ _))
        (.both (Fields.apart_of_keys (by decide)) (Fields.apart_of_keys (by decide))
          (.required _ ObjectRefDraft.finishes) (.required _ (.refl _))))) ?_
  rintro ⟨forms, sender, gas, budget⟩ data
  simp only [toSignedData_eq_ok, mapError_eq_ok, Prod.exists]
  constructor
  · rintro ⟨decoded, senderRead, gasRead, sameBudget⟩
    exact ⟨data.operations, data.sender, data.gas, data.budget,
      ⟨decoded, senderRead, gasRead, sameBudget⟩, rfl⟩
  · rintro ⟨_, _, _, _, ⟨decoded, senderRead, gasRead, sameBudget⟩, same⟩
    rw [← same]
    exact ⟨decoded, senderRead, gasRead, sameBudget⟩

theorem ofBytes_iff_settledCodec {bytes : Bytes} {data : SignedData} :
    ofBytes bytes = .ok data ↔ settledCodec.decode bytes = .ok data := by
  rw [finishes_settledCodec.decode_iff, ofBytes, bind_eq_ok]
  simp only [asDecoded, mapError_eq_ok]

theorem collect_settled_iff {entries : Members} (distinct : ∀ entry ∈ entries, entry.2.Distinct)
    {data : SignedData} :
    (fieldsOver Operation.codec.settled).collect (fieldsOver Operation.codec.settled).placeValue
        entries = .ok data ↔
      (fieldsOver Operation.codec).collect (fieldsOver Operation.codec).placeValue entries =
        .ok data := by
  rw [collect_fieldsOver, collect_fieldsOver]
  refine and_congr ?_ Iff.rfl
  simp only [Fields.optionalList, Fields.placeValue_single, Fields.collect_single]
  cases shape : valuesAt "transactions" entries with
  | nil => exact Iff.rfl
  | cons value others =>
      cases others with
      | nil =>
          have member : ("transactions", value) ∈ entries := mem_valuesAt.1 (by rw [shape]; simp)
          exact Codec.settled_list_ofValue_iff Operation.lawful.settles (distinct _ member)
      | cons second more => exact Iff.rfl

theorem settledCodec_ofValue_iff {value : Value} (distinct : value.Distinct) {data : SignedData} :
    settledCodec.ofValue value = .ok data ↔ codec.ofValue value = .ok data := by
  rw [settledCodec, codec, codecOver, codecOver,
    Codec.record_ofValue_iff (sound_fieldsOver (Codec.coherent_settled _)),
    Codec.record_ofValue_iff (sound_fieldsOver Operation.lawful.coherent)]
  simp only [Fields.Holds, Fields.Ordered, keys_fieldsOver]
  refine exists_congr fun entries => and_congr_right fun holds => collect_settled_iff ?_
  intro entry member
  rcases holds with same | ⟨items, same, ordered⟩
  · rw [same, Value.Distinct, distinctMembers_iff] at distinct
    exact distinct.2 entry member
  · rw [same, Value.Distinct, distinctItems_iff] at distinct
    rw [ordered.2] at member
    exact distinct entry.2 (List.of_mem_zip member).2

/-- Two passes and one pass agree on every payload that is a value without repeated keys. -/
theorem two_passes_iff_one {bytes : Bytes} {value : Value} (parsed : Value.ofBytes bytes = .ok value)
    (distinct : value.Distinct) (data : SignedData) :
    ofBytes bytes = .ok data ↔ (Boundary.decode codec bytes).outcome = .ok data := by
  rw [ofBytes_iff_settledCodec, coherent_settledCodec.decode_iff_ofValue parsed,
    settledCodec_ofValue_iff distinct, Boundary.decode_eq_ok, lawful.coherent.decode_iff_ofValue parsed]

def oneTransfer (amount : UInt64) : SignedData :=
  ⟨[.transferNative ⟨.zero addressWidth, amount⟩], .zero addressWidth,
    ⟨.zero addressWidth, ⟨1⟩, ⟨[]⟩⟩, 10⟩

theorem floatFree_oneTransfer (amount : UInt64) : (oneTransfer amount).FloatFree := by
  intro operation member
  rw [List.mem_singleton.1 member]
  trivial

theorem distinct_oneTransfer (amount : UInt64) : (codec.toValue (oneTransfer amount)).Distinct := by
  have shape : codec.toValue (oneTransfer amount) = .record
      [("transactions", .list [.record [("TransferSui", .record
          [("recipient", .text (Identifier.zero addressWidth).fullText),
            ("amount", .number (ofNatural amount))])]]),
        ("sender", .text (Identifier.zero addressWidth).fullText),
        ("gasPayment", .record [("objectId", .text (Identifier.zero addressWidth).fullText),
          ("version", .number (ofNatural 1)), ("digest", .text (Payload.text ⟨[]⟩))]),
        ("gasBudget", .number (ofNatural 10))] := rfl
  rw [shape]
  simp [Value.Distinct, distinctMembers, distinctItems]

theorem oneTransfer_in_two_passes :
    ∃ value, Value.ofBytes (codec.encode (oneTransfer 5)) = .ok value ∧ value.Distinct ∧
      ofBytes (codec.encode (oneTransfer 5)) = .ok (oneTransfer 5) := by
  have parsed := Value.ofBytes_bytes _ (writesExact _ (floatFree_oneTransfer 5)) (by decide)
  have distinct := distinct_oneTransfer 5
  have decoded := (lawful.coherent.decode_iff_ofValue parsed).2 (lawful.inverts (oneTransfer 5))
  exact ⟨_, parsed, distinct,
    (two_passes_iff_one parsed distinct _).2 (Boundary.decode_eq_ok.2 decoded)⟩

end SignedData

end LedgerWire

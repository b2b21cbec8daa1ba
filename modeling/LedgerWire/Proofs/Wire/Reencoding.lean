import LedgerWire.Proofs.Wire.ArmCount
import LedgerWire.Proofs.Wire.OwnerShape
import LedgerWire.Proofs.Wire.RepeatedKey

/-!
What has been read can be written and read again, and is the same value. A value that comes from a
text within the limit on open lists and records is written within it, also where it passes through a
draft whose parts are decoded later.
-/

namespace LedgerWire

open Json

namespace Json.Codec

variable {α : Type}

theorem Lawful.height_le_of_decode {codec : Codec α} {least : Nat} (lawful : codec.Lawful least)
    (within : least ≤ depthLimit) {bytes : Bytes} {value : α} (decoded : codec.decode bytes = .ok value) :
    (codec.toValue value).height ≤ depthLimit := by
  obtain ⟨rest, read, _⟩ := decode_eq_ok.1 decoded
  have bound := lawful.nests depthLimit bytes value ⟨rest, read⟩
  omega

end Json.Codec

theorem Owner.ofBytes_toBytes (owner : Owner) : ofBytes owner.toBytes = .ok owner := by
  cases owner with
  | named name =>
      have decoded := Codec.decode_encode Codec.Lawful.string.coherent Codec.Lawful.string.inverts
        (writesExact_string name trivial) (Nat.zero_le _)
      exact ofBytes_iff.2 (Or.inl ⟨name, decoded, rfl⟩)
  | ruled rule =>
      have low : openAtOnce (OwnerRule.codec.encode rule) ≤ depthLimit := by
        have counted : openAtOnce (OwnerRule.codec.encode rule) = rule.toValue.height :=
          openAtOnce_bytes rule.writesExact_toValue
        rw [counted]
        exact Nat.le_trans rule.height_toValue (by decide)
      exact ofBytes_iff.2 (Or.inr ⟨rule, (OwnerRule.roundTrips rule trivial).1 low, rfl⟩)

theorem Operation.ofBytes_toBytes {operation : Operation} (free : operation.FloatFree)
    (fits : (codec.toValue operation).height ≤ depthLimit) :
    ofBytes operation.toBytes = .ok operation :=
  ofBytes_eq_ok.2 (Codec.decode_encode lawful.coherent lawful.inverts (writesExact operation free) fits)

theorem SignedDraft.lawful : codec.Lawful 2 := .record lawful_fields

theorem SignedDraft.height_form {draft : SignedDraft} {form : FreeForm}
    (member : form ∈ draft.operations) : form.value.height + 2 ≤ (codec.toValue draft).height := by
  have written : ("transactions", Codec.freeForm.list.toValue draft.operations) ∈
      fields.members draft := by
    refine List.mem_append_left _ ?_
    change _ ∈ (Fields.optionalList "transactions" Codec.freeForm).members draft.operations
    cases shape : draft.operations with
    | nil =>
        rw [shape] at member
        exact absurd member List.not_mem_nil
    | cons first others => exact List.mem_cons_self
  have inRecord := heightOfMembers_le.1 (Nat.le_refl (heightOfMembers (fields.members draft))) _ written
  have inList := heightOfItems_le.1 (Nat.le_refl (heightOfItems (draft.operations.map FreeForm.value)))
    form.value (List.mem_map_of_mem member)
  change heightOfItems (draft.operations.map FreeForm.value) + 1 ≤ _ at inRecord
  change _ ≤ heightOfMembers (fields.members draft) + 1
  omega

namespace SignedData

theorem height_otherFields (parts : Address × ObjectRef × UInt64) :
    heightOfMembers (otherFields.members parts) = 1 := rfl

theorem height_toValue_le {data : SignedData} {bound : Nat} (room : 2 ≤ bound)
    (each : ∀ operation ∈ data.operations, (Operation.codec.toValue operation).height + 2 ≤ bound) :
    (codec.toValue data).height ≤ bound := by
  have members : heightOfMembers (fields.members data) ≤ bound - 1 := by
    rw [heightOfMembers_le]
    intro member written
    rcases List.mem_append.1 written with inOperations | inOthers
    · change member ∈ (Fields.optionalList "transactions" Operation.codec).members data.operations
        at inOperations
      cases shape : data.operations with
      | nil =>
          rw [shape] at inOperations
          exact absurd inOperations List.not_mem_nil
      | cons first others =>
          rw [shape] at inOperations
          rw [List.mem_singleton.1 inOperations, ← shape]
          have items : heightOfItems (data.operations.map Operation.codec.toValue) ≤ bound - 2 := by
            rw [heightOfItems_le]
            intro value inside
            obtain ⟨operation, held, same⟩ := List.mem_map.1 inside
            have low := each operation held
            rw [← same]
            omega
          change heightOfItems (data.operations.map Operation.codec.toValue) + 1 ≤ _
          omega
    · have low := heightOfMembers_le.1 (Nat.le_of_eq (height_otherFields _)) member inOthers
      omega
  change heightOfMembers (fields.members data) + 1 ≤ bound
  omega

theorem height_le_of_ofBytes {bytes : Bytes} {data : SignedData} (read : ofBytes bytes = .ok data) :
    (codec.toValue data).height ≤ depthLimit := by
  simp only [ofBytes, asDecoded, bind_eq_ok, mapError_eq_ok] at read
  obtain ⟨draft, drafted, finished⟩ := read
  have draftLow := SignedDraft.lawful.height_le_of_decode (by decide) drafted
  obtain ⟨decoded, _⟩ := toSignedData_eq_ok.1 finished
  refine height_toValue_le (by decide) ?_
  intro operation member
  obtain ⟨form, held, operationDecoded⟩ := forall₂_left decoded member
  have formLow := SignedDraft.height_form held
  have shrunk := Operation.lawful.shrinks form.value operation operationDecoded
  have room : 6 ≤ depthLimit := by decide
  omega

theorem ofBytes_toBytes {data : SignedData} (free : data.FloatFree)
    (fits : (codec.toValue data).height ≤ depthLimit) : ofBytes data.toBytes = .ok data := by
  have parsed := Value.ofBytes_bytes _ (writesExact data free) fits
  have settled := (settledCodec_ofValue_iff (lawful.distinct data)).2 (lawful.inverts data)
  exact ofBytes_iff_settledCodec.2 ((coherent_settledCodec.decode_iff_ofValue parsed).2 settled)

end SignedData

/-- Owners, operations and signed data that have been read from a payload, whatever its form, are
written as payloads from which they are read again. -/
theorem reread_after_reading (bytes : Bytes) :
    (∀ owner, Owner.ofBytes bytes = .ok owner → Owner.ofBytes owner.toBytes = .ok owner) ∧
    (∀ operation, Operation.ofBytes bytes = .ok operation → operation.FloatFree →
      Operation.ofBytes operation.toBytes = .ok operation) ∧
    ∀ data, SignedData.ofBytes bytes = .ok data → data.FloatFree →
      SignedData.ofBytes data.toBytes = .ok data := by
  refine ⟨?_, ?_, ?_⟩
  · intro owner _
    exact owner.ofBytes_toBytes
  · intro operation read free
    have decoded := Operation.ofBytes_eq_ok.1 read
    exact Operation.ofBytes_toBytes free (Operation.lawful.height_le_of_decode (by decide) decoded)
  · intro data read free
    exact SignedData.ofBytes_toBytes free (SignedData.height_le_of_ofBytes read)

/-! Payloads that are not what is written: a shared object's field and those of a transfer as lists,
a key that is no field, an address of one digit, and a key given twice. -/

def sharedAsList : Value := .record [("Shared", .list [.text "+5"])]

def transferAsList : Value :=
  .record [("memo", .text ""), ("TransferSui", .list [.text "0x2", .number (ofNatural 5)])]

def transferToTwo : Operation := .transferNative ⟨⟨List.replicate 31 0 ++ [2], rfl⟩, 5⟩

theorem other_forms_reread :
    (Owner.ofBytes sharedAsList.bytes = .ok (.ruled (.shared ⟨5⟩)) ∧
      Owner.ofBytes (Owner.ruled (.shared ⟨5⟩)).toBytes = .ok (.ruled (.shared ⟨5⟩))) ∧
    (Operation.ofBytes transferAsList.bytes = .ok transferToTwo ∧
      Operation.ofBytes transferToTwo.toBytes = .ok transferToTwo) ∧
    SignedData.ofBytes SignedData.withTwoAmounts.bytes = .ok (SignedData.oneTransfer 2) ∧
      SignedData.ofBytes (SignedData.oneTransfer 2).toBytes = .ok (SignedData.oneTransfer 2) := by
  have ownerParsed := Value.ofBytes_bytes sharedAsList ⟨⟨trivial, trivial⟩, trivial⟩ (by decide)
  have owner : Owner.ofBytes sharedAsList.bytes = .ok (.ruled (.shared ⟨5⟩)) :=
    Owner.ofBytes_iff_decode.2 (Or.inr ⟨⟨5⟩, rfl, .text "+5", ownerParsed, rfl⟩)
  have operationParsed := Value.ofBytes_bytes transferAsList
    ⟨trivial, ⟨trivial, trivial, trivial⟩, trivial⟩ (by decide)
  have operation : Operation.ofBytes transferAsList.bytes = .ok transferToTwo :=
    Operation.ofBytes_eq_ok.2
      ((Operation.lawful.coherent.decode_iff_ofValue operationParsed).2 rfl)
  have dataParsed := Value.ofBytes_bytes SignedData.withTwoAmounts
    ⟨⟨⟨⟨trivial, trivial, trivial, trivial⟩, trivial⟩, trivial⟩,
      trivial, ⟨trivial, trivial, trivial, trivial⟩, trivial, trivial⟩ (by decide)
  have data : SignedData.ofBytes SignedData.withTwoAmounts.bytes = .ok (SignedData.oneTransfer 2) :=
    SignedData.ofBytes_iff_settledCodec.2
      ((SignedData.coherent_settledCodec.decode_iff_ofValue dataParsed).2
        SignedData.ofValue_withTwoAmounts)
  exact ⟨⟨owner, (reread_after_reading sharedAsList.bytes).1 _ owner⟩,
    ⟨operation, (reread_after_reading transferAsList.bytes).2.1 _ operation trivial⟩,
    data, (reread_after_reading SignedData.withTwoAmounts.bytes).2.2 _ data
      (SignedData.floatFree_oneTransfer 2)⟩

end LedgerWire

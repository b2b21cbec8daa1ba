import LedgerWire.Proofs.Wire.Counters
import LedgerWire.Proofs.Wire.Reencoding
import LedgerWire.Proofs.Wire.SingleField

/-!
Signed data whose parts are faulty, any number of them at once. The operations are looked at in their
order, then the sender, then the id and the digest of the object that pays for gas; the first of these
that fails is told of, in the words of its own fault.
-/

namespace LedgerWire

open Json

namespace SignedDraft

/-- An operation fails as a record of operations, or for the number of fields that are filled. -/
inductive OperationFault (form : FreeForm) : DecodeFault → Prop
  | malformed {fault : Json.Fault} (refused : OperationRecord.codec.ofValue form.value = .error fault) :
      OperationFault form (.json fault)
  | armCount {record : OperationRecord} (read : OperationRecord.codec.ofValue form.value = .ok record)
      (notOne : record.populated ≠ 1) : OperationFault form (.armCount record.populated)

def IsOperation (form : FreeForm) (operation : Operation) : Prop :=
  OperationRecord.codec.ofValue form.value = .ok operation.toRecord

/-- What is said of a draft with faulty parts: the parts before the one that is told of are sound. -/
inductive FirstFault (draft : SignedDraft) : DecodeFault → Prop
  | operation {before after : List FreeForm} {form : FreeForm} {fault : DecodeFault}
      (place : draft.operations = before ++ form :: after)
      (sound : ∀ earlier ∈ before, ∃ operation, IsOperation earlier operation)
      (fails : OperationFault form fault) : FirstFault draft fault
  | sender {fault : Identifier.Fault}
      (sound : ∀ form ∈ draft.operations, ∃ operation, IsOperation form operation)
      (refused : (Identifier.ofHex draft.sender : Except Identifier.Fault Address) = .error fault) :
      FirstFault draft (.identifier fault)
  | object {sender : Address} {fault : Identifier.Fault}
      (sound : ∀ form ∈ draft.operations, ∃ operation, IsOperation form operation)
      (senderRead : Identifier.ofHex draft.sender = .ok sender)
      (refused : (Identifier.ofHex draft.gas.id : Except Identifier.Fault ObjectId) = .error fault) :
      FirstFault draft (.identifier fault)
  | digest {sender : Address} {id : ObjectId} {fault : Base64.Fault}
      (sound : ∀ form ∈ draft.operations, ∃ operation, IsOperation form operation)
      (senderRead : Identifier.ofHex draft.sender = .ok sender)
      (idRead : Identifier.ofHex draft.gas.id = .ok id)
      (refused : Payload.ofText draft.gas.digest = .error fault) : FirstFault draft (.payload fault)

theorem toOperation_eq_ok_iff {form : FreeForm} {operation : Operation} :
    toOperation form = .ok operation ↔ IsOperation form operation := by
  simp only [toOperation, asDecoded, bind_eq_ok, mapError_eq_ok, OperationRecord.ofRecord_eq_ok,
    exists_eq_right, IsOperation]

theorem toOperation_eq_error {form : FreeForm} {fault : DecodeFault} :
    toOperation form = .error fault ↔ OperationFault form fault := by
  simp only [toOperation, asDecoded, Operation.ofRecord, bind_eq_error, mapError_eq_error,
    mapError_eq_ok, OperationRecord.toOperation_eq_error]
  constructor
  · rintro (⟨cause, refused, same⟩ | ⟨record, read, count, ⟨populated, notOne⟩, same⟩)
    · rw [← same]
      exact .malformed refused
    · rw [← same, ← populated]
      exact .armCount read (populated ▸ notOne)
  · intro fails
    cases fails with
    | malformed refused => exact Or.inl ⟨_, refused, rfl⟩
    | armCount read notOne => exact Or.inr ⟨_, read, _, ⟨rfl, notOne⟩, rfl⟩

theorem sound_of_mapM {draft : SignedDraft} {operations : List Operation}
    (decoded : draft.operations.mapM toOperation = .ok operations) :
    ∀ form ∈ draft.operations, ∃ operation, IsOperation form operation := by
  intro form member
  obtain ⟨operation, _, outcome⟩ := forall₂_left (mapM_eq_ok.1 decoded).flip member
  exact ⟨operation, toOperation_eq_ok_iff.1 outcome⟩

theorem mapM_of_sound {forms : List FreeForm}
    (sound : ∀ form ∈ forms, ∃ operation, IsOperation form operation) :
    ∃ operations, forms.mapM toOperation = .ok operations := by
  cases outcome : forms.mapM toOperation with
  | ok operations => exact ⟨operations, rfl⟩
  | error fault =>
      obtain ⟨before, form, after, place, failed, _⟩ := mapM_eq_error.1 outcome
      obtain ⟨operation, isOperation⟩ := sound form (by simp [place])
      rw [toOperation_eq_ok_iff.2 isOperation] at failed
      simp at failed

theorem toSignedData_eq_error {draft : SignedDraft} {fault : DecodeFault} :
    draft.toSignedData = .error fault ↔ FirstFault draft fault := by
  simp only [toSignedData, ObjectRefDraft.toObjectRef, bind_eq_error, mapError_eq_error, mapError_eq_ok,
    reduceCtorEq, and_false, exists_false, or_false]
  constructor
  · rintro (failed | ⟨operations, decoded, ⟨cause, refused, same⟩ |
      ⟨sender, senderRead, ⟨cause, refused, same⟩ | ⟨id, idRead, cause, refused, same⟩⟩⟩)
    · obtain ⟨before, form, after, place, failed, succeeded⟩ := mapM_eq_error.1 failed
      refine .operation place ?_ (toOperation_eq_error.1 failed)
      intro earlier member
      obtain ⟨operation, outcome⟩ := succeeded earlier member
      exact ⟨operation, toOperation_eq_ok_iff.1 outcome⟩
    · rw [← same]
      exact .sender (sound_of_mapM decoded) refused
    · rw [← same]
      exact .object (sound_of_mapM decoded) senderRead refused
    · rw [← same]
      exact .digest (sound_of_mapM decoded) senderRead idRead refused
  · intro first
    cases first with
    | operation place sound fails =>
        refine Or.inl (mapM_eq_error.2 ⟨_, _, _, place, toOperation_eq_error.2 fails, ?_⟩)
        intro earlier member
        obtain ⟨operation, isOperation⟩ := sound earlier member
        exact ⟨operation, toOperation_eq_ok_iff.2 isOperation⟩
    | sender sound refused =>
        obtain ⟨operations, decoded⟩ := mapM_of_sound sound
        exact Or.inr ⟨operations, decoded, Or.inl ⟨_, refused, rfl⟩⟩
    | object sound senderRead refused =>
        obtain ⟨operations, decoded⟩ := mapM_of_sound sound
        exact Or.inr ⟨operations, decoded, Or.inr ⟨_, senderRead, Or.inl ⟨_, refused, rfl⟩⟩⟩
    | digest sound senderRead idRead refused =>
        obtain ⟨operations, decoded⟩ := mapM_of_sound sound
        exact Or.inr ⟨operations, decoded, Or.inr ⟨_, senderRead, Or.inr ⟨_, idRead, _, refused, rfl⟩⟩⟩

/-- A draft as the members of a record have it: any values for operations, and any texts for the
sender and in the object that pays for gas. -/
structure WrittenAs (members inside : Members) (draft : SignedDraft) : Prop where
  operations : (valuesAt "transactions" members = [] ∧ draft.operations = []) ∨
    ∃ items, valuesAt "transactions" members = [.list items] ∧
      draft.operations = items.map FreeForm.ofValue
  sender : valuesAt "sender" members = [.text draft.sender]
  gas : valuesAt "gasPayment" members = [.record inside]
  id : valuesAt "objectId" inside = [.text draft.gas.id]
  version : Under "version" inside (Counter.StandsFor · draft.gas.version.number)
  digest : valuesAt "digest" inside = [.text draft.gas.digest]
  budget : valuesAt "gasBudget" members = [.number (ofNatural draft.budget)]

theorem ofMembers_string {key text : String} {members : Members}
    (held : valuesAt key members = [.text text]) :
    (Fields.required key .string).ofMembers members = .ok text :=
  Fields.ofMembers_required.2 ⟨_, held, rfl⟩

theorem ofMembers_operations {members : Members} {forms : List FreeForm}
    (held : (valuesAt "transactions" members = [] ∧ forms = []) ∨
      ∃ items, valuesAt "transactions" members = [.list items] ∧ forms = items.map FreeForm.ofValue) :
    (Fields.optionalList "transactions" Codec.freeForm).ofMembers members = .ok forms := by
  rw [Fields.ofMembers_eq, Fields.optionalList, Fields.placeValue_single, Fields.collect_single]
  rcases held with ⟨absent, none⟩ | ⟨items, held, same⟩
  · rw [absent, none]
    rfl
  · rw [held]
    refine Codec.list_ofValue_iff.2 ⟨items, rfl, ?_⟩
    rw [same, List.forall₂_map_right_iff]
    exact List.forall₂_same.2 fun item _ => rfl

variable {members inside : Members} {draft : SignedDraft}

theorem WrittenAs.gasOfMembers (written : draft.WrittenAs members inside) :
    ObjectRefDraft.fields.ofMembers inside = .ok draft.gas := by
  rw [ObjectRefDraft.fields, Fields.ofMembers_as, map_eq_ok]
  refine ⟨(draft.gas.id, draft.gas.version, draft.gas.digest), ?_, rfl⟩
  refine (Fields.ofMembers_both (Fields.apart_of_keys (by decide))).2 ⟨ofMembers_string written.id, ?_⟩
  refine (Fields.ofMembers_both (Fields.apart_of_keys (by decide))).2 ⟨?_, ofMembers_string written.digest⟩
  obtain ⟨version, held, counts⟩ := written.version
  exact Fields.ofMembers_required.2 ⟨version, held, Version.ofValue_iff.2 counts⟩

theorem WrittenAs.ofMembers (written : draft.WrittenAs members inside) :
    fields.ofMembers members = .ok draft := by
  rw [fields, Fields.ofMembers_as, map_eq_ok]
  refine ⟨(draft.operations, draft.sender, draft.gas, draft.budget), ?_, rfl⟩
  refine (Fields.ofMembers_both (Fields.apart_of_keys (by decide))).2
    ⟨ofMembers_operations written.operations, ?_⟩
  refine (Fields.ofMembers_both (Fields.apart_of_keys (by decide))).2 ⟨ofMembers_string written.sender, ?_⟩
  refine (Fields.ofMembers_both (Fields.apart_of_keys (by decide))).2 ⟨?_, ?_⟩
  · exact Fields.ofMembers_required.2 ⟨_, written.gas, written.gasOfMembers⟩
  · exact Fields.ofMembers_required.2 ⟨_, written.budget, Codec.inverts_natural draft.budget⟩

theorem WrittenAs.decode (written : draft.WrittenAs members inside) {bytes : Bytes}
    (parsed : Value.ofBytes bytes = .ok (.record members)) : codec.decode bytes = .ok draft :=
  (lawful.coherent.decode_iff_ofValue parsed).2 written.ofMembers

end SignedDraft

namespace SignedData

theorem ofBytes_of_draft {bytes : Bytes} {draft : SignedDraft}
    (read : SignedDraft.codec.decode bytes = .ok draft) : ofBytes bytes = draft.toSignedData := by
  rw [ofBytes, read]
  rfl

theorem ofBytes_of_no_draft {bytes : Bytes} {fault : Json.Fault}
    (refused : SignedDraft.codec.decode bytes = .error fault) : ofBytes bytes = .error (.json fault) := by
  rw [ofBytes, refused]
  rfl

def AnyFault (draft : SignedDraft) : Prop :=
  (∃ form ∈ draft.operations, ∃ fault, SignedDraft.OperationFault form fault) ∨
    (∃ fault, (Identifier.ofHex draft.sender : Except Identifier.Fault Address) = .error fault) ∨
    (∃ fault, (Identifier.ofHex draft.gas.id : Except Identifier.Fault ObjectId) = .error fault) ∨
    ∃ fault, Payload.ofText draft.gas.digest = .error fault

/-- Every part of the draft can be decoded, and these are the parts of the data. -/
structure Finishes (draft : SignedDraft) (data : SignedData) : Prop where
  operations : List.Forall₂ SignedDraft.IsOperation draft.operations data.operations
  sender : Identifier.ofHex draft.sender = .ok data.sender
  id : Identifier.ofHex draft.gas.id = .ok data.gas.id
  version : data.gas.version = draft.gas.version
  digest : Payload.ofText draft.gas.digest = .ok data.gas.digest
  budget : data.budget = draft.budget

theorem toSignedData_finishes {draft : SignedDraft} {data : SignedData} :
    draft.toSignedData = .ok data ↔ Finishes draft data := by
  have operation : ∀ form result, Operation.codec.ofValue form.value = .ok result ↔
      SignedDraft.IsOperation form result := fun form result =>
    SignedDraft.toOperation_eq_ok.symm.trans SignedDraft.toOperation_eq_ok_iff
  simp only [toSignedData_eq_ok, ObjectRefDraft.toObjectRef_eq_ok, operation]
  constructor
  · rintro ⟨operations, sender, ⟨id, version, digest⟩, budget⟩
    exact ⟨operations, sender, id, version.symm, digest, budget.symm⟩
  · rintro ⟨operations, sender, id, version, digest, budget⟩
    exact ⟨operations, sender, ⟨id, version.symm, digest⟩, budget.symm⟩

theorem Finishes.noFault {draft : SignedDraft} {data : SignedData} (finishes : Finishes draft data) :
    ¬ AnyFault draft := by
  rintro (⟨form, member, fault, fails⟩ | ⟨fault, refused⟩ | ⟨fault, refused⟩ | ⟨fault, refused⟩)
  · obtain ⟨operation, _, isOperation⟩ := forall₂_left finishes.operations.flip member
    have outcome := SignedDraft.toOperation_eq_error.2 fails
    rw [SignedDraft.toOperation_eq_ok_iff.2 isOperation] at outcome
    simp at outcome
  · rw [finishes.sender] at refused
    simp at refused
  · rw [finishes.id] at refused
    simp at refused
  · rw [finishes.digest] at refused
    simp at refused

theorem anyFault_of_first {draft : SignedDraft} {fault : DecodeFault}
    (first : SignedDraft.FirstFault draft fault) : AnyFault draft := by
  cases first with
  | operation place sound fails => exact Or.inl ⟨_, by simp [place], _, fails⟩
  | sender sound refused => exact Or.inr (Or.inl ⟨_, refused⟩)
  | object sound senderRead refused => exact Or.inr (Or.inr (Or.inl ⟨_, refused⟩))
  | digest sound senderRead idRead refused => exact Or.inr (Or.inr (Or.inr ⟨_, refused⟩))

theorem exists_error_iff {draft : SignedDraft} :
    (∃ fault, draft.toSignedData = .error fault) ↔ AnyFault draft := by
  constructor
  · rintro ⟨fault, failed⟩
    exact anyFault_of_first (SignedDraft.toSignedData_eq_error.1 failed)
  · intro anyFault
    cases outcome : draft.toSignedData with
    | error fault => exact ⟨fault, rfl⟩
    | ok data => exact absurd anyFault (toSignedData_finishes.1 outcome).noFault

/-- A payload that is no draft is refused with the fault of its text; a record whose operations are any
values and whose identifiers are any texts is one. A draft is refused exactly where a part of it is
faulty, for the first that is, and otherwise its parts are decoded each on its own. -/
theorem first_fault_told (bytes : Bytes) :
    (∀ fault, SignedDraft.codec.decode bytes = .error fault → ofBytes bytes = .error (.json fault)) ∧
    (∀ members inside draft, Value.ofBytes bytes = .ok (.record members) →
      SignedDraft.WrittenAs members inside draft → SignedDraft.codec.decode bytes = .ok draft) ∧
    ∀ draft, SignedDraft.codec.decode bytes = .ok draft →
      ((∃ fault, ofBytes bytes = .error fault) ↔ AnyFault draft) ∧
      (∀ fault, ofBytes bytes = .error fault ↔ SignedDraft.FirstFault draft fault) ∧
      ∀ data, ofBytes bytes = .ok data ↔ Finishes draft data := by
  refine ⟨fun fault refused => ofBytes_of_no_draft refused,
    fun members inside draft parsed written => written.decode parsed, ?_⟩
  intro draft read
  rw [ofBytes_of_draft read]
  exact ⟨exists_error_iff, fun _ => SignedDraft.toSignedData_eq_error, fun _ => toSignedData_finishes⟩

def faultyGas : Members := [("digest", .text "!"), ("version", .text "3"), ("objectId", .text "0xzz")]

def faultyMembers (operations : List Value) : Members :=
  [("gasBudget", .number (ofNatural 10)), ("gasPayment", .record faultyGas), ("sender", .text "0xyy"),
    ("transactions", .list operations)]

def faultyDraft (operations : List Value) : SignedDraft :=
  ⟨operations.map FreeForm.ofValue, "0xyy", ⟨"0xzz", ⟨3⟩, "!"⟩, 10⟩

theorem faultyDraft_written (operations : List Value) :
    SignedDraft.WrittenAs (faultyMembers operations) faultyGas (faultyDraft operations) where
  operations := Or.inr ⟨operations, rfl, rfl⟩
  sender := rfl
  gas := rfl
  id := rfl
  version := by
    have digits : DigitsFor ['3'] 3 := ⟨by simp, by simp [Char.isDigit], rfl⟩
    exact ⟨.text "3", rfl, .text (Or.inl rfl) digits⟩
  digest := rfl
  budget := rfl

def soundTransfer : Value :=
  .record [("TransferSui", .record [("recipient", .text (Identifier.zero addressWidth).fullText),
    ("amount", .number (ofNatural 1))])]

theorem soundTransfer_isOperation :
    SignedDraft.IsOperation (.ofValue soundTransfer) (.transferNative ⟨.zero addressWidth, 1⟩) := rfl

theorem operations_before_sender :
    ofBytes (Value.record (faultyMembers [soundTransfer, .record [], .null])).bytes =
        .error (.armCount 0) ∧
      ofBytes (Value.record (faultyMembers [soundTransfer])).bytes =
        .error (.identifier (.notHex "0xyy" ⟨0x79, 0⟩)) := by
  have decoded : ∀ operations, (Value.record (faultyMembers operations)).Exact →
      (Value.record (faultyMembers operations)).height ≤ depthLimit →
        SignedDraft.codec.decode (Value.record (faultyMembers operations)).bytes =
          .ok (faultyDraft operations) := by
    intro operations exact low
    exact (first_fault_told _).2.1 _ _ _ (Value.ofBytes_bytes _ exact low) (faultyDraft_written operations)
  constructor
  · have exact : (Value.record (faultyMembers [soundTransfer, .record [], .null])).Exact := by
      simp [faultyMembers, faultyGas, soundTransfer, Value.Exact, exactMembers, exactItems, ofNatural]
    have read := decoded _ exact (by decide)
    refine (((first_fault_told _).2.2 _ read).2.1 _).2 ?_
    have place : (faultyDraft [soundTransfer, .record [], .null]).operations =
        [.ofValue soundTransfer] ++ .ofValue (.record []) :: [.ofValue .null] := rfl
    have noField : OperationRecord.codec.ofValue (FreeForm.ofValue (.record [])).value =
        .ok OperationRecord.empty := rfl
    refine .operation place ?_ (.armCount noField (by decide))
    intro earlier member
    rw [List.mem_singleton.1 member]
    exact ⟨_, soundTransfer_isOperation⟩
  · have exact : (Value.record (faultyMembers [soundTransfer])).Exact := by
      simp [faultyMembers, faultyGas, soundTransfer, Value.Exact, exactMembers, exactItems, ofNatural]
    have read := decoded _ exact (by decide)
    refine (((first_fault_told _).2.2 _ read).2.1 _).2 (.sender ?_ rfl)
    intro form member
    rw [List.mem_singleton.1 member]
    exact ⟨_, soundTransfer_isOperation⟩

end SignedData

end LedgerWire

import LedgerWire.Proofs.Json.Leniency
import LedgerWire.Proofs.Wire.Reencoding

/-!
Signed data with an identifier that is misspelt and nothing else wrong with it. The sender and the
object that pays for gas are told of in the words of the identifier's own fault. In an operation the
same fault comes out as a mismatch of the JSON text, which has its words but not its kind.
-/

namespace LedgerWire

open Json

/-- Identifiers, where one text is let through whatever it says. -/
def Address.codecTaking (text : String) : Codec Address :=
  .ofString ("a hex string of at most " ++ toString addressWidth ++ " bytes") Identifier.fullText
    fun other =>
      if other = text then .ok (.zero addressWidth)
      else (Identifier.ofHex other).mapError Identifier.Fault.message

def mismatchOf (fault : Identifier.Fault) : Json.Fault := .mismatch (.refused fault.message)

theorem Address.follows_codecTaking {text : String} {fault : Identifier.Fault}
    (misspelt : (Identifier.ofHex text : Except Identifier.Fault Address) = .error fault) :
    Address.codec.Follows (mismatchOf fault) (codecTaking text) := by
  refine .ofString fun other result taken => ?_
  split at taken
  · rename_i same
    rw [same, misspelt]
    exact Or.inr rfl
  · exact Or.inl taken

variable {fault : Json.Fault} {strict lenient : Codec Address}

theorem ObjectRef.follows (follows : strict.Follows fault lenient) :
    (codecOver strict).Follows fault (codecOver lenient) :=
  .record (.as (.both (.required _ follows) (.refl _)))

theorem ObjectTransfer.follows (follows : strict.Follows fault lenient) :
    (codecOver strict).Follows fault (codecOver lenient) :=
  .record (.as (.both (.required _ follows) (.required _ (ObjectRef.follows follows))))

theorem FunctionCall.follows (follows : strict.Follows fault lenient) :
    (codecOver strict).Follows fault (codecOver lenient) :=
  .record (.as (.both (.required _ follows) (.refl _)))

theorem CoinTransfer.follows (follows : strict.Follows fault lenient) :
    (codecOver strict).Follows fault (codecOver lenient) :=
  .record (.as (.both (.required _ follows) (.refl _)))

theorem Payment.follows (expected : String) (follows : strict.Follows fault lenient) :
    (codecOver expected strict).Follows fault (codecOver expected lenient) :=
  .record (.as (.both (.required _ (ObjectRef.follows follows).list)
    (.both (.required _ follows.list) (.refl _))))

theorem Sweep.follows (follows : strict.Follows fault lenient) :
    (codecOver strict).Follows fault (codecOver lenient) :=
  .record (.as (.both (.required _ (ObjectRef.follows follows).list) (.required _ follows)))

theorem OperationRecord.follows (follows : strict.Follows fault lenient) :
    (codecOver strict).Follows fault (codecOver lenient) :=
  .record (.as (.both (.optional _ (ObjectTransfer.follows follows))
    (.both (.refl _)
      (.both (.optional _ (FunctionCall.follows follows))
        (.both (.optional _ (CoinTransfer.follows follows))
          (.both (.refl _)
            (.both (.optional _ (Payment.follows _ follows))
              (.both (.optional _ (Payment.follows _ follows))
                (.optional _ (Sweep.follows follows))))))))))

namespace SignedDraft

/-- Every part of a draft can be decoded, where `text` is let through as an identifier. -/
structure GoodBut (text : String) (draft : SignedDraft) : Prop where
  operations : ∀ form ∈ draft.operations, ∃ operation : Operation,
    (OperationRecord.codecOver (Address.codecTaking text)).ofValue form.value = .ok operation.toRecord
  sender : draft.sender = text ∨ ∃ sender : Address, Identifier.ofHex draft.sender = .ok sender
  gas : draft.gas.id = text ∨ ∃ id : ObjectId, Identifier.ofHex draft.gas.id = .ok id
  digest : ∃ digest, Payload.ofText draft.gas.digest = .ok digest

/-- One of the operations cannot be decoded as it stands. -/
def SpoilsOperation (draft : SignedDraft) : Prop :=
  ∃ form ∈ draft.operations, ∀ operation, toOperation form ≠ .ok operation

variable {text : String} {misspelling : Identifier.Fault} {draft : SignedDraft}

theorem toOperation_of_good {form : FreeForm} {operation : Operation}
    (misspelt : (Identifier.ofHex text : Except Identifier.Fault Address) = .error misspelling)
    (good : (OperationRecord.codecOver (Address.codecTaking text)).ofValue form.value =
      .ok operation.toRecord) :
    toOperation form = .ok operation ∨ toOperation form = .error (.json (mismatchOf misspelling)) := by
  have follows : OperationRecord.codec.Follows _ _ :=
    OperationRecord.follows (Address.follows_codecTaking misspelt)
  rcases follows form.value _ good with ⟨record, read, same⟩ | blamed
  · refine Or.inl (toOperation_eq_ok.2 ?_)
    rw [same] at read
    exact Codec.refine_ofValue_iff.2
      ⟨_, read, mapError_eq_ok.2 (OperationRecord.toOperation_eq_ok.2 rfl)⟩
  · refine Or.inr ?_
    rw [toOperation, blamed]
    rfl

theorem operations_of_good
    (misspelt : (Identifier.ofHex text : Except Identifier.Fault Address) = .error misspelling)
    {forms : List FreeForm}
    (good : ∀ form ∈ forms, ∃ operation : Operation,
      (OperationRecord.codecOver (Address.codecTaking text)).ofValue form.value =
        .ok operation.toRecord) :
    (∃ operations, forms.mapM toOperation = .ok operations) ∨
      forms.mapM toOperation = .error (.json (mismatchOf misspelling)) ∧
        ∃ form ∈ forms, ∀ operation, toOperation form ≠ .ok operation := by
  induction forms with
  | nil => exact Or.inl ⟨[], rfl⟩
  | cons form rest ih =>
      obtain ⟨operation, taken⟩ := good form List.mem_cons_self
      rw [List.mapM_cons]
      rcases toOperation_of_good misspelt taken with decoded | blamed
      · rw [decoded, ok_bind]
        rcases ih fun other member => good other (List.mem_cons_of_mem _ member) with
          ⟨operations, others⟩ | ⟨blamed, spoilt, member, undecoded⟩
        · rw [others]
          exact Or.inl ⟨operation :: operations, rfl⟩
        · rw [blamed]
          exact Or.inr ⟨rfl, spoilt, List.mem_cons_of_mem _ member, undecoded⟩
      · rw [blamed]
        refine Or.inr ⟨rfl, form, List.mem_cons_self, ?_⟩
        intro other decoded
        rw [blamed] at decoded
        simp at decoded

theorem not_spoilsOperation {operations : List Operation}
    (decoded : draft.operations.mapM toOperation = .ok operations) : ¬ draft.SpoilsOperation := by
  rintro ⟨form, member, undecoded⟩
  obtain ⟨operation, _, outcome⟩ := forall₂_left (mapM_eq_ok.1 decoded).flip member
  exact undecoded operation outcome

theorem toSignedData_of_good {operations : List Operation}
    (misspelt : (Identifier.ofHex text : Except Identifier.Fault Address) = .error misspelling)
    (good : draft.GoodBut text) (decoded : draft.operations.mapM toOperation = .ok operations)
    (found : draft.sender = text ∨ draft.gas.id = text) :
    draft.toSignedData = .error (.identifier misspelling) := by
  simp only [toSignedData, ObjectRefDraft.toObjectRef, decoded, ok_bind]
  rcases good.sender with isText | ⟨sender, read⟩
  · rw [isText, misspelt]
    rfl
  · -- a sender that can be read is not the misspelt text
    have isGas : draft.gas.id = text := by
      rcases found with isSender | isGas
      · rw [isSender, misspelt] at read
        simp at read
      · exact isGas
    rw [read, isGas, misspelt]
    rfl

end SignedDraft

namespace SignedData

/-- Where a payload is good but for a misspelt identifier, the fault of that identifier is reported
exactly if no operation holds it; from an operation it comes as a mismatch of the JSON text. -/
theorem misspelt_identifier {bytes : Bytes} {draft : SignedDraft} {text : String}
    {misspelling : Identifier.Fault} (read : SignedDraft.codec.decode bytes = .ok draft)
    (misspelt : (Identifier.ofHex text : Except Identifier.Fault Address) = .error misspelling)
    (good : draft.GoodBut text)
    (found : draft.sender = text ∨ draft.gas.id = text ∨ draft.SpoilsOperation) :
    (ofBytes bytes = .error (.identifier misspelling) ↔ ¬ draft.SpoilsOperation) ∧
      (draft.SpoilsOperation → ofBytes bytes = .error (.json (mismatchOf misspelling))) := by
  have passed : ofBytes bytes = draft.toSignedData := by
    rw [ofBytes, read]
    rfl
  rw [passed]
  rcases SignedDraft.operations_of_good misspelt good.operations with
    ⟨operations, decoded⟩ | ⟨blamed, spoilt⟩
  · have notSpoilt := SignedDraft.not_spoilsOperation decoded
    have elsewhere : draft.sender = text ∨ draft.gas.id = text := by
      rcases found with isSender | isGas | spoils
      · exact Or.inl isSender
      · exact Or.inr isGas
      · exact absurd spoils notSpoilt
    have outcome := SignedDraft.toSignedData_of_good misspelt good decoded elsewhere
    exact ⟨⟨fun _ => notSpoilt, fun _ => outcome⟩, fun spoils => absurd spoils notSpoilt⟩
  · have outcome : draft.toSignedData = .error (.json (mismatchOf misspelling)) := by
      rw [SignedDraft.toSignedData, blamed]
      rfl
    rw [outcome]
    refine ⟨⟨fun impossible => ?_, fun notSpoilt => absurd spoilt notSpoilt⟩, fun _ => rfl⟩
    simp at impossible

def draftOf (sender recipient : String) : SignedDraft :=
  ⟨[.ofValue (.record [("TransferSui", .record [("amount", .number (ofNatural 1)),
      ("recipient", .text recipient)])])],
    sender, ⟨(Identifier.zero addressWidth).fullText, ⟨1⟩, ""⟩, 10⟩

theorem read_draftOf (sender recipient : String) :
    SignedDraft.codec.decode (SignedDraft.codec.encode (draftOf sender recipient)) =
      .ok (draftOf sender recipient) := by
  have exact : (SignedDraft.codec.toValue (draftOf sender recipient)).Exact :=
    ⟨⟨⟨⟨trivial, trivial, trivial⟩, trivial⟩, trivial⟩,
      trivial, ⟨trivial, trivial, trivial, trivial⟩, trivial, trivial⟩
  have low : (SignedDraft.codec.toValue (draftOf sender recipient)).height = 4 := rfl
  exact Codec.decode_encode SignedDraft.lawful.coherent SignedDraft.lawful.inverts exact
    (by rw [low]; decide)

theorem ofHex_zero :
    Identifier.ofHex (Identifier.zero addressWidth).fullText = .ok (.zero addressWidth : Address) :=
  Identifier.ofHex_fullText _

theorem good_draftOf {sender recipient : String}
    (senders : sender = "0xzz" ∨ sender = (Identifier.zero addressWidth).fullText)
    (recipients : recipient = "0xzz" ∨ recipient = (Identifier.zero addressWidth).fullText) :
    (draftOf sender recipient).GoodBut "0xzz" where
  operations := by
    intro form member
    rw [List.mem_singleton.1 member]
    refine ⟨.transferNative ⟨.zero addressWidth, 1⟩, ?_⟩
    rcases recipients with same | same
    · rw [same]
      rfl
    · rw [same]
      rfl
  sender := senders.imp_right fun same => ⟨_, (congrArg Identifier.ofHex same).trans ofHex_zero⟩
  gas := Or.inr ⟨_, ofHex_zero⟩
  digest := ⟨⟨[]⟩, rfl⟩

def misspelling : Identifier.Fault := .notHex "0xzz" ⟨0x7A, 0⟩

theorem misspelt_sender :
    ofBytes (SignedDraft.codec.encode (draftOf "0xzz" (Identifier.zero addressWidth).fullText)) =
      .error (.identifier misspelling) := by
  have good := good_draftOf (Or.inl rfl) (Or.inr rfl)
  have decoded :
      (draftOf "0xzz" (Identifier.zero addressWidth).fullText).operations.mapM
        SignedDraft.toOperation = .ok [.transferNative ⟨.zero addressWidth, 1⟩] := rfl
  have whole := SignedDraft.not_spoilsOperation decoded
  exact (misspelt_identifier (read_draftOf _ _) (by rfl) good (Or.inl rfl)).1.2 whole

theorem misspelt_recipient :
    (draftOf (Identifier.zero addressWidth).fullText "0xzz").GoodBut "0xzz" ∧
      (Identifier.ofHex "0xzz" : Except Identifier.Fault Address) = .error misspelling ∧
      SignedDraft.codec.decode (SignedDraft.codec.encode
        (draftOf (Identifier.zero addressWidth).fullText "0xzz")) =
          .ok (draftOf (Identifier.zero addressWidth).fullText "0xzz") ∧
      ofBytes (SignedDraft.codec.encode (draftOf (Identifier.zero addressWidth).fullText "0xzz")) =
        .error (.json (mismatchOf misspelling)) ∧
      ofBytes (SignedDraft.codec.encode (draftOf (Identifier.zero addressWidth).fullText "0xzz")) ≠
        .error (.identifier misspelling) := by
  have blamed :
      ofBytes (SignedDraft.codec.encode (draftOf (Identifier.zero addressWidth).fullText "0xzz")) =
        .error (.json (mismatchOf misspelling)) := by
    rw [ofBytes, read_draftOf]
    rfl
  refine ⟨good_draftOf (Or.inr rfl) (Or.inl rfl), rfl, read_draftOf _ _, blamed, ?_⟩
  rw [blamed]
  simp

end SignedData

end LedgerWire

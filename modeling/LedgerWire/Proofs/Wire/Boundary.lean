import LedgerWire.Boundary
import LedgerWire.Proofs.Outcome

/-!
What comes out of the boundary, apart from what is told to the log.
-/

namespace LedgerWire.Boundary

open Json

variable {α : Type}

theorem outcome_decode (codec : Codec α) (bytes : Bytes) :
    (decode codec bytes).outcome = (codec.decode bytes).mapError .json := by
  unfold decode
  cases codec.decode bytes with
  | ok value => rfl
  | error fault => rfl

theorem decode_eq_ok {codec : Codec α} {bytes : Bytes} {value : α} :
    (decode codec bytes).outcome = .ok value ↔ codec.decode bytes = .ok value := by
  rw [outcome_decode, mapError_eq_ok]

theorem logged_eq_ok {target : String} {bytes : Bytes} {outcome : Except DecodeFault α} {value : α} :
    (logged target bytes outcome).outcome = .ok value ↔ outcome = .ok value := by
  unfold logged
  cases outcome with
  | ok decoded => simp
  | error fault => simp

theorem decodeOperation_eq_ok {bytes : Bytes} {operation : Operation} :
    (decodeOperation bytes).outcome = .ok operation ↔ Operation.ofBytes bytes = .ok operation :=
  logged_eq_ok

theorem decodeOwner_eq_ok {bytes : Bytes} {owner : Owner} :
    (decodeOwner bytes).outcome = .ok owner ↔ Owner.ofBytes bytes = .ok owner :=
  logged_eq_ok

theorem decodeSignedData_eq_ok {bytes : Bytes} {data : SignedData} :
    (decodeSignedData bytes).outcome = .ok data ↔
      SignedData.ofBytes bytes = .ok data ∧ data.check = .ok () := by
  unfold decodeSignedData logged
  cases SignedData.ofBytes bytes with
  | error fault => simp
  | ok decoded =>
      dsimp only
      cases checked : decoded.check with
      | ok _ =>
          simp only [Except.ok.injEq]
          constructor
          · intro same
            rw [← same]
            exact ⟨rfl, checked⟩
          · exact fun both => both.1
      | error defect =>
          simp only [reduceCtorEq, Except.ok.injEq, false_iff, not_and]
          intro same
          rw [← same, checked]
          simp

end LedgerWire.Boundary

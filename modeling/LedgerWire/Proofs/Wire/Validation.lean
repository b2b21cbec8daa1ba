import LedgerWire.Proofs.Wire.Reencoding

/-!
Signed data at the boundary, where what has been read must also stand up to its checks.
-/

namespace LedgerWire.SignedData

open Json

theorem openAtOnce_toBytes {data : SignedData} (free : data.FloatFree) :
    openAtOnce data.toBytes = (codec.toValue data).height :=
  openAtOnce_bytes (writesExact data free)

/-- Signed data that is written and read again at the boundary meets with its own checks and nothing
else: the two passes get it back, and it is accepted or refused as it would be without them. -/
theorem written_meets_checks (data : SignedData) (free : data.FloatFree)
    (fits : openAtOnce data.toBytes ≤ depthLimit) :
    ofBytes data.toBytes = .ok data ∧
      (Boundary.decodeSignedData data.toBytes).outcome =
        match data.check with
        | .ok () => .ok data
        | .error defect => .error (.transaction defect) := by
  rw [openAtOnce_toBytes free] at fits
  have read := ofBytes_toBytes free fits
  refine ⟨read, ?_⟩
  simp only [Boundary.decodeSignedData, Boundary.logged, read]
  cases data.check with
  | ok _ => rfl
  | error defect => rfl

def withoutOperations : SignedData := { oneTransfer 5 with operations := [] }

theorem written_with_and_without_operation :
    (Boundary.decodeSignedData (oneTransfer 5).toBytes).outcome = .ok (oneTransfer 5) ∧
      (Boundary.decodeSignedData withoutOperations.toBytes).outcome =
        .error (.transaction .noOperations) := by
  have free := floatFree_oneTransfer 5
  have freeOfAll : withoutOperations.FloatFree := by
    intro operation member
    exact absurd member List.not_mem_nil
  have low : openAtOnce (oneTransfer 5).toBytes ≤ depthLimit := by
    rw [openAtOnce_toBytes free]
    decide
  have lowWithout : openAtOnce withoutOperations.toBytes ≤ depthLimit := by
    rw [openAtOnce_toBytes freeOfAll]
    decide
  exact ⟨(written_meets_checks (oneTransfer 5) free low).2,
    (written_meets_checks withoutOperations freeOfAll lowWithout).2⟩

end LedgerWire.SignedData

import LedgerWire.Proofs.Wire.RoundTrip

/-!
Operations read with their fault of their own, where a record has no field filled or several, and
read as any other type, where it is a mismatch of the JSON text. Both ways take the same payloads,
and the words of the fault are the same.
-/

namespace LedgerWire

open Json

namespace Json

theorem withoutPosition_number {words : String} (number : Nat)
    (ends : words.toList.getLast? = some ' ') (noColumn : dropEnd? " column ".toList words.toList = none) :
    withoutPosition (words ++ toString number) = words ++ toString number := by
  have shape : (words ++ toString number).toList = words.toList ++ Nat.toDigits 10 number := by
    rw [String.toList_append]
    simp [toString, Nat.repr]
  have digits : ∀ digit ∈ (Nat.toDigits 10 number).reverse, digit.isDigit = true := by
    intro digit member
    exact Nat.isDigit_of_mem_toDigits (by decide) (by decide) (List.mem_reverse.1 member)
  have blank : words.toList.reverse.dropWhile Char.isDigit = words.toList.reverse := by
    cases reversed : words.toList.reverse with
    | nil => rfl
    | cons last others =>
        have isBlank : last = ' ' := by
          rw [← List.head?_reverse, reversed] at ends
          exact Option.some.inj ends
        rw [isBlank]
        rfl
  have dropped : ((words ++ toString number).toList.reverse.dropWhile Char.isDigit).reverse =
      words.toList := by
    rw [shape, List.reverse_append, List.dropWhile_append_of_pos digits, blank, List.reverse_reverse]
  simp only [withoutPosition, splitNumber?, dropped]
  split
  · rename_i text found
    simp only [Option.bind_eq_bind, Option.bind_eq_some_iff] at found
    obtain ⟨front, isFront, column, isColumn, _⟩ := found
    split at isFront
    · simp at isFront
    · rw [← Option.some.inj isFront, noColumn] at isColumn
      simp at isColumn
  · rfl

namespace Codec

variable {α β : Type} {base : Codec α} {widen : β → α} {narrow : α → Except String β}

theorem decode_refine {bytes : Bytes} {value : β} :
    (base.refine widen narrow).decode bytes = .ok value ↔
      ∃ wide, base.decode bytes = .ok wide ∧ narrow wide = .ok value := by
  simp only [decode_eq_ok, refine_ofText_iff]
  constructor
  · rintro ⟨rest, ⟨wide, read, narrowed⟩, ended⟩
    exact ⟨wide, ⟨rest, read, ended⟩, narrowed⟩
  · rintro ⟨wide, ⟨rest, read, ended⟩, narrowed⟩
    exact ⟨rest, ⟨wide, read, narrowed⟩, ended⟩

theorem decode_refine_refused {bytes : Bytes} {wide : α} {reason : String}
    (decoded : base.decode bytes = .ok wide) (refused : narrow wide = .error reason) :
    (base.refine widen narrow).decode bytes = .error (.mismatch (.refused reason)) := by
  obtain ⟨rest, read, _⟩ := decode_eq_ok.1 decoded
  simp only [decode, readDocument, Codec.refine, read, ok_bind, refused, refuse, error_bind]

end Codec
end Json

theorem armCountMessage_message (populated : Nat) :
    (Mismatch.refused (armCountMessage populated)).message = armCountMessage populated :=
  withoutPosition_number populated (by decide) (by decide)

namespace OperationRecord

/-- The fields that are filled, each as the operation that it stands for. -/
def filledFields (record : OperationRecord) : List Operation :=
  record.transferObject.toList.map .transferObject ++ (record.publish.toList.map .publish ++
    (record.call.toList.map .call ++ (record.transferNative.toList.map .transferNative ++
      (record.changeEpoch.toList.map .changeEpoch ++ (record.payNative.toList.map .payNative ++
        (record.pay.toList.map .pay ++ record.payAllNative.toList.map .payAllNative))))))

theorem count_isSome {α : Type} (slot : Option α) (others : List Bool) :
    (slot.isSome :: others).count true = slot.toList.length + others.count true := by
  cases slot with
  | none => simp
  | some value => simp [Nat.add_comm]

theorem populated_eq_length (record : OperationRecord) :
    record.populated = record.filledFields.length := by
  simp only [populated, filledFields, count_isSome, List.count_nil, List.length_append, List.length_map,
    Nat.add_zero]

theorem toOperation_eq_error {record : OperationRecord} {count : Nat} :
    record.toOperation = .error count ↔ record.populated = count ∧ count ≠ 1 := by
  by_cases one : record.populated = 1
  · obtain ⟨operation, same⟩ := populated_eq_one.1 one
    rw [toOperation_eq_ok.2 same, one]
    constructor
    · intro impossible
      simp at impossible
    · rintro ⟨same, notOne⟩
      exact absurd same.symm notOne
  · rw [toOperation, if_pos one, Except.error.injEq]
    constructor
    · rintro rfl
      exact ⟨rfl, one⟩
    · exact And.left

end OperationRecord

namespace Operation

theorem ofBytes_eq_ok {bytes : Bytes} {operation : Operation} :
    ofBytes bytes = .ok operation ↔ codec.decode bytes = .ok operation := by
  simp only [ofBytes, asDecoded, ofRecord, bind_eq_ok, mapError_eq_ok, codec, Codec.decode_refine]

theorem ofBytes_eq_error {bytes : Bytes} {fault : DecodeFault} :
    ofBytes bytes = .error fault ↔
      (∃ cause, OperationRecord.codec.decode bytes = .error cause ∧ fault = .json cause) ∨
        ∃ record, OperationRecord.codec.decode bytes = .ok record ∧ record.populated ≠ 1 ∧
          fault = .armCount record.populated := by
  unfold ofBytes
  cases decoded : OperationRecord.codec.decode bytes with
  | error cause => simp [asDecoded, Except.mapError, eq_comm]
  | ok record =>
      simp only [asDecoded, Except.mapError, ok_bind, ofRecord, reduceCtorEq, false_and,
        exists_false, false_or, Except.ok.injEq, exists_eq_left']
      cases outcome : record.toOperation with
      | ok operation =>
          have one := OperationRecord.populated_eq_one.2
            ⟨operation, OperationRecord.toOperation_eq_ok.1 outcome⟩
          simp [one]
      | error count =>
          obtain ⟨same, notOne⟩ := OperationRecord.toOperation_eq_error.1 outcome
          simp [same, notOne, eq_comm]

/-- The decoder with a fault of its own for wrong records and the one without take the same
operations. The first tells of a wrong record exactly where the whole payload is one, and then the
second tells of a mismatch in the same words; all its other faults are those of the JSON text. -/
theorem decoders_coincide (bytes : Bytes) :
    (∀ operation, ofBytes bytes = .ok operation ↔
      (Boundary.decode codec bytes).outcome = .ok operation) ∧
    (∀ count, ofBytes bytes = .error (.armCount count) ↔
      ∃ record, OperationRecord.codec.decode bytes = .ok record ∧ record.filledFields.length = count ∧
        count ≠ 1) ∧
    (∀ count, ofBytes bytes = .error (.armCount count) →
      ∃ cause, (Boundary.decode codec bytes).outcome = .error (.json (.mismatch cause)) ∧
        (DecodeFault.armCount count).message = some cause.message) ∧
    ∀ fault, ofBytes bytes = .error fault →
      (∃ count, fault = .armCount count) ∨ ∃ cause, fault = .json cause := by
  have wrong : ∀ count, ofBytes bytes = .error (.armCount count) ↔
      ∃ record, OperationRecord.codec.decode bytes = .ok record ∧ record.filledFields.length = count ∧
        count ≠ 1 := by
    intro count
    simp only [ofBytes_eq_error, OperationRecord.populated_eq_length]
    constructor
    · rintro (⟨cause, _, impossible⟩ | ⟨record, decoded, notOne, same⟩)
      · exact DecodeFault.noConfusion impossible
      · rw [DecodeFault.armCount.inj same]
        exact ⟨record, decoded, rfl, notOne⟩
    · rintro ⟨record, decoded, same, notOne⟩
      rw [← same] at notOne ⊢
      exact Or.inr ⟨record, decoded, notOne, rfl⟩
  refine ⟨?_, wrong, ?_, ?_⟩
  · intro operation
    rw [ofBytes_eq_ok, Boundary.decode_eq_ok]
  · intro count refused
    obtain ⟨record, decoded, counted⟩ := (wrong count).1 refused
    rw [← OperationRecord.populated_eq_length] at counted
    have narrowed : record.toOperation.mapError armCountMessage = .error (armCountMessage count) := by
      rw [OperationRecord.toOperation_eq_error.2 counted]
      rfl
    refine ⟨.refused (armCountMessage count), ?_, ?_⟩
    · rw [Boundary.outcome_decode, codec, Codec.decode_refine_refused decoded narrowed]
      rfl
    · rw [armCountMessage_message]
      rfl
  · intro fault refused
    rcases ofBytes_eq_error.1 refused with ⟨cause, _, same⟩ | ⟨record, _, _, same⟩
    · exact Or.inr ⟨cause, same⟩
    · exact Or.inl ⟨record.populated, same⟩

def twoFilled : OperationRecord :=
  { OperationRecord.empty with publish := some ⟨[]⟩, changeEpoch := some ⟨1, 2, 3⟩ }

theorem two_filled_refused :
    ofBytes (OperationRecord.codec.encode twoFilled) = .error (.armCount 2) ∧
      ∃ cause, (Boundary.decode codec (OperationRecord.codec.encode twoFilled)).outcome =
          .error (.json (.mismatch cause)) ∧
        cause.message = "transaction kind must have exactly one variant populated, found 2" := by
  have free : twoFilled.FloatFree := by
    intro call impossible
    simp [twoFilled, OperationRecord.empty] at impossible
  have decoded := Codec.decode_encode OperationRecord.lawful.coherent OperationRecord.lawful.inverts
    (OperationRecord.writesExact twoFilled free) (by decide)
  obtain ⟨_, wrong, words, _⟩ := decoders_coincide (OperationRecord.codec.encode twoFilled)
  have refused := (wrong 2).2 ⟨twoFilled, decoded, rfl, by decide⟩
  obtain ⟨cause, outcome, same⟩ := words 2 refused
  exact ⟨refused, cause, outcome, (Option.some.inj same).symm⟩

end Operation

end LedgerWire

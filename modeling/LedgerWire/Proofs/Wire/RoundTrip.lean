import LedgerWire.Proofs.Json.Brackets
import LedgerWire.Proofs.Wire.Boundary
import LedgerWire.Proofs.Wire.Operations
import LedgerWire.Proofs.Wire.Owner
import LedgerWire.WireType

/-!
Values that travel come back as they were, as long as not too many lists and records are open at
once in their text, and are refused as malformed otherwise.
-/

namespace LedgerWire

open Json

namespace Json.Codec

variable {α : Type}

def RoundTrips (codec : Codec α) (good : α → Prop) : Prop :=
  ∀ value, good value →
    (openAtOnce (codec.encode value) ≤ depthLimit →
      codec.decode (codec.encode value) = .ok value) ∧
    (depthLimit < openAtOnce (codec.encode value) →
      codec.decode (codec.encode value) = .error .malformed)

theorem decode_encode {codec : Codec α} (coherent : codec.Coherent) (inverts : codec.Inverts)
    {value : α} (exact : (codec.toValue value).Exact)
    (fits : (codec.toValue value).height ≤ depthLimit) :
    codec.decode (codec.encode value) = .ok value :=
  (coherent.decode_iff_ofValue (Value.ofBytes_bytes _ exact fits)).2 (inverts value)

/-- Text with too many open lists and records is malformed: it would be read if the limit were
higher, and what is read within the limit is not written beyond it. -/
theorem decode_encode_deep {codec : Codec α} {least : Nat} (lawful : codec.Lawful least)
    (within : least ≤ depthLimit) {value : α} (exact : (codec.toValue value).Exact)
    (deep : depthLimit < (codec.toValue value).height) :
    codec.decode (codec.encode value) = .error .malformed := by
  have read := readValue_bytes _ exact _ [] (Nat.le_refl _) delimits_nil
  rw [List.append_nil] at read
  rcases (lawful.coherent.agrees _ _ _ ⟨[], read⟩ value).2 (lawful.inverts value) with ⟨rest, typed⟩
  have lowered := lawful.lowering depthLimit _ (Nat.le_of_lt deep) (codec.toValue value).bytes
  rw [typed] at lowered
  rcases lowered with same | malformed
  · have bounded := lawful.nests depthLimit _ value ⟨rest, same⟩
    omega
  · rw [decode, encode, readDocument, malformed]
    rfl

theorem RoundTrips.ofLawful {codec : Codec α} {least : Nat} {good : α → Prop}
    (lawful : codec.Lawful least) (within : least ≤ depthLimit) (writes : codec.WritesExact good) :
    codec.RoundTrips good := by
  intro value isGood
  have exact := writes value isGood
  have counted : openAtOnce (codec.encode value) = (codec.toValue value).height :=
    openAtOnce_bytes exact
  rw [counted]
  exact ⟨decode_encode lawful.coherent lawful.inverts exact, decode_encode_deep lawful within exact⟩

end Json.Codec

theorem OwnerRule.roundTrips : codec.RoundTrips fun _ => True := by
  intro rule _
  have exact := rule.writesExact_toValue
  have low := rule.height_toValue
  have counted : openAtOnce (codec.encode rule) = rule.toValue.height := openAtOnce_bytes exact
  have fits : rule.toValue.height ≤ depthLimit := Nat.le_trans low (by decide)
  have decoded := Codec.decode_encode coherent_memberCodec inverts_memberCodec exact fits
  obtain ⟨rest, read, ended⟩ := Codec.decode_eq_ok.1 decoded
  rw [counted]
  constructor
  · exact fun _ => Codec.decode_eq_ok.2 ⟨rest, codec_ofText_iff.2 (Or.inl read), ended⟩
  · intro deep
    omega

namespace WireType

/-- The free-form parts of a value, if it has any, hold no floating-point number. -/
def FloatFree : (wireType : WireType) → wireType.Carrier → Prop
  | .functionCall => FunctionCall.FloatFree
  | .operationRecord => OperationRecord.FloatFree
  | .operation => Operation.FloatFree
  | .signedData => SignedData.FloatFree
  | .builtTransaction => BuiltTransaction.FloatFree
  | _ => fun _ => True

theorem roundTrips (wireType : WireType) : wireType.codec.RoundTrips wireType.FloatFree := by
  cases wireType with
  | identifier width =>
      exact .ofLawful (Identifier.lawful width) (by decide) (Identifier.writesExact width)
  | payload => exact .ofLawful Payload.lawful (by decide) Payload.writesExact
  | version => exact .ofLawful Version.lawful (by decide) Version.writesExact
  | objectRef => exact .ofLawful ObjectRef.lawful (by decide) ObjectRef.writesExact
  | ownerRule => exact OwnerRule.roundTrips
  | owner => exact .ofLawful Owner.lawful (by decide) Owner.writesExact
  | network => exact .ofLawful Network.lawful (by decide) Network.writesExact
  | timeRange => exact .ofLawful TimeRange.lawful (by decide) TimeRange.writesExact
  | moduleName => exact .ofLawful ModuleName.lawful (by decide) ModuleName.writesExact
  | objectTransfer =>
      exact .ofLawful ObjectTransfer.lawful (by decide) ObjectTransfer.writesExact
  | publication => exact .ofLawful Publication.lawful (by decide) Publication.writesExact
  | functionCall =>
      exact .ofLawful FunctionCall.lawful (by decide) FunctionCall.writesExact
  | coinTransfer =>
      exact .ofLawful CoinTransfer.lawful (by decide) CoinTransfer.writesExact
  | epochChange => exact .ofLawful EpochChange.lawful (by decide) EpochChange.writesExact
  | coinPayment =>
      exact .ofLawful (Payment.lawful _) (by decide) (Payment.writesExact _)
  | nativePayment =>
      exact .ofLawful (Payment.lawful _) (by decide) (Payment.writesExact _)
  | sweep => exact .ofLawful Sweep.lawful (by decide) Sweep.writesExact
  | operationRecord =>
      exact .ofLawful OperationRecord.lawful (by decide) OperationRecord.writesExact
  | operation => exact .ofLawful Operation.lawful (by decide) Operation.writesExact
  | signedData => exact .ofLawful SignedData.lawful (by decide) SignedData.writesExact
  | builtTransaction =>
      exact .ofLawful BuiltTransaction.lawful (by decide) BuiltTransaction.writesExact
  | clientConfig =>
      exact .ofLawful ClientConfig.lawful (by decide) ClientConfig.writesExact
  | logFormat => exact .ofLawful LogFormat.lawful (by decide) LogFormat.writesExact

/-- Every value of every type that travels can be encoded. It is decoded again as it was if no more
lists and records than the limit allows are open at once in its text, and refused as malformed if
there are more. -/
theorem decode_encoded (wireType : WireType) (value : wireType.Carrier)
    (free : wireType.FloatFree value) :
    ∃ bytes, (Boundary.encode wireType.codec value).outcome = .ok bytes ∧
      (openAtOnce bytes ≤ depthLimit →
        (Boundary.decode wireType.codec bytes).outcome = .ok value) ∧
      (depthLimit < openAtOnce bytes →
        (Boundary.decode wireType.codec bytes).outcome = .error (.json .malformed)) := by
  obtain ⟨returns, refuses⟩ := roundTrips wireType value free
  refine ⟨wireType.codec.encode value, rfl, ?_, ?_⟩
  · intro fits
    rw [Boundary.outcome_decode, returns fits]
    rfl
  · intro deep
    rw [Boundary.outcome_decode, refuses deep]
    rfl

/-! A call on each side of the limit. -/

def nestedLists : Nat → Value
  | 0 => .list []
  | levels + 1 => .list [nestedLists levels]

theorem nestedLists_laws (levels : Nat) : (nestedLists levels).settle = nestedLists levels ∧
    (nestedLists levels).Exact ∧ (nestedLists levels).height = levels + 1 := by
  induction levels with
  | zero => exact ⟨rfl, trivial, rfl⟩
  | succ levels ih =>
      rcases ih with ⟨settled, exact, height⟩
      refine ⟨?_, ⟨exact, trivial⟩, ?_⟩
      · rw [nestedLists, Value.settle, settleItems, settled]
        rfl
      · rw [nestedLists, Value.height, heightOfItems, height]
        rfl

def callWith (levels : Nat) : FunctionCall :=
  ⟨.zero addressWidth, "coin", "join", [], [⟨nestedLists levels, (nestedLists_laws levels).1⟩]⟩

theorem floatFree_callWith (levels : Nat) : (callWith levels).FloatFree := by
  refine ⟨fun form member => absurd member List.not_mem_nil, fun form member => ?_⟩
  rw [List.mem_singleton.1 member]
  exact (nestedLists_laws levels).2.1

theorem openAtOnce_callWith (levels : Nat) :
    openAtOnce (FunctionCall.codec.encode (callWith levels)) = levels + 3 := by
  have exact := FunctionCall.writesExact _ (floatFree_callWith levels)
  have shape : FunctionCall.codec.toValue (callWith levels) = .record
      [("package", .text (Identifier.zero addressWidth).fullText), ("module", .text "coin"),
        ("function", .text "join"), ("typeArguments", .list []),
        ("arguments", .list [nestedLists levels])] := rfl
  have counted := openAtOnce_bytes exact
  rw [shape] at counted
  rw [Codec.encode, shape, counted]
  simp [Value.height, heightOfMembers, heightOfItems, nestedLists_laws]

theorem calls_at_the_limit :
    (∃ bytes, (Boundary.encode FunctionCall.codec (callWith 124)).outcome = .ok bytes ∧
      (Boundary.decode FunctionCall.codec bytes).outcome = .ok (callWith 124)) ∧
    ∃ bytes, (Boundary.encode FunctionCall.codec (callWith 125)).outcome = .ok bytes ∧
      (Boundary.decode FunctionCall.codec bytes).outcome = .error (.json .malformed) := by
  constructor
  · rcases decode_encoded .functionCall (callWith 124) (floatFree_callWith 124) with
      ⟨bytes, encoded, returns, _⟩
    refine ⟨bytes, encoded, returns ?_⟩
    rw [← Except.ok.inj encoded]
    exact Nat.le_of_eq (openAtOnce_callWith 124)
  · rcases decode_encoded .functionCall (callWith 125) (floatFree_callWith 125) with
      ⟨bytes, encoded, _, refuses⟩
    refine ⟨bytes, encoded, refuses ?_⟩
    rw [← Except.ok.inj encoded]
    exact Nat.le_of_eq (openAtOnce_callWith 125).symm

end WireType

end LedgerWire

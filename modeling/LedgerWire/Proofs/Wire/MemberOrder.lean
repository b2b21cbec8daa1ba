import LedgerWire.Proofs.Json.Members
import LedgerWire.Proofs.Wire.ArmCount

/-!
Operations do not depend on the order of the members of a record, nor on members that are null or
have a key of no kind of operation, however deep the values of these are.
-/

namespace LedgerWire

open Json

namespace OperationRecord

theorem ignoresNulls_fields : fields.IgnoresNulls := by
  refine Fields.ignoresNulls_as _ _ ?_
  refine Fields.ignoresNulls_both (Fields.apart_of_keys (by decide))
    (Fields.ignoresNulls_optional _ ObjectTransfer.lawful.portable) ?_
  refine Fields.ignoresNulls_both (Fields.apart_of_keys (by decide))
    (Fields.ignoresNulls_optional _ Publication.lawful.portable) ?_
  refine Fields.ignoresNulls_both (Fields.apart_of_keys (by decide))
    (Fields.ignoresNulls_optional _ FunctionCall.lawful.portable) ?_
  refine Fields.ignoresNulls_both (Fields.apart_of_keys (by decide))
    (Fields.ignoresNulls_optional _ CoinTransfer.lawful.portable) ?_
  refine Fields.ignoresNulls_both (Fields.apart_of_keys (by decide))
    (Fields.ignoresNulls_optional _ EpochChange.lawful.portable) ?_
  refine Fields.ignoresNulls_both (Fields.apart_of_keys (by decide))
    (Fields.ignoresNulls_optional _ (Payment.lawful _).portable) ?_
  exact Fields.ignoresNulls_both (Fields.apart_of_keys (by decide))
    (Fields.ignoresNulls_optional _ (Payment.lawful _).portable)
    (Fields.ignoresNulls_optional _ Sweep.lawful.portable)

/-- A member that counts for the record: its key is that of a field, and its value is not null. -/
def heeds (member : WrittenMember) : Bool :=
  fields.isKey member.name && decide (member.value ≠ nullText)

theorem valuesAt_pairs (key : String) (members : List WrittenMember) :
    valuesAt key (members.map WrittenMember.pair) =
      (members.filter fun member => member.name = key).map WrittenMember.value := by
  rw [valuesAt, List.filter_map, List.map_map]
  rfl

theorem valuesAt_heeded {key : String} (known : fields.isKey key = true)
    (members : List WrittenMember) :
    valuesAt key ((members.filter heeds).map WrittenMember.pair) =
      filled (valuesAt key (members.map WrittenMember.pair)) := by
  rw [valuesAt_pairs, valuesAt_pairs, filled, List.filter_map, List.filter_filter, List.filter_filter]
  refine congrArg (List.map _) (List.filter_congr ?_)
  intro member _
  by_cases here : member.name = key
  · simp [heeds, here, known]
  · simp [here]

theorem condenses_heeded {key : String} (known : fields.isKey key = true)
    (members : List WrittenMember) :
    Condenses (valuesAt key (members.map WrittenMember.pair))
      (valuesAt key ((members.filter heeds).map WrittenMember.pair)) := by
  rw [valuesAt_heeded known]
  refine ⟨List.length_filter_le _ _, ?_⟩
  rw [filled, filled, List.filter_filter]
  simp

theorem condenses_perm (key : String) {members others : List WrittenMember}
    (rearranged : others.Perm members) :
    Condenses (valuesAt key (members.map WrittenMember.pair))
      (valuesAt key (others.map WrittenMember.pair)) := by
  have sameValues := ((rearranged.map WrittenMember.pair).filter (fun entry => entry.1 = key)).map Prod.snd
  exact ⟨Nat.le_of_eq sameValues.length_eq, sameValues.filter _⟩

theorem decode_condensed {members others : List WrittenMember} {payload other : Bytes}
    (builds : Builds members payload) (buildsToo : Builds others other)
    (condenses : ∀ key, fields.isKey key = true →
      Condenses (valuesAt key (members.map WrittenMember.pair))
        (valuesAt key (others.map WrittenMember.pair)))
    {record : OperationRecord} (decoded : codec.decode payload = .ok record) :
    codec.decode other = .ok record := by
  have shown : fields.Shows (members.map WrittenMember.pair) payload := Or.inl ⟨members, builds, rfl⟩
  have shownToo : fields.Shows (others.map WrittenMember.pair) other := Or.inl ⟨others, buildsToo, rfl⟩
  obtain ⟨entries, stands, here⟩ := shown.decode_iff lawful_fields.sound _
  obtain ⟨moved, standsToo, there⟩ := shownToo.decode_iff lawful_fields.sound _
  exact (there record).2 (ignoresNulls_fields _ _ _ _ _ record shown.complete stands standsToo
    condenses ((here record).1 decoded))

end OperationRecord

namespace Operation

theorem decoded_of_outcome {payload : Bytes} {outcome : Except DecodeFault Operation}
    (read : ofBytes payload = outcome)
    (counted : (∃ operation, outcome = .ok operation) ∨ ∃ count, outcome = .error (.armCount count)) :
    ∃ record, OperationRecord.codec.decode payload = .ok record ∧ ofRecord record = outcome := by
  cases decoded : OperationRecord.codec.decode payload with
  | ok record =>
      refine ⟨record, rfl, ?_⟩
      rw [← read, ofBytes, decoded]
      rfl
  | error cause =>
      have refused : outcome = .error (.json cause) := by
        rw [← read, ofBytes, decoded]
        rfl
      rcases counted with ⟨operation, same⟩ | ⟨count, same⟩
      · simp [refused] at same
      · simp [refused] at same

/-- An operation, or the count of filled fields of a record that is none, is the same for every
order of the members, and without the members that are null or have a key of no field. -/
theorem members_in_any_order {members : List WrittenMember} {payload : Bytes}
    {outcome : Except DecodeFault Operation} (builds : Builds members payload)
    (read : ofBytes payload = outcome)
    (counted : (∃ operation, outcome = .ok operation) ∨ ∃ count, outcome = .error (.armCount count)) :
    (∀ others other, others.Perm members → Builds others other → ofBytes other = outcome) ∧
      ∀ other, Builds (members.filter OperationRecord.heeds) other → ofBytes other = outcome := by
  obtain ⟨record, decoded, made⟩ := decoded_of_outcome read counted
  have same : ∀ {other}, OperationRecord.codec.decode other = .ok record → ofBytes other = outcome := by
    intro other redecoded
    rw [ofBytes, redecoded]
    exact made
  refine ⟨?_, ?_⟩
  · intro others other rearranged buildsToo
    exact same (OperationRecord.decode_condensed builds buildsToo
      (fun key _ => OperationRecord.condenses_perm key rearranged) decoded)
  · intro other buildsToo
    exact same (OperationRecord.decode_condensed builds buildsToo
      (fun key known => OperationRecord.condenses_heeded known members) decoded)

def publicationAmongOthers : List WrittenMember :=
  [.ofValue "note" (.list [.list [.null]]), .ofValue "Publish" (.record [("modules", .list [])]),
    .ofValue "Pay" .null]

theorem publication_in_any_order :
    ∃ operation, operation.name = "Publish" ∧
      ofBytes (recordText publicationAmongOthers.reverse) = .ok operation ∧
      ofBytes (recordText (publicationAmongOthers.filter OperationRecord.heeds)) = .ok operation := by
  have named : (ofBytes (recordText publicationAmongOthers)).toOption.map name = some "Publish" := by
    decide +kernel
  cases read : ofBytes (recordText publicationAmongOthers) with
  | error cause =>
      rw [read] at named
      cases named
  | ok operation =>
      rw [read] at named
      obtain ⟨ordered, heeded⟩ :=
        members_in_any_order (builds_recordText _) read (Or.inl ⟨operation, rfl⟩)
      exact ⟨operation, Option.some.inj named,
        ordered _ _ (List.reverse_perm _) (builds_recordText _), heeded _ (builds_recordText _)⟩

end Operation

end LedgerWire

import LedgerWire.Proofs.Wire.Counters

/-!
Owners from a text and owners from a value that has been read before, whose members come sorted by
their keys. Which owner a value stands for depends on neither, and neither does the decoder.
-/

namespace LedgerWire

open Json

namespace OwnerRule

/-- A rule is a record of one member under the name of its kind. In the record of a shared object
other members stand for nothing. -/
inductive StandsFor : Value → OwnerRule → Prop
  | addressOwner {text : String} {address : Address} (read : Identifier.ofHex text = .ok address) :
      StandsFor (.record [("AddressOwner", .text text)]) (.addressOwner address)
  | objectOwner {text : String} {address : Address} (read : Identifier.ofHex text = .ok address) :
      StandsFor (.record [("ObjectOwner", .text text)]) (.objectOwner address)
  | shared {members : Members} {content : Value} {since : Version}
      (once : valuesAt "initial_shared_version" members = [content])
      (counts : Counter.StandsFor content since.number) :
      StandsFor (.record [("Shared", .record members)]) (.shared since)

theorem sharedFields_ofMembers_iff {members : Members} {since : Version} :
    sharedFields.ofMembers members = .ok since ↔
      ∃ content, valuesAt "initial_shared_version" members = [content] ∧
        Counter.StandsFor content since.number := by
  rw [sharedFields, Fields.ofMembers_required]
  exact exists_congr fun content => and_congr_right fun _ => Version.ofValue_iff

theorem holdingAddress_ofValue_iff {name : String} {make : Address → OwnerRule} {content : Value}
    {rule : OwnerRule} : (Arm.holding name Address.codec make).contentOfValue content = .ok rule ↔
      ∃ text address, content = .text text ∧ Identifier.ofHex text = .ok address ∧ make address = rule := by
  constructor
  · intro accepted
    obtain ⟨address, read, isRule⟩ := map_eq_ok.1 accepted
    obtain ⟨text, isText, parsed⟩ := Codec.ofString_ofValue_iff.1 read
    exact ⟨text, address, isText, mapError_eq_ok.1 parsed, isRule⟩
  · rintro ⟨text, address, isText, read, isRule⟩
    exact map_eq_ok.2 ⟨address, Codec.ofString_ofValue_iff.2 ⟨text, isText, mapError_eq_ok.2 read⟩, isRule⟩

theorem ofValue_iff {value : Value} {rule : OwnerRule} :
    memberCodec.ofValue value = .ok rule ↔ StandsFor value rule := by
  rw [memberCodec, Codec.union_ofValue_iff]
  simp only [memberArms, named_arms (.withMembers "Shared" sharedName sharedFields .shared) rfl]
  constructor
  · rintro (⟨name, arm, _, ⟨_, same⟩ | ⟨_, same⟩ | ⟨_, same⟩, alone⟩ |
      ⟨name, content, arm, isRecord, ⟨isName, same⟩ | ⟨isName, same⟩ | ⟨isName, same⟩, accepted⟩)
    · simp [same, Arm.holding, Arm.withoutContent] at alone
    · simp [same, Arm.holding, Arm.withoutContent] at alone
    · simp [same, Arm.withMembers, Arm.withoutContent] at alone
    · rw [same, holdingAddress_ofValue_iff] at accepted
      obtain ⟨text, address, isText, read, isRule⟩ := accepted
      rw [isRecord, isName, isText, ← isRule]
      exact .addressOwner read
    · rw [same, holdingAddress_ofValue_iff] at accepted
      obtain ⟨text, address, isText, read, isRule⟩ := accepted
      rw [isRecord, isName, isText, ← isRule]
      exact .objectOwner read
    · rw [same, Arm.withMembers_ofValue_iff] at accepted
      obtain ⟨members, since, isMembers, collected, isRule⟩ := accepted
      obtain ⟨content, once, counts⟩ := sharedFields_ofMembers_iff.1 collected
      rw [isRecord, isName, isMembers, ← isRule]
      exact .shared once counts
  · intro stands
    refine Or.inr ?_
    cases stands with
    | addressOwner read =>
        exact ⟨_, _, _, rfl, Or.inl ⟨rfl, rfl⟩, holdingAddress_ofValue_iff.2 ⟨_, _, rfl, read, rfl⟩⟩
    | objectOwner read =>
        exact ⟨_, _, _, rfl, Or.inr (Or.inl ⟨rfl, rfl⟩), holdingAddress_ofValue_iff.2 ⟨_, _, rfl, read, rfl⟩⟩
    | shared once counts =>
        refine ⟨_, _, _, rfl, Or.inr (Or.inr ⟨rfl, rfl⟩), Arm.withMembers_ofValue_iff.2 ⟨_, _, rfl, ?_, rfl⟩⟩
        exact sharedFields_ofMembers_iff.2 ⟨_, once, counts⟩

end OwnerRule

namespace Owner

inductive StandsFor : Value → Owner → Prop
  | named (name : String) : StandsFor (.text name) (.named name)
  | ruled {value : Value} {rule : OwnerRule} (stands : OwnerRule.StandsFor value rule) :
      StandsFor value (.ruled rule)

theorem ofValue_iff_standsFor {value : Value} {owner : Owner} :
    codec.ofValue value = .ok owner ↔ StandsFor value owner := by
  rw [ofValue_iff]
  constructor
  · rintro (⟨name, isText, isNamed⟩ | ⟨rule, accepted, isRuled⟩)
    · rw [isText, isNamed]
      exact .named name
    · rw [isRuled]
      exact .ruled (OwnerRule.ofValue_iff.1 accepted)
  · intro stands
    cases stands with
    | named name => exact Or.inl ⟨name, rfl, rfl⟩
    | ruled stands => exact Or.inr ⟨_, OwnerRule.ofValue_iff.2 stands, rfl⟩

/-- From the text of a value without repeated keys and from the value with its members sorted the same
owners are decoded, and they are those that the value stands for. -/
theorem same_from_both_sources {bytes : Bytes} {value : Value}
    (parsed : Value.ofBytes bytes = .ok value) (distinct : value.Distinct) (owner : Owner) :
    ((Boundary.decode codec bytes).outcome = .ok owner ↔ codec.ofValue value.settle = .ok owner) ∧
      (codec.ofValue value.settle = .ok owner ↔ StandsFor value owner) := by
  have sorted := settles value distinct owner
  refine ⟨?_, ?_⟩
  · rw [Boundary.decode_eq_ok, coherent.decode_iff_ofValue parsed, sorted]
  · rw [sorted, ofValue_iff_standsFor]

def sharedAmongOthers : Value :=
  .record [("Shared", .record [("since", .record [("b", .null), ("a", .list [])]),
    ("initial_shared_version", .text "+07")])]

theorem shared_among_others :
    Value.ofBytes sharedAmongOthers.bytes = .ok sharedAmongOthers ∧ sharedAmongOthers.Distinct ∧
      (Boundary.decode codec sharedAmongOthers.bytes).outcome = .ok (.ruled (.shared ⟨7⟩)) ∧
      codec.ofValue sharedAmongOthers.settle = .ok (.ruled (.shared ⟨7⟩)) := by
  have exact : sharedAmongOthers.Exact := by simp [sharedAmongOthers, Value.Exact, exactMembers, exactItems]
  have low : sharedAmongOthers.height = 4 := rfl
  have parsed := Value.ofBytes_bytes _ exact (by rw [low]; decide)
  have distinct : sharedAmongOthers.Distinct := by
    simp [sharedAmongOthers, Value.Distinct, distinctMembers, distinctItems]
  have digits : DigitsFor ['0', '7'] 7 := ⟨by simp, by simp [Char.isDigit], rfl⟩
  have stands : StandsFor sharedAmongOthers (.ruled (.shared ⟨7⟩)) :=
    .ruled (.shared rfl (.text (Or.inr rfl) digits))
  obtain ⟨bothSources, meant⟩ := same_from_both_sources parsed distinct (.ruled (.shared ⟨7⟩))
  have decoded := meant.2 stands
  exact ⟨parsed, distinct, bothSources.2 decoded, decoded⟩

end Owner

end LedgerWire

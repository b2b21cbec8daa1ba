import LedgerWire.Proofs.Wire.Reencoding

/-!
Drafts of owners. A draft is written as the owner that is made of it, and has none exactly where both
of its places are empty; the name counts before the rule both times.
-/

namespace LedgerWire

open Json

theorem Owner.decode_toBytes (owner : Owner) : codec.decode owner.toBytes = .ok owner :=
  Codec.decode_encode lawful.coherent lawful.inverts (writesExact owner trivial)
    (Nat.le_trans owner.height_toValue (by decide))

namespace OwnerDraft

theorem toBytes_eq (draft : OwnerDraft) : draft.toBytes = draft.toOwner.map Owner.toBytes := by
  rcases draft with ⟨_ | name, _ | rule⟩ <;> rfl

theorem toOwner_eq_error {draft : OwnerDraft} {fault : DecodeFault} :
    draft.toOwner = .error fault ↔ fault = .emptyUnion ∧ draft.name = none ∧ draft.rule = none := by
  rcases draft with ⟨_ | name, _ | rule⟩ <;> simp [toOwner, eq_comm]

theorem toBytes_eq_error {draft : OwnerDraft} {fault : DecodeFault} :
    draft.toBytes = .error fault ↔ draft.toOwner = .error fault := by
  rw [toBytes_eq]
  cases draft.toOwner <;> simp

theorem ofOwner_of_toOwner {draft : OwnerDraft} {owner : Owner} (converted : draft.toOwner = .ok owner) :
    ofOwner owner = if draft.name.isSome then { draft with rule := none } else draft := by
  rcases draft with ⟨_ | name, _ | rule⟩
  · simp [toOwner] at converted
  all_goals
    rw [← Except.ok.inj converted]
    rfl

theorem toOwner_ofOwner (owner : Owner) : (ofOwner owner).toOwner = .ok owner := by
  cases owner <;> rfl

/-- Whatever has been put into a draft, it can be written exactly where it can be made an owner, and
neither can be done exactly where it is empty. It is written as that owner is, from which both decoders
read the owner back; the draft made of the owner is the same less a rule that did not count. -/
theorem written_as_converted (draft : OwnerDraft) :
    ((∃ bytes, draft.toBytes = .ok bytes) ↔ ∃ owner, draft.toOwner = .ok owner) ∧
    (∀ fault, draft.toBytes = .error fault ↔
      fault = .emptyUnion ∧ draft.name = none ∧ draft.rule = none) ∧
    (∀ fault, draft.toOwner = .error fault ↔
      fault = .emptyUnion ∧ draft.name = none ∧ draft.rule = none) ∧
    (∀ owner, draft.toOwner = .ok owner →
      draft.toBytes = .ok owner.toBytes ∧ Owner.ofBytes owner.toBytes = .ok owner ∧
        (Boundary.decode Owner.codec owner.toBytes).outcome = .ok owner ∧
        ofOwner owner = if draft.name.isSome then { draft with rule := none } else draft) ∧
    ∀ owner, (ofOwner owner).toOwner = .ok owner := by
  refine ⟨?_, fun fault => toBytes_eq_error.trans toOwner_eq_error, fun fault => toOwner_eq_error, ?_,
    toOwner_ofOwner⟩
  · simp only [toBytes_eq, map_eq_ok]
    constructor
    · rintro ⟨_, owner, converted, _⟩
      exact ⟨owner, converted⟩
    · rintro ⟨owner, converted⟩
      exact ⟨_, owner, converted, rfl⟩
  · intro owner converted
    refine ⟨?_, owner.ofBytes_toBytes, Boundary.decode_eq_ok.2 owner.decode_toBytes,
      ofOwner_of_toOwner converted⟩
    rw [toBytes_eq, converted]
    rfl

def bothFilled : OwnerDraft := ⟨some "\"Im\\mut\nable\x07é😀", some (.shared ⟨7⟩)⟩

theorem name_before_rule :
    (∃ owner, bothFilled.toOwner = .ok owner ∧ bothFilled.toBytes = .ok owner.toBytes ∧
      Owner.ofBytes owner.toBytes = .ok owner ∧ ofOwner owner = { bothFilled with rule := none }) ∧
    empty.toBytes = .error .emptyUnion ∧ empty.toOwner = .error .emptyUnion := by
  obtain ⟨_, _, _, agrees, _⟩ := written_as_converted bothFilled
  obtain ⟨_, unwritten, unconverted, _⟩ := written_as_converted empty
  obtain ⟨written, reread, _, kept⟩ := agrees _ rfl
  exact ⟨⟨_, rfl, written, reread, kept⟩, (unwritten _).2 ⟨rfl, rfl, rfl⟩,
    (unconverted _).2 ⟨rfl, rfl, rfl⟩⟩

end OwnerDraft

end LedgerWire

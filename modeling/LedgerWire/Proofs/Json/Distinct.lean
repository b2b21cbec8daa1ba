import LedgerWire.Proofs.Json.Settled

/-!
No codec writes a record that has a key twice. Where nothing is repeated, putting what was written
into settled form loses nothing.
-/

namespace LedgerWire.Json

variable {α β : Type}

theorem nodup_of_ascending {members : Members} (ascending : members.Ascending) :
    (members.map Prod.fst).Nodup := by
  rw [List.Nodup, List.pairwise_map]
  refine ascending.imp ?_
  intro left right below same
  rw [same] at below
  exact String.lt_irrefl _ below

mutual

/-- Settling leaves one member a key. -/
theorem Value.distinct_settle : (value : Value) → value.settle.Distinct
  | .null | .boolean _ | .number _ | .text _ => by simp [Value.settle, Value.Distinct]
  | .list items => by
    rw [Value.settle, Value.Distinct]
    exact distinct_settleItems items
  | .record members => by
    rw [Value.settle, Value.Distinct]
    exact ⟨nodup_of_ascending (settleMembers_ascending members), distinct_settleMembers members⟩

theorem distinct_settleItems : (items : List Value) → distinctItems (settleItems items)
  | [] => trivial
  | item :: rest => ⟨Value.distinct_settle item, distinct_settleItems rest⟩

theorem distinct_settleMembers : (members : Members) → distinctMembers (settleMembers members)
  | [] => trivial
  | (key, value) :: rest => by
    have first := Value.distinct_settle value
    have others := distinct_settleMembers rest
    rw [distinctMembers_iff] at others ⊢
    intro member found
    rcases Members.mem_settleIn found with isNew | old
    · rw [isNew]
      exact first
    · exact others member old

end

def Codec.WritesDistinct (codec : Codec α) : Prop := ∀ value, (codec.toValue value).Distinct

structure Fields.WritesDistinct (fields : Fields α) : Prop where
  once : ∀ record, ((fields.members record).map Prod.fst).Nodup
  inside : ∀ record, ∀ member ∈ fields.members record, member.2.Distinct

namespace Codec

theorem WritesDistinct.ofString {expected : String} {print : α → String}
    {parse : String → Except String α} : (ofString expected print parse).WritesDistinct :=
  fun _ => trivial

theorem WritesDistinct.natural : natural.WritesDistinct := fun _ => trivial

theorem WritesDistinct.list {item : Codec α} (distinct : item.WritesDistinct) :
    item.list.WritesDistinct := by
  intro values
  simp only [Codec.list, Value.Distinct, distinctItems_iff, List.mem_map, forall_exists_index,
    and_imp, forall_apply_eq_imp_iff₂]
  exact fun value _ => distinct value

theorem WritesDistinct.refine {base : Codec α} {widen : β → α} {narrow : α → Except String β}
    (distinct : base.WritesDistinct) : (base.refine widen narrow).WritesDistinct :=
  fun value => distinct (widen value)

theorem WritesDistinct.freeForm : freeForm.WritesDistinct := by
  rintro ⟨value, settled⟩
  change value.Distinct
  rw [← settled]
  exact value.distinct_settle

theorem WritesDistinct.freeRecord : freeRecord.WritesDistinct := by
  rintro ⟨members, settled⟩
  change (Value.record members).Distinct
  have same : (Value.record members).settle = .record members := by rw [Value.settle, settled]
  rw [← same]
  exact Value.distinct_settle _

theorem WritesDistinct.record {expected : String} {fields : Fields α}
    (distinct : fields.WritesDistinct) : (Codec.record expected fields).WritesDistinct := by
  intro record
  simp only [Codec.record, Fields.toValue, Value.Distinct, distinctMembers_iff]
  exact ⟨distinct.once record, distinct.inside record⟩

end Codec

namespace Fields

theorem WritesDistinct.single {key : String} {codec : Codec α} {optional : Bool}
    {missing : Except Fault α} {members : α → Members}
    (writes : ∀ record, members record = [] ∨
      ∃ value, members record = [(key, value)] ∧ value.Distinct) :
    (single key codec optional missing members).WritesDistinct where
  once := by
    intro record
    change ((members record).map Prod.fst).Nodup
    rcases writes record with empty | ⟨value, shape, _⟩
    · rw [empty]
      exact List.nodup_nil
    · rw [shape]
      simp
  inside := by
    intro record member written
    change member ∈ members record at written
    rcases writes record with empty | ⟨value, shape, distinct⟩
    · rw [empty] at written
      exact absurd written List.not_mem_nil
    · rw [shape] at written
      rw [List.mem_singleton.1 written]
      exact distinct

theorem WritesDistinct.required {key : String} {codec : Codec α} (distinct : codec.WritesDistinct) :
    (required key codec).WritesDistinct :=
  .single fun record => Or.inr ⟨codec.toValue record, rfl, distinct record⟩

theorem WritesDistinct.withDefault {key : String} {codec : Codec α} {fallback : α}
    (distinct : codec.WritesDistinct) : (withDefault key codec fallback).WritesDistinct :=
  .single fun record => Or.inr ⟨codec.toValue record, rfl, distinct record⟩

theorem WritesDistinct.optional {key : String} {codec : Codec α} (distinct : codec.WritesDistinct) :
    (optional key codec).WritesDistinct := by
  refine .single ?_
  intro record
  cases record with
  | none => exact Or.inl rfl
  | some value => exact Or.inr ⟨codec.toValue value, rfl, distinct value⟩

theorem WritesDistinct.optionalList {key : String} {codec : Codec α}
    (distinct : codec.WritesDistinct) : (optionalList key codec).WritesDistinct := by
  refine .single ?_
  intro record
  cases record with
  | nil => exact Or.inl rfl
  | cons value values =>
      exact Or.inr ⟨_, rfl, Codec.WritesDistinct.list distinct (value :: values)⟩

theorem WritesDistinct.both {left : Fields α} {right : Fields β} (apart : Apart left right)
    (leftInverts : left.Inverts) (rightInverts : right.Inverts) (leftDistinct : left.WritesDistinct)
    (rightDistinct : right.WritesDistinct) : (both left right).WritesDistinct where
  once := by
    intro record
    change ((left.members record.1 ++ right.members record.2).map Prod.fst).Nodup
    rw [List.map_append]
    refine List.nodup_append.2 ⟨leftDistinct.once record.1, rightDistinct.once record.2, ?_⟩
    intro key inLeft other inRight same
    obtain ⟨member, written, isKey⟩ := List.mem_map.1 inLeft
    obtain ⟨member', written', isOther⟩ := List.mem_map.1 inRight
    have notRight := apart member.1 (leftInverts.own record.1 member written)
    rw [isKey, same, ← isOther, rightInverts.own record.2 member' written'] at notRight
    exact Bool.noConfusion notRight
  inside := by
    intro record member written
    rcases List.mem_append.1 written with inLeft | inRight
    · exact leftDistinct.inside record.1 member inLeft
    · exact rightDistinct.inside record.2 member inRight

theorem WritesDistinct.as {fields : Fields α} {make : α → β} {parts : β → α}
    (distinct : fields.WritesDistinct) : (fields.as make parts).WritesDistinct where
  once record := distinct.once (parts record)
  inside record := distinct.inside (parts record)

end Fields
end LedgerWire.Json

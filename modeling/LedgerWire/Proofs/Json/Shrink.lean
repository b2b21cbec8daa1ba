import LedgerWire.Proofs.Json.Height

/-!
How high the written form of a value is that has been decoded from a JSON value: no higher than that
one, or than the least that the type needs.
-/

namespace LedgerWire.Json

variable {α β : Type}

def Codec.Shrinks (codec : Codec α) (least : Nat) : Prop :=
  ∀ value result, codec.ofValue value = .ok result →
    (codec.toValue result).height ≤ max value.height least

def Fields.Shrinks (fields : Fields α) (least : Nat) : Prop :=
  ∀ bound, fields.Bounds fields.placeValue (fun value => value.height ≤ bound) (max bound least)

namespace Codec

theorem shrinks_of_height {codec : Codec α} {least : Nat}
    (bounded : ∀ value, (codec.toValue value).height ≤ least) : codec.Shrinks least :=
  fun _ result _ => Nat.le_trans (bounded result) (Nat.le_max_right _ _)

theorem shrinks_within {codec : Codec α} {least bound : Nat} (shrinks : codec.Shrinks least)
    {value : Value} {result : α} (low : value.height ≤ bound)
    (decoded : codec.ofValue value = .ok result) :
    (codec.toValue result).height ≤ max bound least := by
  have shrunk := shrinks value result decoded
  omega

theorem shrinks_list {item : Codec α} {least : Nat} (shrinks : item.Shrinks least) :
    item.list.Shrinks (least + 1) := by
  intro value results decoded
  obtain ⟨items, same, related⟩ := list_ofValue_iff.1 decoded
  have low : ∀ inner ∈ items, inner.height ≤ heightOfItems items :=
    heightOfItems_le.1 (Nat.le_refl _)
  have written : heightOfItems (results.map item.toValue) ≤ max (heightOfItems items) least := by
    rw [heightOfItems_le]
    intro back member
    obtain ⟨result, inside, sameResult⟩ := List.mem_map.1 member
    obtain ⟨inner, held, itemDecoded⟩ := forall₂_left related inside
    rw [← sameResult]
    exact shrinks_within shrinks (low inner held) itemDecoded
  rw [same]
  simp only [list, Value.height]
  omega

theorem shrinks_refine {base : Codec α} {widen : β → α} {narrow : α → Except String β} {least : Nat}
    (inverse : ∀ wide value, narrow wide = .ok value → widen value = wide)
    (shrinks : base.Shrinks least) : (base.refine widen narrow).Shrinks least := by
  intro value result decoded
  obtain ⟨wide, baseDecoded, narrowed⟩ := refine_ofValue_iff.1 decoded
  have shrunk := shrinks value wide baseDecoded
  rw [← inverse wide result narrowed] at shrunk
  exact shrunk

theorem shrinks_freeForm : freeForm.Shrinks 0 := by
  intro value form decoded
  rw [← Except.ok.inj decoded]
  exact Nat.le_trans value.height_settle (Nat.le_max_left _ _)

theorem shrinks_freeRecord : freeRecord.Shrinks 0 := by
  intro value form decoded
  cases value with
  | record members =>
      rw [← Except.ok.inj decoded]
      exact Nat.le_trans (Value.height_settle (.record members)) (Nat.le_max_left _ _)
  | null | boolean | number | text | list => simp [freeRecord, wrongType] at decoded

end Codec

namespace Fields

theorem shrinks_required {key : String} {codec : Codec α} {least : Nat}
    (shrinks : codec.Shrinks least) : (required key codec).Shrinks least := by
  intro bound
  rw [required, placeValue_single]
  exact .required fun _ _ low decoded => Codec.shrinks_within shrinks low decoded

theorem shrinks_withDefault {key : String} {codec : Codec α} {fallback : α} {least : Nat}
    (bounded : (codec.toValue fallback).height ≤ least) (shrinks : codec.Shrinks least) :
    (withDefault key codec fallback).Shrinks least := by
  intro bound
  rw [withDefault, placeValue_single]
  exact .withDefault (Nat.le_trans bounded (Nat.le_max_right _ _))
    fun _ _ low decoded => Codec.shrinks_within shrinks low decoded

theorem shrinks_optional {key : String} {codec : Codec α} {least : Nat}
    (shrinks : codec.Shrinks least) : (optional key codec).Shrinks least := by
  intro bound
  rw [optional, placeValue_single]
  refine .optional ?_
  intro value result low decoded
  by_cases isNull : value = .null
  · rw [isNull] at decoded
    simp [Codec.nullable] at decoded
  · rw [Codec.nullable_ofValue isNull] at decoded
    obtain ⟨held, itemDecoded, same⟩ := map_eq_ok.1 decoded
    rw [← Option.some.inj same]
    exact Codec.shrinks_within shrinks low itemDecoded

theorem shrinks_optionalList {key : String} {codec : Codec α} {least : Nat}
    (shrinks : codec.Shrinks least) : (optionalList key codec).Shrinks (least + 1) := by
  intro bound
  rw [optionalList, placeValue_single]
  exact .optionalList fun _ _ low decoded =>
    Codec.shrinks_within (Codec.shrinks_list shrinks) low decoded

theorem shrinks_both {left : Fields α} {right : Fields β} {leftLeast rightLeast : Nat}
    (apart : Apart left right) (leftShrinks : left.Shrinks leftLeast)
    (rightShrinks : right.Shrinks rightLeast) :
    (both left right).Shrinks (max leftLeast rightLeast) := by
  intro bound
  rw [placeValue_both]
  exact (Bounds.both apart (leftShrinks bound) (rightShrinks bound)).mono (by omega)

theorem shrinks_as {fields : Fields α} {make : α → β} {parts : β → α} {least : Nat}
    (inverse : ∀ record, parts (make record) = record) (shrinks : fields.Shrinks least) :
    (fields.as make parts).Shrinks least :=
  fun bound => .as inverse (shrinks bound)

theorem Holds.height_lt {fields : Fields α} {value : Value} {entries : Members}
    (holds : fields.Holds value entries) : ∀ entry ∈ entries, entry.2.height < value.height := by
  intro entry member
  rcases holds with same | ⟨items, same, ordered⟩
  · have low := heightOfMembers_le.1 (Nat.le_refl _) entry member
    rw [same, Value.height]
    omega
  · rw [ordered.2] at member
    have low := heightOfItems_le.1 (Nat.le_refl _) entry.2 (List.of_mem_zip member).2
    rw [same, Value.height]
    omega

end Fields

theorem Codec.shrinks_record {expected : String} {fields : Fields α} {least : Nat}
    (sound : fields.Sound) (shrinks : fields.Shrinks least) :
    (Codec.record expected fields).Shrinks (least + 1) := by
  intro value record decoded
  obtain ⟨entries, holds, collected⟩ := (record_ofValue_iff sound).1 decoded
  have low : ∀ entry ∈ entries, entry.2.height ≤ value.height - 1 :=
    fun entry member => Nat.le_sub_one_of_lt (holds.height_lt entry member)
  have members : heightOfMembers (fields.members record) ≤ max (value.height - 1) least :=
    heightOfMembers_le.2 (shrinks _ entries record low collected)
  have opened : 0 < value.height := by
    rcases holds with same | ⟨items, same, _⟩
    · rw [same, Value.height]
      omega
    · rw [same, Value.height]
      omega
  simp only [Codec.record, Fields.toValue, Value.height]
  omega

end LedgerWire.Json

import LedgerWire.Proofs.Json.Depth

/-!
How high the written form of a value is that has been read within a limit: no higher than the limit,
or than what the type writes for fields that were missing. `Fields.Bounds` says this of a record for
whatever its fields are read from.
-/

namespace LedgerWire.Json

variable {α β τ : Type}

theorem heightOfMembers_settleIn_le {key : String} {value : Value} {members : Members} {bound : Nat}
    (valueFits : value.height ≤ bound) (fits : heightOfMembers members ≤ bound) :
    heightOfMembers (Members.settleIn key value members) ≤ bound := by
  rw [heightOfMembers_le] at fits ⊢
  intro member found
  rcases Members.mem_settleIn found with isNew | old
  · rw [isNew]
    exact valueFits
  · exact fits member old

mutual

theorem Value.height_settle : (value : Value) → value.settle.height ≤ value.height
  | .null | .boolean _ | .number _ | .text _ => by simp [Value.settle, Value.height]
  | .list items => by
    simp only [Value.settle, Value.height, Nat.add_le_add_iff_right]
    exact heightOfItems_settle items
  | .record members => by
    simp only [Value.settle, Value.height, Nat.add_le_add_iff_right]
    exact heightOfMembers_settle members

theorem heightOfItems_settle : (items : List Value) →
    heightOfItems (settleItems items) ≤ heightOfItems items
  | [] => Nat.le_refl _
  | item :: rest => by
    have first := Value.height_settle item
    have others := heightOfItems_settle rest
    simp only [settleItems, heightOfItems]
    omega

theorem heightOfMembers_settle : (members : Members) →
    heightOfMembers (settleMembers members) ≤ heightOfMembers members
  | [] => Nat.le_refl _
  | (key, value) :: rest => by
    have first := Value.height_settle value
    have others := heightOfMembers_settle rest
    refine heightOfMembers_settleIn_le ?_ ?_
    · simp only [heightOfMembers]
      omega
    · simp only [heightOfMembers]
      omega

end

theorem height_le_of_readValue (depth : Nat) : ∀ text value,
    Takes (readValue depth) text value → value.height ≤ depth := by
  induction depth with
  | zero =>
      rintro text value ⟨rest, read⟩
      cases value with
      | list items =>
          obtain ⟨_, _, impossible, _⟩ := readValue_list_iff.1 read
          exact absurd impossible (by omega)
      | record members =>
          obtain ⟨_, _, impossible, _⟩ := readValue_record_iff.1 read
          exact absurd impossible (by omega)
      | null | boolean | number | text => exact Nat.le_refl _
  | succ depth ih =>
      rintro text value ⟨rest, read⟩
      cases value with
      | list items =>
          obtain ⟨inner, texts, same, _, related⟩ := readValue_list_iff.1 read
          rw [← Nat.succ.inj same] at related
          rw [Value.height, Nat.add_le_add_iff_right, heightOfItems_le]
          intro item member
          obtain ⟨text, _, taken⟩ := forall₂_left related member
          exact ih text item taken
      | record members =>
          obtain ⟨inner, outline, same, _, related⟩ := readValue_record_iff.1 read
          rw [← Nat.succ.inj same] at related
          rw [Value.height, Nat.add_le_add_iff_right, heightOfMembers_le]
          intro member inside
          obtain ⟨place, _, taken⟩ := forall₂_left related inside
          exact ih place.2 member.2 taken.2
      | null | boolean | number | text => exact Nat.zero_le _

/-- What is read within a limit is written within it, or within the least that the type needs. -/
def Codec.Nests (codec : Codec α) (least : Nat) : Prop :=
  ∀ depth text value, Takes (codec.ofText depth) text value →
    (codec.toValue value).height ≤ max depth least

def Fields.Nests (fields : Fields α) (least : Nat) : Prop :=
  ∀ depth outline record, fields.collect (fields.placeTaken depth) outline = .ok record →
    ∀ member ∈ fields.members record, member.2.height ≤ max depth least

namespace Codec

theorem nests_of_height {codec : Codec α} {least : Nat}
    (bounded : ∀ value, (codec.toValue value).height ≤ least) : codec.Nests least :=
  fun _ _ value _ => Nat.le_trans (bounded value) (Nat.le_max_right _ _)

theorem nests_ofString {expected : String} {print : α → String}
    {parse : String → Except String α} : (ofString expected print parse).Nests 0 :=
  nests_of_height fun _ => Nat.le_refl _

theorem nests_natural : natural.Nests 0 := nests_of_height fun _ => Nat.le_refl _

theorem nests_list {item : Codec α} {least : Nat} (skips : ∀ depth, Skips (item.ofText depth))
    (nests : item.Nests least) : item.list.Nests (least + 1) := by
  rintro depth text values ⟨rest, read⟩
  obtain ⟨inner, texts, same, _, related⟩ := (list_ofText_iff skips).1 read
  subst same
  have each : ∀ value ∈ values, (item.toValue value).height ≤ max inner least := by
    intro value member
    obtain ⟨text, _, taken⟩ := forall₂_left related member
    exact nests inner text value taken
  have items : heightOfItems (values.map item.toValue) ≤ max inner least := by
    rw [heightOfItems_le]
    intro written member
    obtain ⟨value, inside, same⟩ := List.mem_map.1 member
    rw [← same]
    exact each value inside
  simp only [list, Value.height]
  omega

theorem nests_refine {base : Codec α} {widen : β → α} {narrow : α → Except String β} {least : Nat}
    (inverse : ∀ wide value, narrow wide = .ok value → widen value = wide)
    (nests : base.Nests least) : (base.refine widen narrow).Nests least := by
  rintro depth text value ⟨rest, read⟩
  obtain ⟨wide, baseRead, narrowed⟩ := refine_ofText_iff.1 read
  have bound := nests depth text wide ⟨rest, baseRead⟩
  rw [← inverse wide value narrowed] at bound
  exact bound

theorem nests_freeForm : freeForm.Nests 0 := by
  rintro depth text form ⟨rest, read⟩
  obtain ⟨value, valueRead, same⟩ := freeForm_ofText_iff.1 read
  have settled := value.height_settle
  have bound := height_le_of_readValue depth text value ⟨rest, valueRead⟩
  rw [← same]
  exact Nat.le_trans settled (Nat.le_trans bound (Nat.le_max_left _ _))

theorem nests_freeRecord : freeRecord.Nests 0 := by
  rintro depth text form ⟨rest, read⟩
  obtain ⟨members, valueRead, same⟩ := freeRecord_ofText_iff.1 read
  have settled := Value.height_settle (.record members)
  have bound := height_le_of_readValue depth text _ ⟨rest, valueRead⟩
  rw [← same]
  exact Nat.le_trans settled (Nat.le_trans bound (Nat.le_max_left _ _))

end Codec

namespace Fields

def Bounds (fields : Fields α) (place : String → fields.Slots → τ → Except Fault fields.Slots)
    (good : τ → Prop) (bound : Nat) : Prop :=
  ∀ entries record, (∀ entry ∈ entries, good entry.2) →
    fields.collect place entries = .ok record →
      ∀ member ∈ fields.members record, member.2.height ≤ bound

section

variable {good : τ → Prop} {bound : Nat}

theorem Bounds.single {key : String} {codec : Codec α} {optional : Bool}
    {missing : Except Fault α} {members : α → Members} {take : τ → Except Fault α}
    (absent : ∀ record, missing = .ok record → ∀ member ∈ members record, member.2.height ≤ bound)
    (present : ∀ thing record, good thing → take thing = .ok record →
      ∀ member ∈ members record, member.2.height ≤ bound) :
    (single key codec optional missing members).Bounds
      (placeSingle key codec optional missing members take) good bound := by
  intro entries record allGood collected member written
  rw [collect_single] at collected
  change member ∈ members record at written
  cases shape : valuesAt key entries with
  | nil =>
      rw [shape] at collected
      exact absent record collected member written
  | cons thing others =>
      rw [shape] at collected
      cases others with
      | nil =>
          have inside : (key, thing) ∈ entries := mem_valuesAt.1 (by rw [shape]; simp)
          exact present thing record (allGood _ inside) collected member written
      | cons second more => exact collected.elim

theorem Bounds.required {key : String} {codec : Codec α} {take : τ → Except Fault α}
    (kept : ∀ thing value, good thing → take thing = .ok value →
      (codec.toValue value).height ≤ bound) :
    (required key codec).Bounds (placeSingle key codec false _ _ take) good bound := by
  refine .single ?_ ?_
  · intro record impossible
    simp at impossible
  · intro thing record isGood taken member written
    rw [List.mem_singleton.1 written]
    exact kept thing record isGood taken

theorem Bounds.withDefault {key : String} {codec : Codec α} {fallback : α}
    {take : τ → Except Fault α} (bounded : (codec.toValue fallback).height ≤ bound)
    (kept : ∀ thing value, good thing → take thing = .ok value →
      (codec.toValue value).height ≤ bound) :
    (withDefault key codec fallback).Bounds (placeSingle key codec true _ _ take) good bound := by
  refine .single ?_ ?_
  · intro record same member written
    rw [List.mem_singleton.1 written, ← Except.ok.inj same]
    exact bounded
  · intro thing record isGood taken member written
    rw [List.mem_singleton.1 written]
    exact kept thing record isGood taken

theorem Bounds.optional {key : String} {codec : Codec α} {take : τ → Except Fault (Option α)}
    (kept : ∀ thing value, good thing → take thing = .ok (some value) →
      (codec.toValue value).height ≤ bound) :
    (optional key codec).Bounds (placeSingle key codec.nullable true _ _ take) good bound := by
  refine .single ?_ ?_
  · intro record same member written
    rw [← Except.ok.inj same] at written
    exact absurd written List.not_mem_nil
  · intro thing record isGood taken member written
    cases record with
    | none => exact absurd written List.not_mem_nil
    | some value =>
        rw [List.mem_singleton.1 written]
        exact kept thing value isGood taken

theorem Bounds.optionalList {key : String} {codec : Codec α} {take : τ → Except Fault (List α)}
    (kept : ∀ thing values, good thing → take thing = .ok values →
      (codec.list.toValue values).height ≤ bound) :
    (optionalList key codec).Bounds (placeSingle key codec.list true _ _ take) good bound := by
  refine .single ?_ ?_
  · intro record same member written
    rw [← Except.ok.inj same] at written
    exact absurd written List.not_mem_nil
  · intro thing record isGood taken member written
    cases record with
    | nil => exact absurd written List.not_mem_nil
    | cons value values =>
        rw [List.mem_singleton.1 written]
        exact kept thing (value :: values) isGood taken

theorem Bounds.both {left : Fields α} {right : Fields β}
    {placeLeft : String → left.Slots → τ → Except Fault left.Slots}
    {placeRight : String → right.Slots → τ → Except Fault right.Slots} {leftBound rightBound : Nat}
    (apart : Apart left right) (leftBounds : left.Bounds placeLeft good leftBound)
    (rightBounds : right.Bounds placeRight good rightBound) :
    (both left right).Bounds (placeBoth left right placeLeft placeRight) good
      (max leftBound rightBound) := by
  intro entries record allGood collected member written
  rw [collect_both apart] at collected
  rcases List.mem_append.1 written with inLeft | inRight
  · exact Nat.le_trans (leftBounds entries record.1 allGood collected.1 member inLeft)
      (Nat.le_max_left _ _)
  · exact Nat.le_trans (rightBounds entries record.2 allGood collected.2 member inRight)
      (Nat.le_max_right _ _)

theorem Bounds.as {fields : Fields α} {make : α → β} {parts : β → α}
    {place : String → fields.Slots → τ → Except Fault fields.Slots}
    (inverse : ∀ record, parts (make record) = record) (bounds : fields.Bounds place good bound) :
    (fields.as make parts).Bounds place good bound := by
  intro entries record allGood collected member written
  have whole := collect_as fields make parts place entries
  change (fields.as make parts).collect place entries = .ok record at collected
  rw [whole] at collected
  obtain ⟨inner, innerCollected, same⟩ := map_eq_ok.1 collected
  change member ∈ fields.members (parts record) at written
  rw [← same, inverse] at written
  exact bounds entries inner allGood innerCollected member written

theorem Bounds.mono {fields : Fields α}
    {place : String → fields.Slots → τ → Except Fault fields.Slots} {larger : Nat}
    (bounds : fields.Bounds place good bound) (below : bound ≤ larger) :
    fields.Bounds place good larger :=
  fun entries record allGood collected member written =>
    Nat.le_trans (bounds entries record allGood collected member written) below

end

theorem nests_iff {fields : Fields α} {least : Nat} : fields.Nests least ↔
    ∀ depth, fields.Bounds (fields.placeTaken depth) (fun _ => True) (max depth least) :=
  ⟨fun nests depth entries record _ => nests depth entries record,
    fun bounds depth entries record => bounds depth entries record fun _ _ => trivial⟩

theorem nests_required {key : String} {codec : Codec α} {least : Nat} (nests : codec.Nests least) :
    (required key codec).Nests least := by
  refine nests_iff.2 fun depth => ?_
  rw [required, placeTaken_single]
  exact .required fun text value _ taken => nests depth text value (taken_eq_ok.1 taken)

theorem nests_withDefault {key : String} {codec : Codec α} {fallback : α} {least : Nat}
    (bounded : (codec.toValue fallback).height ≤ least) (nests : codec.Nests least) :
    (withDefault key codec fallback).Nests least := by
  refine nests_iff.2 fun depth => ?_
  rw [withDefault, placeTaken_single]
  exact .withDefault (Nat.le_trans bounded (Nat.le_max_right _ _))
    fun text value _ taken => nests depth text value (taken_eq_ok.1 taken)

theorem nests_optional {key : String} {codec : Codec α} {least : Nat} (nests : codec.Nests least) :
    (optional key codec).Nests least := by
  refine nests_iff.2 fun depth => ?_
  rw [optional, placeTaken_single]
  refine .optional ?_
  intro text value _ taken
  obtain ⟨rest, read⟩ := taken_eq_ok.1 taken
  rcases Codec.nullable_ofText_iff.1 read with ⟨isNone, _⟩ | ⟨_, held, same, itemRead⟩
  · simp at isNone
  · rw [Option.some.inj same]
    exact nests depth _ held ⟨rest, itemRead⟩

theorem nests_optionalList {key : String} {codec : Codec α} {least : Nat}
    (skips : ∀ depth, Skips (codec.ofText depth)) (nests : codec.Nests least) :
    (optionalList key codec).Nests (least + 1) := by
  refine nests_iff.2 fun depth => ?_
  rw [optionalList, placeTaken_single]
  exact .optionalList fun text values _ taken =>
    Codec.nests_list skips nests depth text values (taken_eq_ok.1 taken)

theorem nests_both {left : Fields α} {right : Fields β} {leftLeast rightLeast : Nat}
    (apart : Apart left right) (leftNests : left.Nests leftLeast)
    (rightNests : right.Nests rightLeast) :
    (both left right).Nests (max leftLeast rightLeast) := by
  refine nests_iff.2 fun depth => ?_
  rw [placeTaken_both]
  exact (Bounds.both apart (nests_iff.1 leftNests depth) (nests_iff.1 rightNests depth)).mono
    (by omega)

theorem nests_as {fields : Fields α} {make : α → β} {parts : β → α} {least : Nat}
    (inverse : ∀ record, parts (make record) = record) (nests : fields.Nests least) :
    (fields.as make parts).Nests least :=
  nests_iff.2 fun depth => .as inverse (nests_iff.1 nests depth)

end Fields

theorem Codec.nests_record {expected : String} {fields : Fields α} {least : Nat}
    (sound : fields.Sound) (nests : fields.Nests least) :
    (Codec.record expected fields).Nests (least + 1) := by
  rintro depth text record ⟨rest, read⟩
  obtain ⟨inner, entries, same, _, collected⟩ := (record_ofText_iff sound).1 read
  subst same
  have members : heightOfMembers (fields.members record) ≤ max inner least :=
    heightOfMembers_le.2 (nests inner entries record collected)
  simp only [Codec.record, Fields.toValue, Value.height]
  omega

end LedgerWire.Json

import LedgerWire.Proofs.Json.Distinct
import LedgerWire.Proofs.Json.Portable
import LedgerWire.Proofs.Json.Shrink

/-!
The laws of a codec put together, and how they pass from the parts of a type to the type.
-/

namespace LedgerWire.Json

variable {α β : Type}

/-- The codec reads alike from texts and from values, reads back what it writes, writes no key twice
and does not look at the order of members, keeps to the limit on open lists and records, writes
nothing higher than what it has read, and reads a value alike wherever it stands. -/
structure Codec.Lawful (codec : Codec α) (least : Nat) : Prop where
  coherent : codec.Coherent
  inverts : codec.Inverts
  distinct : codec.WritesDistinct
  settles : Settles codec.ofValue
  lowering : Lowering codec.ofText
  nests : codec.Nests least
  shrinks : codec.Shrinks least
  portable : codec.Portable

structure Fields.Lawful (fields : Fields α) (least : Nat) : Prop where
  sound : fields.Sound
  agrees : fields.Agrees
  inverts : fields.Inverts
  distinct : fields.WritesDistinct
  settles : fields.Settles
  lowering : fields.Lowering
  nests : fields.Nests least
  shrinks : fields.Shrinks least
  portable : fields.Portable

namespace Codec

theorem Lawful.ofString {expected : String} {print : α → String}
    {parse : String → Except String α} (inverse : ∀ value, parse (print value) = .ok value) :
    (ofString expected print parse).Lawful 0 where
  coherent := coherent_ofString expected print parse
  inverts := inverts_ofString inverse
  distinct := .ofString
  settles := settles_scalar _ _
  lowering := lowering_scalar _ _
  nests := nests_ofString
  shrinks := shrinks_of_height fun _ => Nat.le_refl _
  portable := portable_scalar _ _

theorem Lawful.string : string.Lawful 0 := Lawful.ofString fun _ => rfl

theorem Lawful.natural : natural.Lawful 0 where
  coherent := coherent_natural
  inverts := inverts_natural
  distinct := .natural
  settles := settles_scalar _ _
  lowering := lowering_scalar _ _
  nests := nests_natural
  shrinks := shrinks_of_height fun _ => Nat.le_refl _
  portable := portable_scalar _ _

theorem Lawful.list {item : Codec α} {least : Nat} (lawful : item.Lawful least) :
    item.list.Lawful (least + 1) where
  coherent := coherent_list lawful.coherent
  inverts := inverts_list lawful.inverts
  distinct := .list lawful.distinct
  settles := settles_list lawful.settles
  lowering := lowering_list lawful.lowering
  nests := nests_list lawful.coherent.skips lawful.nests
  shrinks := shrinks_list lawful.shrinks
  portable := portable_list lawful.coherent.skips lawful.portable

theorem Lawful.refine {base : Codec α} {widen : β → α} {narrow : α → Except String β} {least : Nat}
    (lawful : base.Lawful least)
    (inverse : ∀ wide value, narrow wide = .ok value ↔ wide = widen value) :
    (base.refine widen narrow).Lawful least where
  coherent := coherent_refine widen narrow lawful.coherent
  inverts := inverts_refine lawful.inverts fun value => (inverse (widen value) value).2 rfl
  distinct := .refine lawful.distinct
  settles := settles_refine widen narrow lawful.settles
  lowering := lowering_refine widen narrow lawful.lowering
  nests := nests_refine (fun wide value narrowed => ((inverse wide value).1 narrowed).symm) lawful.nests
  shrinks := shrinks_refine (fun wide value narrowed => ((inverse wide value).1 narrowed).symm)
    lawful.shrinks
  portable := portable_refine widen narrow lawful.portable

theorem Lawful.freeForm : freeForm.Lawful 0 where
  coherent := coherent_freeForm
  inverts := inverts_freeForm
  distinct := .freeForm
  settles := settles_freeForm
  lowering := lowering_freeForm
  nests := nests_freeForm
  shrinks := shrinks_freeForm
  portable := portable_freeForm

theorem Lawful.freeRecord : freeRecord.Lawful 0 where
  coherent := coherent_freeRecord
  inverts := inverts_freeRecord
  distinct := .freeRecord
  settles := settles_freeRecord
  lowering := lowering_freeRecord
  nests := nests_freeRecord
  shrinks := shrinks_freeRecord
  portable := portable_freeRecord

theorem Lawful.record {expected : String} {fields : Fields α} {least : Nat}
    (lawful : fields.Lawful least) : (Codec.record expected fields).Lawful (least + 1) where
  coherent := coherent_record lawful.sound lawful.agrees
  inverts := inverts_record lawful.inverts
  distinct := .record lawful.distinct
  settles := settles_record lawful.sound lawful.settles
  lowering := lowering_record lawful.lowering
  nests := nests_record lawful.sound lawful.nests
  shrinks := shrinks_record lawful.sound lawful.shrinks
  portable := portable_record lawful.sound lawful.portable

theorem Lawful.names {name : α → String} {values : List α}
    (inverse : ∀ value, (names name values).ofValue (.text (name value)) = .ok value) :
    (names name values).Lawful 0 where
  coherent := coherent_names name values
  inverts := inverse
  distinct := fun _ => trivial
  settles := settles_names name values
  lowering := lowering_names name values
  nests := nests_of_height fun _ => Nat.le_refl _
  shrinks := shrinks_of_height fun _ => Nat.le_refl _
  portable := portable_names name values

end Codec

namespace Fields

theorem Lawful.required (key : String) {codec : Codec α} {least : Nat}
    (lawful : codec.Lawful least) : (required key codec).Lawful least where
  sound := sound_single lawful.coherent.skips fun _ _ impossible => by simp at impossible
  agrees := agrees_single lawful.coherent.agrees
  inverts := inverts_required lawful.inverts
  distinct := .required lawful.distinct
  settles := settles_single lawful.settles
  lowering := lowering_single lawful.lowering
  nests := nests_required lawful.nests
  shrinks := shrinks_required lawful.shrinks
  portable := portable_single lawful.portable

theorem Lawful.withDefault (key : String) {codec : Codec α} {fallback : α} {least : Nat}
    (bounded : (codec.toValue fallback).height ≤ least) (lawful : codec.Lawful least) :
    (withDefault key codec fallback).Lawful least where
  sound := sound_single lawful.coherent.skips fun required => Bool.noConfusion required
  agrees := agrees_single lawful.coherent.agrees
  inverts := inverts_withDefault lawful.inverts
  distinct := .withDefault lawful.distinct
  settles := settles_single lawful.settles
  lowering := lowering_single lawful.lowering
  nests := nests_withDefault bounded lawful.nests
  shrinks := shrinks_withDefault bounded lawful.shrinks
  portable := portable_single lawful.portable

theorem Lawful.optional (key : String) {codec : Codec α} {least : Nat}
    (lawful : codec.Lawful least) (neverNull : codec.NeverNull) :
    (optional key codec).Lawful least where
  sound := sound_single (Codec.coherent_nullable lawful.coherent).skips fun required =>
    Bool.noConfusion required
  agrees := agrees_single (Codec.coherent_nullable lawful.coherent).agrees
  inverts := inverts_optional lawful.inverts neverNull
  distinct := .optional lawful.distinct
  settles := settles_single (Codec.settles_nullable lawful.settles)
  lowering := lowering_single (Codec.lowering_nullable lawful.lowering)
  nests := nests_optional lawful.nests
  shrinks := shrinks_optional lawful.shrinks
  portable := portable_single (Codec.portable_nullable lawful.portable)

theorem Lawful.optionalList (key : String) {codec : Codec α} {least : Nat}
    (lawful : codec.Lawful least) : (optionalList key codec).Lawful (least + 1) where
  sound := sound_single (Codec.Lawful.list lawful).coherent.skips fun required =>
    Bool.noConfusion required
  agrees := agrees_single (Codec.Lawful.list lawful).coherent.agrees
  inverts := inverts_optionalList lawful.inverts
  distinct := .optionalList lawful.distinct
  settles := settles_single (Codec.Lawful.list lawful).settles
  lowering := lowering_single (Codec.Lawful.list lawful).lowering
  nests := nests_optionalList lawful.coherent.skips lawful.nests
  shrinks := shrinks_optionalList lawful.shrinks
  portable := portable_single (Codec.Lawful.list lawful).portable

theorem apart_of_keys {left : Fields α} {right : Fields β}
    (keys : ∀ pair ∈ left.keys, right.isKey pair.1 = false) : Apart left right := by
  intro key isKey
  obtain ⟨pair, member, same⟩ := List.mem_map.1 (isKey_iff.1 isKey)
  rw [← same]
  exact keys pair member

theorem Lawful.both {left : Fields α} {right : Fields β} {leftLeast rightLeast : Nat}
    (keys : ∀ pair ∈ left.keys, right.isKey pair.1 = false) (leftLawful : left.Lawful leftLeast)
    (rightLawful : right.Lawful rightLeast) :
    (both left right).Lawful (max leftLeast rightLeast) where
  sound := sound_both (apart_of_keys keys) leftLawful.sound rightLawful.sound
  agrees := agrees_both (apart_of_keys keys) leftLawful.agrees rightLawful.agrees
  inverts := inverts_both (apart_of_keys keys) leftLawful.inverts rightLawful.inverts
  distinct := .both (apart_of_keys keys) leftLawful.inverts rightLawful.inverts leftLawful.distinct
    rightLawful.distinct
  settles := settles_both (apart_of_keys keys) leftLawful.settles rightLawful.settles
  lowering := lowering_both leftLawful.lowering rightLawful.lowering
  nests := nests_both (apart_of_keys keys) leftLawful.nests rightLawful.nests
  shrinks := shrinks_both (apart_of_keys keys) leftLawful.shrinks rightLawful.shrinks
  portable := portable_both (apart_of_keys keys) leftLawful.portable rightLawful.portable

theorem Lawful.as {fields : Fields α} {make : α → β} {parts : β → α} {least : Nat}
    (lawful : fields.Lawful least) (makes : ∀ record, make (parts record) = record)
    (splits : ∀ record, parts (make record) = record) : (fields.as make parts).Lawful least where
  sound := sound_as make parts lawful.sound
  agrees := agrees_as make parts lawful.agrees
  inverts := inverts_as makes lawful.inverts
  distinct := .as lawful.distinct
  settles := settles_as make parts lawful.settles
  lowering := lawful.lowering
  nests := nests_as splits lawful.nests
  shrinks := shrinks_as splits lawful.shrinks
  portable := portable_as make parts lawful.portable

end Fields

theorem Codec.neverNull_record {expected : String} {fields : Fields α} :
    (Codec.record expected fields).NeverNull := by
  intro record impossible
  exact Value.noConfusion impossible

end LedgerWire.Json

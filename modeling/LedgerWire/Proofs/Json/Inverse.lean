import LedgerWire.Proofs.Json.Agreement

/-!
Decoding what has been written: every codec gets back the value that it wrote, and a type without
free-form parts writes no floating-point number.
-/

namespace LedgerWire.Json

variable {α β τ : Type}

namespace Codec

def Inverts (codec : Codec α) : Prop := ∀ value, codec.ofValue (codec.toValue value) = .ok value

theorem inverts_ofString {expected : String} {print : α → String}
    {parse : String → Except String α} (inverse : ∀ value, parse (print value) = .ok value) :
    (ofString expected print parse).Inverts := by
  intro value
  simp only [ofString, scalar, Value.found, inverse]

theorem inverts_natural : natural.Inverts := by
  intro value
  simp [natural, scalar, Value.found, ofNatural]

theorem inverts_list {item : Codec α} (inverts : item.Inverts) : item.list.Inverts := by
  intro values
  change valuesOfItems item (values.map item.toValue) = .ok values
  rw [valuesOfItems_eq_ok, List.forall₂_map_left_iff, List.forall₂_same]
  exact fun value _ => inverts value

theorem inverts_refine {base : Codec α} {widen : β → α} {narrow : α → Except String β}
    (inverts : base.Inverts) (inverse : ∀ value, narrow (widen value) = .ok value) :
    (base.refine widen narrow).Inverts := by
  intro value
  exact refine_ofValue_iff.2 ⟨widen value, inverts (widen value), inverse value⟩

theorem inverts_freeForm : freeForm.Inverts := by
  rintro ⟨value, settled⟩
  simp [freeForm, FreeForm.ofValue, settled]

theorem inverts_freeRecord : freeRecord.Inverts := by
  rintro ⟨members, settled⟩
  simp [freeRecord, FreeRecord.ofMembers, settled]

/-- A codec that never writes null, and so can stand in a field that may be left out. -/
def NeverNull (codec : Codec α) : Prop := ∀ value, codec.toValue value ≠ .null

theorem nullable_ofValue {item : Codec α} {value : Value} (notNull : value ≠ .null) :
    item.nullable.ofValue value = (item.ofValue value).map some := by
  cases value <;> first | rfl | exact absurd rfl notNull

end Codec

namespace Fields

/-- A record is got back from any entries that hold what it wrote under its own keys. -/
structure Inverts (fields : Fields α) : Prop where
  own : ∀ record, ∀ member ∈ fields.members record, fields.isKey member.1 = true
  collects : ∀ record entries,
    (∀ key, fields.isKey key = true →
      valuesAt key entries = valuesAt key (fields.members record)) →
    fields.collect fields.placeValue entries = .ok record

theorem inverts_single {key : String} {codec : Codec α} {optional : Bool}
    {missing : Except Fault α} {members : α → Members}
    (writes : ∀ record, (members record = [] ∧ missing = .ok record) ∨
      ∃ value, members record = [(key, value)] ∧ codec.ofValue value = .ok record) :
    (single key codec optional missing members).Inverts where
  own := by
    intro record member written
    change member ∈ members record at written
    rw [isKey_single, decide_eq_true_eq]
    rcases writes record with ⟨empty, _⟩ | ⟨value, shape, _⟩
    · rw [empty] at written
      exact absurd written List.not_mem_nil
    · rw [shape, List.mem_singleton] at written
      rw [written]
  collects := by
    intro record entries same
    rw [placeValue_single, collect_single, same key (by rw [isKey_single]; simp)]
    change AtMostOne _ _ _ (valuesAt key (members record))
    rcases writes record with ⟨empty, absent⟩ | ⟨value, shape, inverse⟩
    · rw [empty]
      exact absent
    · rw [shape, valuesAt_cons, valuesAt_nil, if_pos rfl]
      exact inverse

theorem inverts_required {key : String} {codec : Codec α} (inverts : codec.Inverts) :
    (required key codec).Inverts :=
  inverts_single fun record => Or.inr ⟨codec.toValue record, rfl, inverts record⟩

theorem inverts_withDefault {key : String} {codec : Codec α} {fallback : α}
    (inverts : codec.Inverts) : (withDefault key codec fallback).Inverts :=
  inverts_single fun record => Or.inr ⟨codec.toValue record, rfl, inverts record⟩

theorem inverts_optional {key : String} {codec : Codec α} (inverts : codec.Inverts)
    (neverNull : codec.NeverNull) : (optional key codec).Inverts := by
  refine inverts_single ?_
  intro record
  cases record with
  | none => exact Or.inl ⟨rfl, rfl⟩
  | some value =>
      refine Or.inr ⟨codec.toValue value, rfl, ?_⟩
      rw [Codec.nullable_ofValue (neverNull value), inverts value]
      rfl

theorem inverts_optionalList {key : String} {codec : Codec α} (inverts : codec.Inverts) :
    (optionalList key codec).Inverts := by
  refine inverts_single ?_
  intro record
  cases record with
  | nil => exact Or.inl ⟨rfl, rfl⟩
  | cons value values =>
      exact Or.inr ⟨codec.list.toValue (value :: values), rfl,
        Codec.inverts_list inverts (value :: values)⟩

theorem valuesAt_eq_nil_of_own {fields : Fields α} {members : List (String × τ)} {key : String}
    (own : ∀ member ∈ members, fields.isKey member.1 = true) (notKey : fields.isKey key = false) :
    valuesAt key members = [] := by
  rw [valuesAt_eq_nil]
  intro found
  obtain ⟨member, written, same⟩ := List.mem_map.1 found
  have isKey := own member written
  rw [same, notKey] at isKey
  exact Bool.noConfusion isKey

theorem inverts_both {left : Fields α} {right : Fields β} (apart : Apart left right)
    (leftInverts : left.Inverts) (rightInverts : right.Inverts) : (both left right).Inverts where
  own := by
    intro record member written
    rw [isKey_both, Bool.or_eq_true]
    rcases List.mem_append.1 written with inLeft | inRight
    · exact Or.inl (leftInverts.own record.1 member inLeft)
    · exact Or.inr (rightInverts.own record.2 member inRight)
  collects := by
    intro record entries same
    rw [placeValue_both, collect_both apart]
    have split : ∀ key, valuesAt key ((both left right).members record) =
        valuesAt key (left.members record.1) ++ valuesAt key (right.members record.2) :=
      fun key => valuesAt_append key _ _
    constructor
    · refine leftInverts.collects record.1 entries ?_
      intro key isKey
      rw [same key (by rw [isKey_both, isKey, Bool.true_or]), split,
        valuesAt_eq_nil_of_own (rightInverts.own record.2) (apart key isKey), List.append_nil]
    · refine rightInverts.collects record.2 entries ?_
      intro key isKey
      have notLeft : left.isKey key = false := by
        cases isLeft : left.isKey key with
        | false => rfl
        | true =>
            rw [apart key isLeft] at isKey
            exact isKey.symm
      rw [same key (by rw [isKey_both, isKey, Bool.or_true]), split,
        valuesAt_eq_nil_of_own (leftInverts.own record.1) notLeft, List.nil_append]

theorem inverts_as {fields : Fields α} {make : α → β} {parts : β → α}
    (inverse : ∀ record, make (parts record) = record) (inverts : fields.Inverts) :
    (fields.as make parts).Inverts where
  own record := inverts.own (parts record)
  collects := by
    intro record entries same
    have collected := inverts.collects (parts record) entries same
    have whole := collect_as fields make parts fields.placeValue entries
    rw [collected, ok_map, inverse] at whole
    exact whole

end Fields

theorem Codec.inverts_record {expected : String} {fields : Fields α} (inverts : fields.Inverts) :
    (Codec.record expected fields).Inverts := by
  intro record
  change fields.ofMembers (fields.members record) = .ok record
  rw [Fields.ofMembers_eq]
  exact inverts.collects record _ fun _ _ => rfl

/-! What is written without floating-point numbers. -/

def Codec.WritesExact (codec : Codec α) (clean : α → Prop) : Prop :=
  ∀ value, clean value → (codec.toValue value).Exact

def Fields.WritesExact (fields : Fields α) (clean : α → Prop) : Prop :=
  ∀ record, clean record → ∀ member ∈ fields.members record, member.2.Exact

theorem Codec.WritesExact.mono {codec : Codec α} {clean other : α → Prop}
    (exact : codec.WritesExact clean) (implies : ∀ value, other value → clean value) :
    codec.WritesExact other :=
  fun value holds => exact value (implies value holds)

namespace Codec

theorem WritesExact.ofString {expected : String} {print : α → String}
    {parse : String → Except String α} {clean : α → Prop} :
    (ofString expected print parse).WritesExact clean := by
  intro value _
  simp [Codec.ofString, scalar, Value.Exact]

theorem WritesExact.natural {clean : UInt64 → Prop} : natural.WritesExact clean := by
  intro value _
  simp [Codec.natural, scalar, ofNatural, Value.Exact]

theorem WritesExact.list {item : Codec α} {clean : α → Prop} (exact : item.WritesExact clean) :
    item.list.WritesExact fun values => ∀ value ∈ values, clean value := by
  intro values each
  simp only [Codec.list, Value.Exact, exactItems_iff, List.mem_map, forall_exists_index, and_imp,
    forall_apply_eq_imp_iff₂]
  exact fun value member => exact value (each value member)

theorem WritesExact.refine {base : Codec α} {widen : β → α} {narrow : α → Except String β}
    {clean : α → Prop} (exact : base.WritesExact clean) :
    (base.refine widen narrow).WritesExact fun value => clean (widen value) :=
  fun value clean => exact (widen value) clean

theorem WritesExact.record {expected : String} {fields : Fields α} {clean : α → Prop}
    (exact : fields.WritesExact clean) : (Codec.record expected fields).WritesExact clean := by
  intro record holds
  simp only [Codec.record, Fields.toValue, Value.Exact, exactMembers_iff]
  exact exact record holds

end Codec

namespace Fields

theorem WritesExact.required {key : String} {codec : Codec α} {clean : α → Prop}
    (exact : codec.WritesExact clean) : (required key codec).WritesExact clean := by
  intro record holds member written
  rw [List.mem_singleton.1 written]
  exact exact record holds

theorem WritesExact.withDefault {key : String} {codec : Codec α} {fallback : α} {clean : α → Prop}
    (exact : codec.WritesExact clean) : (withDefault key codec fallback).WritesExact clean := by
  intro record holds member written
  rw [List.mem_singleton.1 written]
  exact exact record holds

theorem WritesExact.optional {key : String} {codec : Codec α} {clean : α → Prop}
    (exact : codec.WritesExact clean) :
    (optional key codec).WritesExact fun record => ∀ value ∈ record, clean value := by
  intro record holds member written
  cases record with
  | none => exact absurd written List.not_mem_nil
  | some value =>
      rw [List.mem_singleton.1 written]
      exact exact value (holds value rfl)

theorem WritesExact.optionalList {key : String} {codec : Codec α} {clean : α → Prop}
    (exact : codec.WritesExact clean) :
    (optionalList key codec).WritesExact fun values => ∀ value ∈ values, clean value := by
  intro values holds member written
  cases values with
  | nil => exact absurd written List.not_mem_nil
  | cons value values =>
      rw [List.mem_singleton.1 written]
      exact Codec.WritesExact.list exact (value :: values) holds

theorem WritesExact.both {left : Fields α} {right : Fields β} {leftClean : α → Prop}
    {rightClean : β → Prop} (leftExact : left.WritesExact leftClean)
    (rightExact : right.WritesExact rightClean) :
    (both left right).WritesExact fun record => leftClean record.1 ∧ rightClean record.2 := by
  rintro record ⟨first, second⟩ member written
  rcases List.mem_append.1 written with inLeft | inRight
  · exact leftExact record.1 first member inLeft
  · exact rightExact record.2 second member inRight

theorem WritesExact.as {fields : Fields α} {make : α → β} {parts : β → α} {clean : α → Prop}
    (exact : fields.WritesExact clean) :
    (fields.as make parts).WritesExact fun record => clean (parts record) :=
  fun record holds => exact (parts record) holds

end Fields
end LedgerWire.Json

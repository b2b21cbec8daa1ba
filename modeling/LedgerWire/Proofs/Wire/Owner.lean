import LedgerWire.Owner
import LedgerWire.Proofs.Wire.Plain

/-!
Owners. The decoder that looks at the first byte and the one that looks at the shape of the value
differ in one place: the first takes the fields of a shared object as a list in their order, the
second does not. They agree on every other text.
-/

namespace LedgerWire

open Json

namespace OwnerRule

theorem lawful_sharedFields : sharedFields.Lawful 0 := .required _ Version.lawful

def memberCodec : Codec OwnerRule := .union toValue memberArms

theorem forall_arms {holds : Arm OwnerRule → Prop} {shared : Arm OwnerRule}
    (held : ∀ name make, holds (.holding name Address.codec make)) (last : holds shared) :
    ∀ arm ∈ arms shared, holds arm := by
  intro arm member
  simp only [arms, List.mem_cons, List.not_mem_nil, or_false] at member
  rcases member with same | same | same
  · rw [same]
    exact held _ _
  · rw [same]
    exact held _ _
  · rw [same]
    exact last

theorem coherent_memberArms : ∀ arm ∈ memberArms, arm.Coherent :=
  forall_arms (fun name make => Arm.coherent_holding name make Address.lawful.coherent)
    (Arm.coherent_withMembers _ _ _ lawful_sharedFields.sound lawful_sharedFields.agrees)

theorem coherent_memberCodec : memberCodec.Coherent := Codec.coherent_union coherent_memberArms

theorem portable_memberCodec : memberCodec.Portable :=
  Codec.portable_union (fun arm member => (coherent_memberArms arm member).skips)
    (forall_arms (fun name make => Arm.portable_holding name make Address.lawful.portable)
      (Arm.portable_withMembers _ _ _ lawful_sharedFields.sound lawful_sharedFields.portable))

theorem settles_memberCodec : Settles memberCodec.ofValue :=
  Codec.settles_union
    (forall_arms (fun name make => Arm.settles_holding name make Address.lawful.settles)
      (Arm.settles_withMembers _ _ _ lawful_sharedFields.settles))

theorem lowering_memberArms : ∀ arm ∈ memberArms, Lowering arm.contentOfText :=
  forall_arms (fun name make => Arm.lowering_holding name make Address.lawful.lowering)
    (Arm.lowering_withMembers _ _ _ lawful_sharedFields.lowering)

theorem inverts_memberCodec : memberCodec.Inverts := by
  have sharedInverts : ∀ since, sharedFields.ofMembers (sharedFields.members since) = .ok since :=
    fun since => lawful_sharedFields.inverts.collects since _ fun _ _ => rfl
  intro rule
  refine Codec.union_ofValue_iff.2 (Or.inr ?_)
  cases rule with
  | addressOwner address =>
      refine ⟨_, _, .holding "AddressOwner" Address.codec addressOwner, rfl, rfl, ?_⟩
      simp only [Arm.holding, Address.lawful.inverts address, ok_map]
  | objectOwner address =>
      refine ⟨_, _, .holding "ObjectOwner" Address.codec objectOwner, rfl, rfl, ?_⟩
      simp only [Arm.holding, Address.lawful.inverts address, ok_map]
  | shared since =>
      refine ⟨_, _, .withMembers "Shared" sharedName sharedFields shared, rfl, rfl, ?_⟩
      exact map_eq_ok.2 ⟨since, sharedInverts since, rfl⟩

theorem height_toValue (rule : OwnerRule) : rule.toValue.height ≤ 2 := by
  cases rule <;> simp [toValue, Value.height, heightOfMembers, Address.codec, Identifier.codec,
    Codec.ofString, Codec.scalar, sharedFields, Fields.toValue, Fields.required, Fields.single,
    Version.codec, Codec.refine, Counter.codec]

theorem writesExact_toValue (rule : OwnerRule) : rule.toValue.Exact := by
  cases rule with
  | addressOwner address | objectOwner address =>
      simp only [toValue, Value.Exact, exactMembers, and_true]
      exact Address.writesExact address trivial
  | shared since =>
      simp only [toValue, sharedFields, Fields.toValue, Fields.required, Fields.single, Value.Exact,
        exactMembers, and_true]
      exact Version.writesExact since trivial

theorem distinct_toValue (rule : OwnerRule) : rule.toValue.Distinct := by
  cases rule with
  | addressOwner address | objectOwner address =>
      simp [toValue, Value.Distinct, distinctMembers, Address.lawful.distinct address]
  | shared since =>
      simp [toValue, Value.Distinct, distinctMembers, sharedFields, Fields.toValue, Fields.required,
        Fields.single, Version.lawful.distinct since]

theorem alone_memberArms {name : String} {arm : Arm OwnerRule} {rule : OwnerRule}
    (named : Arm.named memberArms name = .ok arm) : arm.alone ≠ .ok rule := by
  have never : ∀ arm ∈ memberArms, arm.alone ≠ .ok rule :=
    forall_arms (fun name make => by simp [Arm.holding, Arm.withoutContent])
      (by simp [Arm.withMembers, Arm.withoutContent])
  exact never arm (Arm.mem_of_named named)

theorem memberCodec_ofText_iff {depth : Nat} {text rest : Bytes} {rule : OwnerRule} :
    memberCodec.ofText depth text = .ok (rule, rest) ↔
      ∃ inner name content arm, depth = inner + 1 ∧ RecordOutline text [(name, content)] rest ∧
        Arm.named memberArms name = .ok arm ∧ Takes (arm.contentOfText inner) content rule := by
  rw [memberCodec, Codec.union_ofText_iff fun arm member => (coherent_memberArms arm member).skips]
  constructor
  · rintro (⟨name, arm, _, named, alone⟩ | read)
    · exact absurd alone (alone_memberArms named)
    · exact read
  · exact Or.inr

end OwnerRule

namespace OwnerRule

/-! Rules as they are read where their shape has not been looked at: the fields of a shared object
may also be a list. -/

theorem skips_arms : ∀ arm ∈ arms (.withFields "Shared" sharedName sharedFields .shared), ∀ depth,
    Skips (arm.contentOfText depth) :=
  forall_arms (fun name make => (Arm.coherent_holding name make Address.lawful.coherent).skips)
    (Arm.skips_withFields _ _ _ (Codec.Lawful.record lawful_sharedFields).coherent)

theorem named_arms (shared : Arm OwnerRule) (isShared : shared.name = "Shared") (name : String)
    (arm : Arm OwnerRule) :
    Arm.named (arms shared) name = .ok arm ↔
      (name = "AddressOwner" ∧ arm = .holding "AddressOwner" Address.codec .addressOwner) ∨
      (name = "ObjectOwner" ∧ arm = .holding "ObjectOwner" Address.codec .objectOwner) ∨
      (name = "Shared" ∧ arm = shared) := by
  simp only [Arm.named, arms, List.find?_cons, List.find?_nil, Arm.holding, isShared]
  by_cases first : name = "AddressOwner"
  · simp [first, eq_comm]
  by_cases second : name = "ObjectOwner"
  · simp [second, eq_comm]
  by_cases third : name = "Shared"
  · simp [third, eq_comm]
  · simp [first, second, third, Ne.symm first, Ne.symm second, Ne.symm third]

def TakesInOrder (depth : Nat) (text : Bytes) (since : Version) : Prop :=
  ∃ inner item rest, depth = inner + 1 ∧ ListOutline text [item] rest ∧
    Takes (Version.codec.ofText inner) item since

theorem collect_sharedFields {depth : Nat} {entries : List (String × Bytes)} {since : Version} :
    sharedFields.collect (sharedFields.placeTaken depth) entries = .ok since ↔
      Under "initial_shared_version" entries (Takes (Version.codec.ofText depth) · since) :=
  Fields.collect_required

theorem ordered_sharedFields {texts : List Bytes} {entries : List (String × Bytes)} :
    sharedFields.Ordered texts entries ↔
      (texts = [] ∧ entries = []) ∨
        ∃ item, texts = [item] ∧ entries = [("initial_shared_version", item)] := by
  simp only [Fields.Ordered, sharedFields, Fields.required, Fields.single]
  cases texts with
  | nil => simp
  | cons item others =>
      cases others with
      | nil => simp
      | cons second more => simp

/-- Reading the fields of a shared object from a list is all that the two ways differ in. -/
theorem withFields_ofText_iff {depth : Nat} {text rest : Bytes} {rule : OwnerRule} :
    (Arm.withFields "Shared" sharedName sharedFields .shared).contentOfText depth text =
        .ok (rule, rest) ↔
      (Arm.withMembers "Shared" sharedName sharedFields .shared).contentOfText depth text =
        .ok (rule, rest) ∨
      ∃ since, rule = shared since ∧ Skipped text rest ∧ TakesInOrder depth text since := by
  rw [Arm.withMembers_ofText_iff lawful_sharedFields.sound]
  simp only [Arm.withFields, bind_eq_ok, Prod.exists,
    Codec.record_ofText_iff lawful_sharedFields.sound, Fields.Offers]
  constructor
  · rintro ⟨since, after, ⟨inner, entries, sameDepth, outline | ⟨texts, outline, ordered⟩, collected⟩,
      same⟩
    · obtain ⟨sameRule, sameRest⟩ := ok_pair_inj same
      rw [← sameRest]
      exact Or.inl ⟨inner, entries, since, sameDepth, outline, collected, sameRule⟩
    · obtain ⟨sameRule, sameRest⟩ := ok_pair_inj same
      rw [← sameRest]
      obtain ⟨item, under, taken⟩ := collect_sharedFields.1 collected
      rcases ordered_sharedFields.1 ordered with ⟨_, empty⟩ | ⟨item', sameTexts, sameEntries⟩
      · rw [empty] at under
        exact absurd under (List.cons_ne_nil _ _).symm
      · rw [sameEntries, valuesAt_cons, valuesAt_nil, if_pos rfl] at under
        rw [← (List.cons.inj under).1] at taken
        rw [sameTexts] at outline
        exact Or.inr ⟨since, sameRule.symm, outline.skipped, inner, item', after, sameDepth, outline,
          taken⟩
  · rintro (⟨inner, outline, since, sameDepth, found, collected, sameRule⟩ |
      ⟨since, sameRule, skipped, inner, item, after, sameDepth, outline, taken⟩)
    · exact ⟨since, rest, ⟨inner, outline, sameDepth, Or.inl found, collected⟩, by rw [sameRule]⟩
    · rw [← outline.skipped.unique skipped]
      refine ⟨since, after, ⟨inner, _, sameDepth,
        Or.inr ⟨[item], outline, ordered_sharedFields.2 (Or.inr ⟨item, rfl, rfl⟩)⟩, ?_⟩,
        by rw [sameRule]⟩
      exact collect_sharedFields.2 ⟨item, by rw [valuesAt_cons, valuesAt_nil, if_pos rfl], taken⟩

def ReadsInOrder (depth : Nat) (text rest : Bytes) (since : Version) : Prop :=
  ∃ inner content, depth = inner + 1 ∧ RecordOutline text [("Shared", content)] rest ∧
    TakesInOrder inner content since

theorem codec_ofText_iff {depth : Nat} {text rest : Bytes} {rule : OwnerRule} :
    codec.ofText depth text = .ok (rule, rest) ↔
      memberCodec.ofText depth text = .ok (rule, rest) ∨
        ∃ since, rule = shared since ∧ ReadsInOrder depth text rest since := by
  rw [memberCodec_ofText_iff, codec, Codec.union_ofText_iff skips_arms]
  simp only [memberArms, named_arms (.withFields "Shared" sharedName sharedFields .shared) rfl,
    named_arms (.withMembers "Shared" sharedName sharedFields .shared) rfl]
  constructor
  · rintro (⟨name, arm, _, ⟨_, same⟩ | ⟨_, same⟩ | ⟨_, same⟩, alone⟩ |
      ⟨inner, name, content, arm, sameDepth, outline, isFirst | isSecond | ⟨sameName, same⟩, taken⟩)
    · simp [same, Arm.holding, Arm.withoutContent] at alone
    · simp [same, Arm.holding, Arm.withoutContent] at alone
    · simp [same, Arm.withFields, Arm.withoutContent] at alone
    · exact Or.inl ⟨inner, name, content, arm, sameDepth, outline, Or.inl isFirst, taken⟩
    · exact Or.inl ⟨inner, name, content, arm, sameDepth, outline, Or.inr (Or.inl isSecond), taken⟩
    · rw [same] at taken
      rcases taken with ⟨after, read⟩
      rcases withFields_ofText_iff.1 read with members | ⟨since, sameRule, _, inOrder⟩
      · exact Or.inl ⟨inner, name, content, _, sameDepth, outline,
          Or.inr (Or.inr ⟨sameName, rfl⟩), after, members⟩
      · rw [sameName] at outline
        exact Or.inr ⟨since, sameRule, inner, content, sameDepth, outline, inOrder⟩
  · rintro (⟨inner, name, content, arm, sameDepth, outline, isFirst | isSecond | ⟨sameName, same⟩,
      taken⟩ | ⟨since, sameRule, inner, content, sameDepth, outline, inOrder⟩)
    · exact Or.inr ⟨inner, name, content, arm, sameDepth, outline, Or.inl isFirst, taken⟩
    · exact Or.inr ⟨inner, name, content, arm, sameDepth, outline, Or.inr (Or.inl isSecond), taken⟩
    · rw [same] at taken
      rcases taken with ⟨after, members⟩
      exact Or.inr ⟨inner, name, content, _, sameDepth, outline, Or.inr (Or.inr ⟨sameName, rfl⟩),
        after, withFields_ofText_iff.2 (Or.inl members)⟩
    · have skipped : ∃ behind, Skipped content behind := by
        rcases inOrder with ⟨_, _, behind, _, list, _⟩
        exact ⟨behind, list.skipped⟩
      rcases skipped with ⟨behind, skipped⟩
      exact Or.inr ⟨inner, "Shared", content, _, sameDepth, outline, Or.inr (Or.inr ⟨rfl, rfl⟩),
        behind, withFields_ofText_iff.2 (Or.inr ⟨since, sameRule, skipped, inOrder⟩)⟩

end OwnerRule

namespace Owner

theorem readRule_iff {depth : Nat} {text inside rest : Bytes} {owner : Owner}
    (found : readFound text = .ok (.record, inside)) :
    readRule depth inside = .ok (owner, rest) ↔
      ∃ rule, OwnerRule.memberCodec.ofText (depth + 1) text = .ok (rule, rest) ∧
        owner = .ruled rule := by
  have skips := fun arm member => (OwnerRule.coherent_memberArms arm member).skips
  simp only [OwnerRule.memberCodec_ofText_iff, RecordOutline, readFound_record_iff.1 found,
    readFound_record_iff, entries_one_iff, readRule, bind_eq_ok, List.cons.injEq, true_and]
  constructor
  · rintro ⟨next, place, later⟩
    cases next with
    | finished stop => simp [wrongType] at later
    | entry start =>
        simp only [bind_eq_ok, Prod.exists] at later
        rcases later with ⟨name, afterKey, keyRead, arm, named, content, colonRead, rule, after,
          taken, behind, ended, same⟩
        obtain ⟨sameOwner, sameRest⟩ := ok_pair_inj same
        rw [← (nextEntry_first_iff.1 place).1] at keyRead
        have skipped := (skips arm (Arm.mem_of_named named) depth).skipValue taken
        rw [← sameRest]
        exact ⟨rule, ⟨depth, name, content, arm, rfl, ⟨inside, rfl, afterKey, after, keyRead,
          colonRead, skipped, ended⟩, named, after, taken⟩, sameOwner.symm⟩
  · rintro ⟨rule, ⟨inner, name, content, arm, sameDepth, ⟨_, sameInside, afterKey, after, keyRead,
      colonRead, skipped, ended⟩, named, taken⟩, sameOwner⟩
    rw [← Nat.succ.inj sameDepth] at taken
    rw [← sameInside] at keyRead
    obtain ⟨tail, shape⟩ := readKey_cons keyRead
    have whole := (skips arm (Arm.mem_of_named named) depth).rest_eq taken skipped
    refine ⟨.entry (skipBlanks inside),
      nextEntry_first_iff.2 ⟨rfl, quote, tail, shape, by decide⟩, ?_⟩
    simp only [keyRead, named, colonRead, whole, ended, ok_bind, sameOwner]

theorem ofText_iff {depth : Nat} {text rest : Bytes} {owner : Owner} :
    codec.ofText depth text = .ok (owner, rest) ↔
      (∃ name, readFound text = .ok (.text name, rest) ∧ owner = .named name) ∨
        ∃ rule, OwnerRule.memberCodec.ofText depth text = .ok (rule, rest) ∧
          owner = .ruled rule := by
  simp only [codec, bind_eq_ok, Prod.exists]
  constructor
  · rintro ⟨found, inside, read, later⟩
    split at later
    · rename_i name
      obtain ⟨sameOwner, sameRest⟩ := ok_pair_inj later
      rw [← sameRest]
      exact Or.inl ⟨name, read, sameOwner.symm⟩
    · simp at later
    · exact Or.inr ((readRule_iff read).1 later)
    · simp [wrongType] at later
  · rintro (⟨name, read, sameOwner⟩ | ⟨rule, read, sameOwner⟩)
    · exact ⟨.text name, rest, read, by rw [sameOwner]⟩
    · rcases OwnerRule.memberCodec_ofText_iff.1 read with
        ⟨inner, _, _, _, sameDepth, ⟨inside, found, _⟩, _⟩
      subst sameDepth
      exact ⟨.record, inside, found, (readRule_iff found).2 ⟨rule, read, sameOwner⟩⟩

theorem ofValue_iff {value : Value} {owner : Owner} :
    codec.ofValue value = .ok owner ↔
      (∃ name, value = .text name ∧ owner = .named name) ∨
        ∃ rule, OwnerRule.memberCodec.ofValue value = .ok rule ∧ owner = .ruled rule := by
  rw [OwnerRule.memberCodec]
  simp only [Codec.union_ofValue_iff]
  cases value with
  | text name =>
      constructor
      · intro same
        exact Or.inl ⟨name, rfl, (Except.ok.inj same).symm⟩
      · rintro (⟨_, same, sameOwner⟩ | ⟨rule, ⟨_, arm, _, named, alone⟩ | ⟨_, _, _, same, _⟩, _⟩)
        · rw [sameOwner, ← Value.text.inj same]
          rfl
        · exact absurd alone (OwnerRule.alone_memberArms named)
        · exact Value.noConfusion same
  | record members =>
      change ruleOfMembers members = .ok owner ↔ _
      cases members with
      | nil => simp [ruleOfMembers, wrongType]
      | cons member others =>
          rcases member with ⟨name, content⟩
          simp only [ruleOfMembers, bind_eq_ok]
          constructor
          · rintro ⟨arm, named, rule, accepted, later⟩
            split at later
            · rename_i alone
              rw [List.isEmpty_iff.1 alone]
              exact Or.inr ⟨rule, Or.inr ⟨name, content, arm, rfl, named, accepted⟩,
                (Except.ok.inj later).symm⟩
            · simp at later
          · rintro (⟨_, impossible, _⟩ | ⟨rule, ⟨_, _, impossible, _⟩ |
              ⟨_, _, arm, same, named, accepted⟩, sameOwner⟩)
            · exact Value.noConfusion impossible
            · exact Value.noConfusion impossible
            · simp only [Value.record.injEq, List.cons.injEq, Prod.mk.injEq] at same
              rw [← same.1.1] at named
              rw [← same.1.2] at accepted
              exact ⟨arm, named, rule, accepted, by rw [same.2, sameOwner]; rfl⟩
  | null | boolean | number | list => simp [codec, wrongType]

theorem coherent : codec.Coherent where
  skips := by
    intro depth bytes owner rest read
    rcases ofText_iff.1 read with ⟨name, found, _⟩ | ⟨rule, ruleRead, _⟩
    · exact skipped_scalar found rfl
    · exact OwnerRule.coherent_memberCodec.skips depth bytes rule rest ruleRead
  agrees := by
    intro depth text value taken owner
    rw [ofValue_iff]
    have same := OwnerRule.coherent_memberCodec.agrees depth text value taken
    rcases taken with ⟨rest, read⟩
    have found := readFound_of_readValue read
    constructor
    · rintro ⟨behind, typed⟩
      rcases ofText_iff.1 typed with ⟨name, foundText, sameOwner⟩ | ⟨rule, ruleRead, sameOwner⟩
      · have isText := found.unique ⟨behind, foundText⟩
        cases value with
        | text other => exact Or.inl ⟨name, by rw [Found.text.inj isText], sameOwner⟩
        | null | boolean | number | list | record => simp [Value.found] at isText
      · have accepted := (same rule).1 ⟨behind, ruleRead⟩
        exact Or.inr ⟨rule, accepted, sameOwner⟩
    · rintro (⟨name, isText, sameOwner⟩ | ⟨rule, accepted, sameOwner⟩)
      · subst isText
        rcases found with ⟨behind, foundText⟩
        exact ⟨behind, ofText_iff.2 (Or.inl ⟨name, foundText, sameOwner⟩)⟩
      · obtain ⟨behind, ruleRead⟩ := (same rule).2 accepted
        exact ⟨behind, ofText_iff.2 (Or.inr ⟨rule, ruleRead, sameOwner⟩)⟩

theorem settles : Settles codec.ofValue := by
  intro value distinct owner
  rw [ofValue_iff, ofValue_iff]
  simp only [OwnerRule.settles_memberCodec value distinct, Value.settle_eq_text_iff]

theorem lowering : Lowering codec.ofText := by
  intro low high below bytes
  refine lowers_bind (lowers_refl _) ?_
  rintro ⟨found, rest⟩
  cases found with
  | record =>
      apply lowers_inside below
      · rfl
      · intro low high below
        refine lowers_bind (lowers_refl _) fun next => ?_
        cases next with
        | finished stop => exact lowers_refl _
        | entry start =>
            refine lowers_bind (lowers_refl _) fun key => ?_
            refine Arm.lowers_named OwnerRule.lowering_memberArms key.1 fun arm lowering => ?_
            refine lowers_bind (lowers_refl _) fun text => ?_
            exact lowers_bind (lowering low high below text) fun _ => lowers_refl _
  | null | boolean | number | text | list => exact lowers_refl _

theorem portable : codec.Portable := by
  intro depth
  refine portable_of ?_
  rintro left right owner alike ⟨rest, read⟩
  rcases ofText_iff.1 read with ⟨name, found, same⟩ | ⟨rule, ruleRead, same⟩
  · obtain ⟨behind, moved⟩ := (portable_readFound left right alike _).1 ⟨rest, found⟩
    exact ⟨behind, ofText_iff.2 (Or.inl ⟨name, moved, same⟩)⟩
  · obtain ⟨behind, moved⟩ :=
      (OwnerRule.portable_memberCodec depth left right alike rule).1 ⟨rest, ruleRead⟩
    exact ⟨behind, ofText_iff.2 (Or.inr ⟨rule, moved, same⟩)⟩

theorem height_toValue (owner : Owner) : owner.toValue.height ≤ 2 := by
  cases owner with
  | named name => exact Nat.zero_le _
  | ruled rule => exact rule.height_toValue

theorem lawful : codec.Lawful 2 where
  coherent := coherent
  inverts := by
    intro owner
    cases owner with
    | named name => rfl
    | ruled rule =>
        exact ofValue_iff.2 (Or.inr ⟨rule, OwnerRule.inverts_memberCodec rule, rfl⟩)
  distinct := by
    intro owner
    cases owner with
    | named name => trivial
    | ruled rule => exact rule.distinct_toValue
  settles := settles
  lowering := lowering
  nests := Codec.nests_of_height height_toValue
  shrinks := Codec.shrinks_of_height height_toValue
  portable := portable

theorem writesExact : codec.WritesExact fun _ => True := by
  intro owner _
  cases owner with
  | named name => trivial
  | ruled rule => exact rule.writesExact_toValue

end Owner

end LedgerWire

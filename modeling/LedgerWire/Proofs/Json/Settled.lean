import LedgerWire.Proofs.Json.Height

/-!
Values without repeated keys. Putting such a value into settled form, with its members sorted, makes
no difference to any decoder.
-/

namespace LedgerWire.Json

variable {α β τ : Type}

mutual

/-- No record in the value has a key twice. -/
def Value.Distinct : Value → Prop
  | .list items => distinctItems items
  | .record members => (members.map Prod.fst).Nodup ∧ distinctMembers members
  | _ => True

def distinctItems : List Value → Prop
  | [] => True
  | item :: rest => item.Distinct ∧ distinctItems rest

def distinctMembers : Members → Prop
  | [] => True
  | (_, value) :: rest => value.Distinct ∧ distinctMembers rest

end

theorem distinctItems_iff (items : List Value) :
    distinctItems items ↔ ∀ item ∈ items, item.Distinct := by
  induction items with
  | nil => simp [distinctItems]
  | cons item rest ih => simp [distinctItems, ih]

theorem distinctMembers_iff (members : Members) :
    distinctMembers members ↔ ∀ member ∈ members, member.2.Distinct := by
  induction members with
  | nil => simp [distinctMembers]
  | cons member rest ih =>
      rcases member with ⟨key, value⟩
      simp only [distinctMembers, ih, List.mem_cons, forall_eq_or_imp]

theorem settleItems_eq (items : List Value) : settleItems items = items.map Value.settle := by
  induction items with
  | nil => rfl
  | cons item rest ih => rw [settleItems, ih, List.map_cons]

theorem found_settle (value : Value) : value.settle.found = value.found := by
  cases value <;> simp [Value.settle, Value.found]

theorem keys_settleIn (key : String) (value : Value) (members : Members) :
    ∀ other, other ∈ (Members.settleIn key value members).map Prod.fst ↔
      other = key ∨ other ∈ members.map Prod.fst := by
  intro other
  induction members with
  | nil => simp [Members.settleIn]
  | cons head rest ih =>
      rcases head with ⟨first, held⟩
      simp only [Members.settleIn]
      split
      · simp
      · split
        · rename_i same
          simp [same]
        · simp only [List.map_cons, List.mem_cons, ih]
          exact or_left_comm

theorem keys_settleMembers (members : Members) : ∀ other,
    other ∈ (settleMembers members).map Prod.fst ↔ other ∈ members.map Prod.fst := by
  intro other
  induction members with
  | nil => simp [settleMembers]
  | cons head rest ih =>
      rcases head with ⟨key, value⟩
      rw [settleMembers, keys_settleIn, ih, List.map_cons, List.mem_cons]

theorem valuesAt_settleIn {key : String} {value : Value} {members : Members}
    (absent : key ∉ members.map Prod.fst) (other : String) :
    valuesAt other (Members.settleIn key value members) =
      if key = other then [value] else valuesAt other members := by
  induction members with
  | nil => simp [Members.settleIn, valuesAt_cons]
  | cons head rest ih =>
      rcases head with ⟨first, held⟩
      simp only [List.map_cons, List.mem_cons, not_or] at absent
      have later := ih absent.2
      simp only [Members.settleIn]
      split
      · rw [valuesAt_cons]
        by_cases same : key = other
        · have none : valuesAt other ((first, held) :: rest) = [] := by
            rw [valuesAt_eq_nil, ← same]
            simpa using absent
          simp [same, none]
        · simp [same]
      · split
        · rename_i same
          exact absurd same absent.1
        · rw [valuesAt_cons, valuesAt_cons, later]
          by_cases same : key = other
          · have differ : ¬ first = other := fun isFirst => absent.1 (same.trans isFirst.symm)
            simp [same, differ]
          · simp [same]

theorem valuesAt_settleMembers (key : String) (members : Members)
    (distinct : (members.map Prod.fst).Nodup) :
    valuesAt key (settleMembers members) = (valuesAt key members).map Value.settle := by
  induction members with
  | nil => rfl
  | cons head rest ih =>
      rcases head with ⟨first, value⟩
      rw [List.map_cons, List.nodup_cons] at distinct
      have absent : first ∉ (settleMembers rest).map Prod.fst := by
        rw [keys_settleMembers]
        exact distinct.1
      rw [settleMembers, valuesAt_settleIn absent, valuesAt_cons, ih distinct.2]
      by_cases same : first = key
      · have none : valuesAt key rest = [] := by
          rw [valuesAt_eq_nil, ← same]
          exact distinct.1
        simp [same, none]
      · simp [same]

theorem length_settleIn {key : String} {value : Value} {members : Members}
    (absent : key ∉ members.map Prod.fst) :
    (Members.settleIn key value members).length = members.length + 1 := by
  induction members with
  | nil => rfl
  | cons head rest ih =>
      rcases head with ⟨first, held⟩
      simp only [List.map_cons, List.mem_cons, not_or] at absent
      simp only [Members.settleIn]
      split
      · rfl
      · split
        · rename_i same
          exact absurd same absent.1
        · simp [ih absent.2]

theorem length_settleMembers (members : Members) (distinct : (members.map Prod.fst).Nodup) :
    (settleMembers members).length = members.length := by
  induction members with
  | nil => rfl
  | cons head rest ih =>
      rcases head with ⟨first, value⟩
      rw [List.map_cons, List.nodup_cons] at distinct
      have absent : first ∉ (settleMembers rest).map Prod.fst := by
        rw [keys_settleMembers]
        exact distinct.1
      rw [settleMembers, length_settleIn absent, ih distinct.2, List.length_cons]

theorem Value.settle_eq_text_iff {value : Value} {name : String} :
    value.settle = .text name ↔ value = .text name := by
  cases value <;> simp [Value.settle]

theorem Value.settle_eq_list_iff {value : Value} {items : List Value} :
    value.settle = .list items ↔ ∃ held, value = .list held ∧ items = held.map Value.settle := by
  cases value <;> simp [Value.settle, settleItems_eq, eq_comm]

theorem Value.settle_eq_oneMember_iff {value : Value} (distinct : value.Distinct) {name : String}
    {content : Value} :
    value.settle = .record [(name, content)] ↔
      ∃ held, value = .record [(name, held)] ∧ content = held.settle := by
  cases value with
  | record members =>
      rw [Value.Distinct, distinctMembers_iff] at distinct
      have sameLength := length_settleMembers members distinct.1
      constructor
      · intro same
        rw [Value.settle, Value.record.injEq] at same
        rw [same] at sameLength
        obtain ⟨⟨name', held⟩, one⟩ := List.length_eq_one_iff.1 sameLength.symm
        subst one
        simp only [settleMembers, Members.settleIn, List.cons.injEq, Prod.mk.injEq, and_true] at same
        exact ⟨held, by rw [same.1], same.2.symm⟩
      · rintro ⟨held, same, sameContent⟩
        rw [Value.record.inj same, sameContent]
        simp only [Value.settle, settleMembers, Members.settleIn]
  | null | boolean | number | text | list => simp [Value.settle]

/-- A decoder for which it makes no difference whether a value without repeated keys is settled. -/
def Settles (decode : Value → Except Fault α) : Prop :=
  ∀ value, value.Distinct → ∀ result, decode value.settle = .ok result ↔ decode value = .ok result

namespace Codec

theorem settles_scalar (toValue : α → Value) (visit : Found → Except Fault α) :
    Settles (scalar toValue visit).ofValue := by
  intro value _ result
  change visit value.settle.found = .ok result ↔ visit value.found = .ok result
  rw [found_settle]

theorem settles_nullable {item : Codec α} (settles : Settles item.ofValue) :
    Settles item.nullable.ofValue := by
  intro value distinct result
  by_cases isNull : value = .null
  · rw [isNull, Value.settle]
  · have notNull : value.settle ≠ .null := by
      intro impossible
      cases value <;> simp [Value.settle] at impossible isNull
    rw [nullable_ofValue isNull, nullable_ofValue notNull, map_eq_ok, map_eq_ok]
    simp only [settles value distinct]

theorem settles_list {item : Codec α} (settles : Settles item.ofValue) :
    Settles item.list.ofValue := by
  intro value distinct results
  rw [list_ofValue_iff, list_ofValue_iff]
  simp only [Value.settle_eq_list_iff]
  have sameItems : ∀ items, value = .list items →
      (List.Forall₂ (fun item' result => item.ofValue item' = .ok result)
          (items.map Value.settle) results ↔
        List.Forall₂ (fun item' result => item.ofValue item' = .ok result) items results) := by
    intro items isList
    rw [isList, Value.Distinct, distinctItems_iff] at distinct
    rw [List.forall₂_map_left_iff]
    exact forall₂_congr_mem (fun item' member => settles item' (distinct item' member)) results
  constructor
  · rintro ⟨_, ⟨items, isList, shape⟩, related⟩
    rw [shape] at related
    exact ⟨items, isList, (sameItems items isList).1 related⟩
  · rintro ⟨items, isList, related⟩
    exact ⟨_, ⟨items, isList, rfl⟩, (sameItems items isList).2 related⟩

theorem settles_refine {base : Codec α} (widen : β → α) (narrow : α → Except String β)
    (settles : Settles base.ofValue) : Settles (base.refine widen narrow).ofValue := by
  intro value distinct result
  rw [refine_ofValue_iff, refine_ofValue_iff]
  simp only [settles value distinct]

theorem settles_freeForm : Settles freeForm.ofValue := by
  intro value _ result
  have same : FreeForm.ofValue value.settle = FreeForm.ofValue value := by
    simp only [FreeForm.ofValue, Value.settle_settle]
  change Except.ok (FreeForm.ofValue value.settle) = .ok result ↔
    Except.ok (FreeForm.ofValue value) = .ok result
  rw [same]

theorem settles_freeRecord : Settles freeRecord.ofValue := by
  intro value _ result
  cases value with
  | record members =>
      have same : FreeRecord.ofMembers (settleMembers members) = FreeRecord.ofMembers members := by
        simp only [FreeRecord.ofMembers, settleMembers_settleMembers]
      change Except.ok (FreeRecord.ofMembers (settleMembers members)) = .ok result ↔
        Except.ok (FreeRecord.ofMembers members) = .ok result
      rw [same]
  | null | boolean | number | text | list => simp [Value.settle, freeRecord, wrongType, Value.found]

end Codec

namespace Fields

def Settles (fields : Fields α) : Prop :=
  ∀ members others : Members,
    (∀ key, valuesAt key others = (valuesAt key members).map Value.settle) →
    (∀ member ∈ members, member.2.Distinct) →
    ∀ record, fields.collect fields.placeValue others = .ok record ↔
      fields.collect fields.placeValue members = .ok record

theorem settles_single {key : String} {codec : Codec α} {optional : Bool}
    {missing : Except Fault α} {members : α → Members} (settles : Json.Settles codec.ofValue) :
    (single key codec optional missing members).Settles := by
  intro entries others same distinct record
  rw [placeValue_single, collect_single, collect_single, same key]
  cases shape : valuesAt key entries with
  | nil => exact Iff.rfl
  | cons value more =>
      cases more with
      | nil =>
          have member : (key, value) ∈ entries := mem_valuesAt.1 (by rw [shape]; simp)
          exact settles value (distinct _ member) record
      | cons second more => exact Iff.rfl

theorem settles_both {left : Fields α} {right : Fields β} (apart : Apart left right)
    (leftSettles : left.Settles) (rightSettles : right.Settles) : (both left right).Settles := by
  intro entries others same distinct record
  rw [placeValue_both, collect_both apart, collect_both apart,
    leftSettles entries others same distinct, rightSettles entries others same distinct]

theorem settles_as {fields : Fields α} (make : α → β) (parts : β → α) (settles : fields.Settles) :
    (fields.as make parts).Settles := by
  intro entries others same distinct record
  have left := collect_as fields make parts fields.placeValue others
  have right := collect_as fields make parts fields.placeValue entries
  change (fields.as make parts).collect fields.placeValue others = .ok record ↔
    (fields.as make parts).collect fields.placeValue entries = .ok record
  rw [left, right, map_eq_ok, map_eq_ok]
  simp only [settles entries others same distinct]

theorem ofMembers_settle {fields : Fields α} (settles : fields.Settles) {members : Members}
    (distinct : (members.map Prod.fst).Nodup) (each : ∀ member ∈ members, member.2.Distinct)
    (record : α) :
    fields.ofMembers (settleMembers members) = .ok record ↔ fields.ofMembers members = .ok record :=
  settles members (settleMembers members) (fun key => valuesAt_settleMembers key members distinct)
    each record

theorem valuesAt_zip_map (key : String) (change : τ → τ) (keys : List String) :
    ∀ things : List τ,
    valuesAt key (keys.zip (things.map change)) = (valuesAt key (keys.zip things)).map change := by
  induction keys with
  | nil => simp
  | cons first keys ih =>
      intro things
      cases things with
      | nil => simp
      | cons thing things =>
          simp only [List.map_cons, List.zip_cons_cons, valuesAt_cons, ih]
          split <;> rfl

end Fields

theorem Codec.settles_record {expected : String} {fields : Fields α} (sound : fields.Sound)
    (settles : fields.Settles) : Settles (Codec.record expected fields).ofValue := by
  intro value distinct record
  cases value with
  | record members =>
      rw [Value.Distinct, distinctMembers_iff] at distinct
      exact Fields.ofMembers_settle settles distinct.1 distinct.2 record
  | list items =>
      rw [Value.Distinct, distinctItems_iff] at distinct
      change fields.ofItems expected (settleItems items) = .ok record ↔
        fields.ofItems expected items = .ok record
      rw [settleItems_eq, Fields.ofItems_iff sound, Fields.ofItems_iff sound]
      have each : ∀ member ∈ (fields.keys.map Prod.fst).zip items, member.2.Distinct :=
        fun member inside => distinct member.2 (List.of_mem_zip inside).2
      have same := settles _ _
        (fun key => Fields.valuesAt_zip_map key Value.settle (fields.keys.map Prod.fst) items)
        each record
      simp only [Fields.Ordered, List.length_map]
      constructor
      · rintro ⟨_, ⟨short, shape⟩, collected⟩
        rw [shape] at collected
        exact ⟨_, ⟨short, rfl⟩, same.1 collected⟩
      · rintro ⟨_, ⟨short, shape⟩, collected⟩
        rw [shape] at collected
        exact ⟨_, ⟨short, rfl⟩, same.2 collected⟩
  | null | boolean | number | text => simp [Value.settle, Codec.record, wrongType, Value.found]

namespace Arm

theorem settles_plain (name : String) (value : α) : Settles (plain name value).contentOfValue := by
  intro content _ result
  cases content <;> simp [Value.settle, plain, wrongType]

theorem settles_holding (name : String) {codec : Codec β} (make : β → α)
    (settles : Settles codec.ofValue) : Settles (holding name codec make).contentOfValue := by
  intro content distinct result
  change (codec.ofValue content.settle).map make = .ok result ↔
    (codec.ofValue content).map make = .ok result
  rw [map_eq_ok, map_eq_ok]
  simp only [settles content distinct]

theorem settles_withMembers (name expected : String) {fields : Fields β} (make : β → α)
    (settles : fields.Settles) : Settles (withMembers name expected fields make).contentOfValue := by
  intro content distinct result
  cases content with
  | record members =>
      rw [Value.Distinct, distinctMembers_iff] at distinct
      change (fields.ofMembers (settleMembers members)).map make = .ok result ↔
        (fields.ofMembers members).map make = .ok result
      rw [map_eq_ok, map_eq_ok]
      simp only [Fields.ofMembers_settle settles distinct.1 distinct.2]
  | null | boolean | number | text | list =>
      simp [Value.settle, withMembers, wrongType]

end Arm

theorem Codec.settles_union {toValue : α → Value} {arms : List (Arm α)}
    (settles : ∀ arm ∈ arms, Settles arm.contentOfValue) :
    Settles (Codec.union toValue arms).ofValue := by
  intro value distinct result
  rw [union_ofValue_iff, union_ofValue_iff]
  simp only [Value.settle_eq_text_iff, Value.settle_eq_oneMember_iff distinct]
  refine or_congr_right ⟨?_, ?_⟩
  · rintro ⟨name, _, arm, ⟨content, isRecord, same⟩, named, accepted⟩
    rw [isRecord] at distinct
    rw [same, settles arm (Arm.mem_of_named named) content distinct.2.1] at accepted
    exact ⟨name, content, arm, isRecord, named, accepted⟩
  · rintro ⟨name, content, arm, isRecord, named, accepted⟩
    rw [isRecord] at distinct
    rw [← settles arm (Arm.mem_of_named named) content distinct.2.1] at accepted
    exact ⟨name, _, arm, ⟨content, isRecord, rfl⟩, named, accepted⟩

theorem Codec.settles_names (name : α → String) (values : List α) :
    Settles (Codec.names name values).ofValue := by
  refine Codec.settles_union ?_
  intro arm member
  obtain ⟨value, _, same⟩ := List.mem_map.1 member
  rw [← same]
  exact Arm.settles_plain (name value) value

end LedgerWire.Json

import LedgerWire.Proofs.Json.Taking

/-!
Reading a text straight into a type agrees with reading it as a value and decoding that: where the
text is read as a value, both succeed or neither does, and with the same result.
-/

namespace LedgerWire.Json

variable {α β τ υ : Type}

/-- A reader of texts and a decoder of values that make the same of every text that has a value. -/
def Agree (reader : Nat → Reader α) (decode : Value → Except Fault α) : Prop :=
  ∀ depth text value, Takes (readValue depth) text value →
    ∀ result, Takes (reader depth) text result ↔ decode value = .ok result

theorem forall₂_congr {α : Type} {related : τ → υ → Prop} {left : τ → α → Prop}
    {right : υ → α → Prop}
    (same : ∀ text value, related text value → ∀ result, left text result ↔ right value result)
    {texts : List τ} {values : List υ} (pairs : List.Forall₂ related texts values) :
    ∀ results, List.Forall₂ left texts results ↔ List.Forall₂ right values results := by
  induction pairs with
  | nil =>
      intro results
      rw [List.forall₂_nil_left_iff, List.forall₂_nil_left_iff]
  | cons pair _ ih =>
      intro results
      cases results with
      | nil => simp
      | cons result results => rw [List.forall₂_cons, List.forall₂_cons, same _ _ pair result, ih]

theorem forall₂_congr_mem {α : Type} {left right : τ → α → Prop} {things : List τ}
    (same : ∀ thing ∈ things, ∀ result, left thing result ↔ right thing result)
    (results : List α) : List.Forall₂ left things results ↔ List.Forall₂ right things results := by
  have pairs : List.Forall₂ (fun first second => first ∈ things ∧ first = second) things things :=
    List.forall₂_same.2 fun thing member => ⟨member, rfl⟩
  refine forall₂_congr ?_ pairs results
  rintro first second ⟨member, equal⟩ result
  rw [same first member, equal]

theorem forall₂_through {first : τ → υ → Prop} {second : υ → α → Prop} (starts : List τ) :
    ∀ ends : List α, List.Forall₂ (fun start stop => ∃ middle, first start middle ∧ second middle stop)
        starts ends ↔
      ∃ middles, List.Forall₂ first starts middles ∧ List.Forall₂ second middles ends := by
  induction starts with
  | nil =>
      intro ends
      simp only [List.forall₂_nil_left_iff, exists_eq_left]
  | cons start starts ih =>
      intro ends
      simp only [List.forall₂_cons_left_iff, ih]
      constructor
      · rintro ⟨stop, others, ⟨middle, toMiddle, toStop⟩, ⟨middles, before, after⟩, same⟩
        exact ⟨middle :: middles, ⟨middle, middles, toMiddle, before, rfl⟩,
          by rw [same]; exact .cons toStop after⟩
      · rintro ⟨_, ⟨middle, middles, toMiddle, before, same⟩, after⟩
        rw [same] at after
        obtain ⟨stop, others, toStop, after, sameEnds⟩ := List.forall₂_cons_left_iff.1 after
        exact ⟨stop, others, ⟨middle, toMiddle, toStop⟩, ⟨middles, before, after⟩, sameEnds⟩

namespace Codec

/-- Codecs whose readers take what is passed over and agree with their decoders. -/
structure Coherent (codec : Codec α) : Prop where
  skips : ∀ depth, Skips (codec.ofText depth)
  agrees : Agree codec.ofText codec.ofValue

theorem Coherent.decode_iff_ofValue {codec : Codec α} (coherent : codec.Coherent) {bytes : Bytes}
    {value : Value} (parsed : Value.ofBytes bytes = .ok value) {result : α} :
    codec.decode bytes = .ok result ↔ codec.ofValue value = .ok result := by
  obtain ⟨rest, read, ended⟩ := readDocument_eq_ok.1 parsed
  rw [← coherent.agrees depthLimit bytes value ⟨rest, read⟩ result, decode_eq_ok]
  constructor
  · rintro ⟨behind, typed, _⟩
    exact ⟨behind, typed⟩
  · rintro ⟨behind, typed⟩
    have same := (coherent.skips depthLimit).rest_unique (skips_readValue depthLimit) typed read
    exact ⟨behind, typed, by rw [same, ended]⟩

theorem coherent_scalar {toValue : α → Value} {visit : Found → Except Fault α}
    (refuses : ∀ found value, visit found = .ok value → found.closing = none) :
    (scalar toValue visit).Coherent where
  skips := by
    intro depth bytes value rest read
    obtain ⟨found, foundRead, accepted⟩ := scalar_ofText_iff.1 read
    exact skipped_scalar foundRead (refuses found value accepted)
  agrees := by
    intro depth text value taken result
    rcases taken with ⟨rest, read⟩
    have found := readFound_of_readValue read
    change _ ↔ visit value.found = .ok result
    constructor
    · rintro ⟨behind, typed⟩
      obtain ⟨other, foundRead, accepted⟩ := scalar_ofText_iff.1 typed
      rw [found.unique ⟨behind, foundRead⟩]
      exact accepted
    · intro accepted
      rcases found with ⟨behind, foundRead⟩
      exact ⟨behind, scalar_ofText_iff.2 ⟨value.found, foundRead, accepted⟩⟩

theorem coherent_ofString (expected : String) (print : α → String)
    (parse : String → Except String α) : (ofString expected print parse).Coherent := by
  refine coherent_scalar ?_
  intro found value accepted
  cases found with
  | list | record => simp [wrongType] at accepted
  | null | boolean | number | text => rfl

theorem ofString_ofValue_iff {expected : String} {print : α → String}
    {parse : String → Except String α} {value : Value} {result : α} :
    (ofString expected print parse).ofValue value = .ok result ↔
      ∃ text, value = .text text ∧ parse text = .ok result := by
  cases value with
  | text text =>
      simp only [ofString, scalar, Value.found, Value.text.injEq, exists_eq_left']
      cases parse text with
      | ok value => simp
      | error reason => simp [refuse]
  | null | boolean | number | list | record => simp [ofString, scalar, Value.found, wrongType]

theorem coherent_natural : natural.Coherent := by
  refine coherent_scalar ?_
  intro found value accepted
  cases found with
  | list | record => simp [wrongType] at accepted
  | null | boolean | number | text => rfl

theorem coherent_nullable {item : Codec α} (coherent : item.Coherent) :
    item.nullable.Coherent where
  skips := by
    intro depth bytes value rest read
    rcases nullable_ofText_iff.1 read with ⟨_, isNull⟩ | ⟨_, held, _, itemRead⟩
    · exact skipped_scalar isNull rfl
    · exact skipped_skipBlanks (coherent.skips depth _ held rest itemRead)
  agrees := by
    intro depth text value taken result
    rcases taken with ⟨rest, read⟩
    have found := readFound_of_readValue read
    have same := coherent.agrees depth (skipBlanks text) value
      ⟨rest, by rw [readValue_skipBlanks, read]⟩
    by_cases isNull : value = .null
    · subst isNull
      change _ ↔ Except.ok none = Except.ok result
      rcases found with ⟨behind, foundRead⟩
      constructor
      · rintro ⟨_, typed⟩
        rcases nullable_ofText_iff.1 typed with ⟨none, _⟩ | ⟨notNull, _⟩
        · rw [none]
        · obtain ⟨tail, shape, _⟩ := readFound_null_iff.1 foundRead
          rw [shape] at notNull
          exact absurd rfl notNull
      · intro none
        exact ⟨behind, nullable_ofText_iff.2 (Or.inl ⟨(Except.ok.inj none).symm, foundRead⟩)⟩
    · have notNull : value.found ≠ .null := by
        intro impossible
        cases value <;> simp [Value.found] at impossible isNull
      have decoded : item.nullable.ofValue value = (item.ofValue value).map some := by
        cases value <;> first | rfl | exact absurd rfl isNull
      rw [decoded, map_eq_ok]
      constructor
      · rintro ⟨behind, typed⟩
        rcases nullable_ofText_iff.1 typed with ⟨_, foundNull⟩ | ⟨_, held, sameHeld, itemRead⟩
        · exact absurd (found.unique ⟨behind, foundNull⟩) notNull
        · have accepted := (same held).1 ⟨behind, itemRead⟩
          exact ⟨held, accepted, sameHeld.symm⟩
      · rintro ⟨held, accepted, sameHeld⟩
        obtain ⟨behind, itemRead⟩ := (same held).2 accepted
        refine ⟨behind, nullable_ofText_iff.2 (Or.inr ⟨?_, held, sameHeld.symm, itemRead⟩)⟩
        intro begins
        rcases found with ⟨_, foundRead⟩
        exact notNull (found_eq_null foundRead begins)

theorem valuesOfItems_eq_ok {item : Codec α} {items : List Value} : ∀ {values : List α},
    valuesOfItems item items = .ok values ↔
      List.Forall₂ (fun value result => item.ofValue value = .ok result) items values := by
  induction items with
  | nil =>
      intro values
      simp [valuesOfItems, eq_comm]
  | cons value items ih =>
      intro values
      simp only [valuesOfItems, bind_eq_ok, List.forall₂_cons_left_iff, ih]
      constructor
      · rintro ⟨result, accepted, results, related, same⟩
        exact ⟨result, results, accepted, related, (Except.ok.inj same).symm⟩
      · rintro ⟨result, results, accepted, related, same⟩
        exact ⟨result, accepted, results, related, by rw [same]⟩

theorem list_ofValue_iff {item : Codec α} {value : Value} {results : List α} :
    item.list.ofValue value = .ok results ↔ ∃ items, value = .list items ∧
      List.Forall₂ (fun value result => item.ofValue value = .ok result) items results := by
  cases value with
  | list items =>
      change valuesOfItems item items = .ok results ↔ _
      simp [valuesOfItems_eq_ok]
  | null | boolean | number | text | record => simp [list, wrongType]

theorem coherent_list {item : Codec α} (coherent : item.Coherent) : item.list.Coherent where
  skips := by
    intro depth bytes values rest read
    obtain ⟨_, texts, _, outline, _⟩ := (list_ofText_iff coherent.skips).1 read
    exact outline.skipped
  agrees := by
    intro depth text value taken results
    rcases taken with ⟨rest, read⟩
    rw [list_ofValue_iff]
    constructor
    · rintro ⟨behind, typed⟩
      obtain ⟨inner, texts, same, outline, taken⟩ := (list_ofText_iff coherent.skips).1 typed
      subst same
      obtain ⟨items, isList, related⟩ := outline.items read
      have accepted := (forall₂_congr (coherent.agrees inner) related results).1 taken
      exact ⟨items, isList, accepted⟩
    · rintro ⟨items, isList, accepted⟩
      subst isList
      obtain ⟨inner, texts, same, outline, related⟩ := readValue_list_iff.1 read
      have taken := (forall₂_congr (coherent.agrees inner) related results).2 accepted
      exact ⟨rest, (list_ofText_iff coherent.skips).2 ⟨inner, texts, same, outline, taken⟩⟩

theorem coherent_refine {base : Codec α} (widen : β → α) (narrow : α → Except String β)
    (coherent : base.Coherent) : (base.refine widen narrow).Coherent where
  skips := by
    intro depth bytes value rest read
    obtain ⟨wide, baseRead, _⟩ := refine_ofText_iff.1 read
    exact coherent.skips depth bytes wide rest baseRead
  agrees := by
    intro depth text value taken result
    rw [refine_ofValue_iff]
    constructor
    · rintro ⟨rest, typed⟩
      obtain ⟨wide, baseRead, narrowed⟩ := refine_ofText_iff.1 typed
      have accepted := (coherent.agrees depth text value taken wide).1 ⟨rest, baseRead⟩
      exact ⟨wide, accepted, narrowed⟩
    · rintro ⟨wide, accepted, narrowed⟩
      obtain ⟨rest, baseRead⟩ := (coherent.agrees depth text value taken wide).2 accepted
      exact ⟨rest, refine_ofText_iff.2 ⟨wide, baseRead, narrowed⟩⟩

theorem coherent_freeForm : freeForm.Coherent where
  skips := by
    intro depth bytes form rest read
    obtain ⟨value, valueRead, _⟩ := freeForm_ofText_iff.1 read
    exact skips_readValue depth bytes value rest valueRead
  agrees := by
    intro depth text value taken result
    change _ ↔ Except.ok (FreeForm.ofValue value) = .ok result
    constructor
    · rintro ⟨rest, typed⟩
      obtain ⟨other, valueRead, same⟩ := freeForm_ofText_iff.1 typed
      rw [taken.unique ⟨rest, valueRead⟩, same]
    · intro same
      rcases taken with ⟨rest, read⟩
      exact ⟨rest, freeForm_ofText_iff.2 ⟨value, read, Except.ok.inj same⟩⟩

theorem coherent_freeRecord : freeRecord.Coherent where
  skips := by
    intro depth bytes form rest read
    obtain ⟨members, valueRead, _⟩ := freeRecord_ofText_iff.1 read
    exact skips_readValue depth bytes _ rest valueRead
  agrees := by
    intro depth text value taken result
    cases value with
    | record members =>
        change _ ↔ Except.ok (FreeRecord.ofMembers members) = .ok result
        constructor
        · rintro ⟨rest, typed⟩
          obtain ⟨others, valueRead, same⟩ := freeRecord_ofText_iff.1 typed
          rw [← same, Value.record.inj (taken.unique ⟨rest, valueRead⟩)]
        · intro same
          rcases taken with ⟨rest, read⟩
          exact ⟨rest, freeRecord_ofText_iff.2 ⟨members, read, Except.ok.inj same⟩⟩
    | null | boolean | number | text | list =>
        constructor
        · rintro ⟨rest, typed⟩
          obtain ⟨others, valueRead, _⟩ := freeRecord_ofText_iff.1 typed
          exact Value.noConfusion (taken.unique ⟨rest, valueRead⟩)
        · intro accepted
          simp [freeRecord, wrongType] at accepted

end Codec

namespace Fields

def Agrees (fields : Fields α) : Prop :=
  ∀ depth outline members, List.Forall₂ (UnderKey (Takes (readValue depth))) outline members →
    ∀ record, fields.collect (fields.placeTaken depth) outline = .ok record ↔
      fields.collect fields.placeValue members = .ok record

theorem atMostOne_congr {take : τ → Except Fault α} {other : υ → Except Fault α}
    {missing : Except Fault α} {record : α} {related : τ → υ → Prop}
    (same : ∀ text value, related text value → (take text = .ok record ↔ other value = .ok record))
    {texts : List τ} {values : List υ} (pairs : List.Forall₂ related texts values) :
    AtMostOne take missing record texts ↔ AtMostOne other missing record values := by
  cases pairs with
  | nil => exact Iff.rfl
  | cons pair more =>
      cases more with
      | nil => exact same _ _ pair
      | cons _ _ => exact Iff.rfl

theorem taken_eq_ok {reader : Reader α} {text : Bytes} {value : α} :
    (reader text).map Prod.fst = .ok value ↔ Takes reader text value := by
  simp only [map_eq_ok, Takes, Prod.exists, exists_and_right, exists_eq_right]

theorem collect_required {key : String} {codec : Codec α} {depth : Nat}
    {entries : List (String × Bytes)} {value : α} :
    (required key codec).collect ((required key codec).placeTaken depth) entries = .ok value ↔
      Under key entries (Takes (codec.ofText depth) · value) := by
  rw [required, placeTaken_single, collect_single, Under]
  cases valuesAt key entries with
  | nil => simp [AtMostOne]
  | cons place others =>
      cases others with
      | nil => simp [AtMostOne, taken_eq_ok]
      | cons second more => simp [AtMostOne]

theorem ofMembers_required {key : String} {codec : Codec α} {members : Members} {value : α} :
    (required key codec).ofMembers members = .ok value ↔
      Under key members (codec.ofValue · = .ok value) := by
  rw [ofMembers_eq, required, placeValue_single, collect_single, Under]
  cases valuesAt key members with
  | nil => simp [AtMostOne]
  | cons place others =>
      cases others with
      | nil => simp [AtMostOne]
      | cons second more => simp [AtMostOne]

theorem ofMembers_both {left : Fields α} {right : Fields β} (apart : Apart left right)
    {members : Members} {record : α × β} :
    (both left right).ofMembers members = .ok record ↔
      left.ofMembers members = .ok record.1 ∧ right.ofMembers members = .ok record.2 := by
  rw [ofMembers_eq, placeValue_both, collect_both apart, ofMembers_eq, ofMembers_eq]

theorem ofMembers_as (fields : Fields α) (make : α → β) (parts : β → α) (members : Members) :
    (fields.as make parts).ofMembers members = (fields.ofMembers members).map make :=
  collect_as fields make parts fields.placeValue members

theorem collect_placeTaken_both {left : Fields α} {right : Fields β} (apart : Apart left right)
    {depth : Nat} {entries : List (String × Bytes)} {record : α × β} :
    (both left right).collect ((both left right).placeTaken depth) entries = .ok record ↔
      left.collect (left.placeTaken depth) entries = .ok record.1 ∧
        right.collect (right.placeTaken depth) entries = .ok record.2 := by
  rw [placeTaken_both, collect_both apart]

theorem collect_placeTaken_as {fields : Fields α} {make : α → β} {parts : β → α}
    (whole : ∀ held, parts (make held) = held) (back : ∀ record, make (parts record) = record)
    {depth : Nat} {entries : List (String × Bytes)} {record : β} :
    (fields.as make parts).collect ((fields.as make parts).placeTaken depth) entries = .ok record ↔
      fields.collect (fields.placeTaken depth) entries = .ok (parts record) := by
  change (fields.as make parts).collect (fields.placeTaken depth) entries = .ok record ↔ _
  rw [collect_as, map_eq_ok]
  constructor
  · rintro ⟨held, collected, rfl⟩
    rw [whole, collected]
  · intro collected
    exact ⟨parts record, collected, back record⟩

theorem agrees_single {key : String} {codec : Codec α} {optional : Bool}
    {missing : Except Fault α} {members : α → Members} (agrees : Agree codec.ofText codec.ofValue) :
    (single key codec optional missing members).Agrees := by
  intro depth outline entries related record
  rw [placeTaken_single, placeValue_single, collect_single, collect_single]
  refine atMostOne_congr ?_ (valuesAt_related related key)
  intro text value taken
  rw [taken_eq_ok]
  exact agrees depth text value taken record

theorem agrees_both {left : Fields α} {right : Fields β} (apart : Apart left right)
    (leftAgrees : left.Agrees) (rightAgrees : right.Agrees) : (both left right).Agrees := by
  intro depth outline entries related record
  rw [placeTaken_both, placeValue_both, collect_both apart, collect_both apart,
    leftAgrees depth outline entries related, rightAgrees depth outline entries related]

theorem agrees_as {fields : Fields α} (make : α → β) (parts : β → α) (agrees : fields.Agrees) :
    (fields.as make parts).Agrees := by
  intro depth outline entries related record
  have text := collect_as fields make parts (fields.placeTaken depth) outline
  have value := collect_as fields make parts fields.placeValue entries
  change (fields.as make parts).collect (fields.placeTaken depth) outline = .ok record ↔
    (fields.as make parts).collect fields.placeValue entries = .ok record
  rw [text, value, map_eq_ok, map_eq_ok]
  simp only [agrees depth outline entries related]

theorem zip_related {related : τ → υ → Prop} {texts : List τ} {values : List υ}
    (pairs : List.Forall₂ related texts values) : ∀ keys : List String,
    List.Forall₂ (UnderKey related) (keys.zip texts) (keys.zip values) := by
  induction pairs with
  | nil => simp
  | cons pair _ ih =>
      intro keys
      cases keys with
      | nil => simp
      | cons key keys => exact .cons ⟨rfl, pair⟩ (ih keys)

theorem ordered_related {fields : Fields α} {related : τ → υ → Prop} {texts : List τ}
    {values : List υ} (pairs : List.Forall₂ related texts values) {entries : List (String × τ)}
    (ordered : fields.Ordered texts entries) :
    ∃ members, fields.Ordered values members ∧
      List.Forall₂ (UnderKey related) entries members := by
  refine ⟨_, ⟨by rw [← pairs.length_eq]; exact ordered.1, rfl⟩, ?_⟩
  rw [ordered.2]
  exact zip_related pairs _

end Fields

theorem Codec.coherent_record {expected : String} {fields : Fields α} (sound : fields.Sound)
    (agrees : fields.Agrees) : (Codec.record expected fields).Coherent where
  skips := by
    intro depth bytes record rest read
    obtain ⟨_, entries, _, offers, _⟩ := (record_ofText_iff sound).1 read
    rcases offers with outline | ⟨texts, outline, _⟩
    · exact outline.skipped
    · exact outline.skipped
  agrees := by
    intro depth text value taken record
    rcases taken with ⟨rest, read⟩
    rw [record_ofValue_iff sound]
    constructor
    · rintro ⟨behind, typed⟩
      obtain ⟨inner, entries, same, offers, collected⟩ := (record_ofText_iff sound).1 typed
      subst same
      rcases offers with outline | ⟨texts, outline, ordered⟩
      · obtain ⟨members, isRecord, related⟩ := outline.members read
        have made := (agrees inner entries members related record).1 collected
        exact ⟨members, Or.inl isRecord, made⟩
      · obtain ⟨items, isList, related⟩ := outline.items read
        obtain ⟨members, ordered', related'⟩ := Fields.ordered_related related ordered
        have made := (agrees inner entries members related' record).1 collected
        exact ⟨members, Or.inr ⟨items, isList, ordered'⟩, made⟩
    · rintro ⟨members, holds | ⟨items, holds, ordered⟩, collected⟩
      · subst holds
        obtain ⟨inner, outline, same, valueOutline, related⟩ := readValue_record_iff.1 read
        have taken := (agrees inner outline members related record).2 collected
        exact ⟨rest, (record_ofText_iff sound).2 ⟨inner, outline, same, Or.inl valueOutline, taken⟩⟩
      · subst holds
        obtain ⟨inner, texts, same, valueOutline, related⟩ := readValue_list_iff.1 read
        have ordered' : fields.Ordered texts ((fields.keys.map Prod.fst).zip texts) :=
          ⟨by rw [related.length_eq]; exact ordered.1, rfl⟩
        obtain ⟨members', sameItems, related'⟩ := Fields.ordered_related related ordered'
        have sameMembers : members' = members := by rw [sameItems.2, ordered.2]
        rw [sameMembers] at related'
        have taken := (agrees inner _ members related' record).2 collected
        have offers : fields.Offers text _ rest := Or.inr ⟨texts, valueOutline, ordered'⟩
        exact ⟨rest, (record_ofText_iff sound).2 ⟨inner, _, same, offers, taken⟩⟩

namespace Arm

structure Coherent (arm : Arm α) : Prop where
  skips : ∀ depth, Skips (arm.contentOfText depth)
  agrees : Agree arm.contentOfText arm.contentOfValue

theorem coherent_plain (name : String) (value : α) : (plain name value).Coherent where
  skips := by
    intro depth bytes result rest read
    obtain ⟨⟨found, after⟩, foundRead, later⟩ := bind_eq_ok.1 read
    cases found with
    | null =>
        rw [← (ok_pair_inj later).2]
        exact skipped_scalar foundRead rfl
    | boolean | number | text | list | record => simp [wrongType] at later
  agrees := by
    intro depth text content taken result
    rcases taken with ⟨rest, read⟩
    obtain ⟨behind, foundRead⟩ := readFound_of_readValue read
    simp only [Takes, plain, foundRead, ok_bind]
    cases content with
    | null => simp [Value.found]
    | boolean | number | text | list | record => simp [Value.found, wrongType]

theorem holding_ofText_iff {name : String} {codec : Codec β} {make : β → α} {depth : Nat}
    {text rest : Bytes} {result : α} :
    (holding name codec make).contentOfText depth text = .ok (result, rest) ↔
      ∃ held, codec.ofText depth text = .ok (held, rest) ∧ make held = result := by
  simp only [holding, bind_eq_ok, Prod.exists]
  constructor
  · rintro ⟨held, after, read, same⟩
    obtain ⟨sameResult, sameRest⟩ := ok_pair_inj same
    rw [← sameRest]
    exact ⟨held, read, sameResult⟩
  · rintro ⟨held, read, same⟩
    exact ⟨held, rest, read, by rw [same]⟩

theorem coherent_holding (name : String) {codec : Codec β} (make : β → α)
    (coherent : codec.Coherent) : (holding name codec make).Coherent where
  skips := by
    intro depth bytes result rest read
    obtain ⟨held, codecRead, _⟩ := holding_ofText_iff.1 read
    exact coherent.skips depth bytes held rest codecRead
  agrees := by
    intro depth text content taken result
    change _ ↔ (codec.ofValue content).map make = .ok result
    rw [map_eq_ok]
    constructor
    · rintro ⟨rest, typed⟩
      obtain ⟨held, codecRead, same⟩ := holding_ofText_iff.1 typed
      have accepted := (coherent.agrees depth text content taken held).1 ⟨rest, codecRead⟩
      exact ⟨held, accepted, same⟩
    · rintro ⟨held, accepted, same⟩
      obtain ⟨rest, codecRead⟩ := (coherent.agrees depth text content taken held).2 accepted
      exact ⟨rest, holding_ofText_iff.2 ⟨held, codecRead, same⟩⟩

theorem withMembers_ofText_iff {name expected : String} {fields : Fields β} (sound : fields.Sound)
    {make : β → α} {depth : Nat} {text rest : Bytes} {result : α} :
    (withMembers name expected fields make).contentOfText depth text = .ok (result, rest) ↔
      ∃ inner outline held, depth = inner + 1 ∧ RecordOutline text outline rest ∧
        fields.collect (fields.placeTaken inner) outline = .ok held ∧ make held = result := by
  simp only [withMembers, bind_eq_ok, Prod.exists, RecordOutline]
  constructor
  · rintro ⟨found, inside, read, later⟩
    split at later
    · simp at later
    · rename_i inner
      obtain ⟨⟨held, after⟩, loop, same⟩ := bind_eq_ok.1 later
      obtain ⟨outline, entries, collected⟩ := (Fields.readMembers_iff sound).1 loop
      obtain ⟨sameResult, sameRest⟩ := ok_pair_inj same
      rw [← sameRest]
      exact ⟨inner, outline, held, rfl, ⟨inside, read, entries⟩, collected, sameResult⟩
    · simp [wrongType] at later
  · rintro ⟨inner, outline, held, same, ⟨inside, read, entries⟩, collected, sameResult⟩
    subst same
    have loop := (Fields.readMembers_iff sound).2 ⟨outline, entries, collected⟩
    refine ⟨.record, inside, read, ?_⟩
    simp only [loop, ok_bind, sameResult]

theorem withMembers_ofValue_iff {name expected : String} {fields : Fields β} {make : β → α}
    {content : Value} {result : α} :
    (withMembers name expected fields make).contentOfValue content = .ok result ↔
      ∃ members held, content = .record members ∧
        fields.collect fields.placeValue members = .ok held ∧ make held = result := by
  cases content with
  | record members =>
      change (fields.collect fields.placeValue members).map make = .ok result ↔ _
      simp [map_eq_ok]
  | null | boolean | number | text | list => simp [withMembers, wrongType]

theorem coherent_withMembers (name expected : String) {fields : Fields β} (make : β → α)
    (sound : fields.Sound) (agrees : fields.Agrees) :
    (withMembers name expected fields make).Coherent where
  skips := by
    intro depth bytes result rest read
    obtain ⟨_, outline, _, _, found, _⟩ := (withMembers_ofText_iff sound).1 read
    exact found.skipped
  agrees := by
    intro depth text content taken result
    rcases taken with ⟨rest, read⟩
    rw [withMembers_ofValue_iff]
    constructor
    · rintro ⟨behind, typed⟩
      obtain ⟨inner, outline, held, same, found, collected, sameResult⟩ :=
        (withMembers_ofText_iff sound).1 typed
      subst same
      obtain ⟨members, isRecord, related⟩ := found.members read
      have made := (agrees inner outline members related held).1 collected
      exact ⟨members, held, isRecord, made, sameResult⟩
    · rintro ⟨members, held, isRecord, collected, sameResult⟩
      subst isRecord
      obtain ⟨inner, outline, same, found, related⟩ := readValue_record_iff.1 read
      have taken := (agrees inner outline members related held).2 collected
      exact ⟨rest, (withMembers_ofText_iff sound).2
        ⟨inner, outline, held, same, found, taken, sameResult⟩⟩

theorem skips_withFields (name expected : String) {fields : Fields β} (make : β → α)
    (coherent : (Codec.record expected fields).Coherent) (depth : Nat) :
    Skips ((withFields name expected fields make).contentOfText depth) := by
  intro bytes result rest read
  obtain ⟨⟨held, after⟩, recordRead, same⟩ := bind_eq_ok.1 read
  rw [← (ok_pair_inj same).2]
  exact coherent.skips depth bytes held after recordRead

end Arm

namespace Codec

theorem union_ofValue_iff {toValue : α → Value} {arms : List (Arm α)} {value : Value}
    {result : α} :
    (Codec.union toValue arms).ofValue value = .ok result ↔
      (∃ name arm, value = .text name ∧ Arm.named arms name = .ok arm ∧ arm.alone = .ok result) ∨
      ∃ name content arm, value = .record [(name, content)] ∧ Arm.named arms name = .ok arm ∧
        arm.contentOfValue content = .ok result := by
  cases value with
  | text name => simp [Codec.union, bind_eq_ok]
  | record members =>
      cases members with
      | nil => simp [Codec.union]
      | cons member members =>
          rcases member with ⟨name, content⟩
          cases members with
          | nil =>
              simp only [Codec.union, bind_eq_ok]
              constructor
              · rintro ⟨arm, named, accepted⟩
                exact Or.inr ⟨name, content, arm, rfl, named, accepted⟩
              · rintro (⟨_, _, impossible, _⟩ | ⟨_, _, arm, same, named, accepted⟩)
                · exact Value.noConfusion impossible
                · simp only [Value.record.injEq, List.cons.injEq, Prod.mk.injEq, and_true] at same
                  rw [← same.1] at named
                  rw [← same.2] at accepted
                  exact ⟨arm, named, accepted⟩
          | cons second more => simp [Codec.union]
  | null | boolean | number | list => simp [Codec.union, wrongType]

theorem coherent_union {toValue : α → Value} {arms : List (Arm α)}
    (coherent : ∀ arm ∈ arms, arm.Coherent) : (Codec.union toValue arms).Coherent where
  skips := by
    intro depth bytes value rest read
    rcases (union_ofText_iff fun arm member => (coherent arm member).skips).1 read with
      ⟨_, _, found, _⟩ | ⟨_, _, _, _, _, outline, _⟩
    · exact skipped_scalar found rfl
    · exact outline.skipped
  agrees := by
    intro depth text value taken result
    rcases taken with ⟨rest, read⟩
    have found := readFound_of_readValue read
    have skips := fun arm member => (coherent arm member).skips
    rw [union_ofValue_iff]
    constructor
    · rintro ⟨behind, typed⟩
      rcases (union_ofText_iff skips).1 typed with ⟨name, arm, foundText, named, alone⟩ |
        ⟨inner, name, content, arm, same, outline, named, contentTaken⟩
      · have isText := found.unique ⟨behind, foundText⟩
        cases value with
        | text other =>
            simp only [Value.found, Found.text.injEq] at isText
            exact Or.inl ⟨name, arm, by rw [isText], named, alone⟩
        | null | boolean | number | list | record => simp [Value.found] at isText
      · subst same
        obtain ⟨content', isRecord, contentValue⟩ := outline.oneMember read
        have armCoherent := coherent arm (Arm.mem_of_named named)
        have accepted := (armCoherent.agrees inner content content' contentValue result).1 contentTaken
        exact Or.inr ⟨name, content', arm, isRecord, named, accepted⟩
    · rintro (⟨name, arm, same, named, alone⟩ | ⟨name, content, arm, same, named, accepted⟩)
      · subst same
        rcases found with ⟨behind, foundText⟩
        exact ⟨behind, (union_ofText_iff skips).2 (Or.inl ⟨name, arm, foundText, named, alone⟩)⟩
      · subst same
        obtain ⟨inner, place, same, outline, contentValue⟩ := readValue_oneMember_iff.1 read
        have armCoherent := coherent arm (Arm.mem_of_named named)
        have contentTaken := (armCoherent.agrees inner place content contentValue result).2 accepted
        exact ⟨rest, (union_ofText_iff skips).2
          (Or.inr ⟨inner, name, place, arm, same, outline, named, contentTaken⟩)⟩

theorem coherent_names (name : α → String) (values : List α) : (names name values).Coherent := by
  refine coherent_union ?_
  intro arm member
  obtain ⟨value, _, same⟩ := List.mem_map.1 member
  rw [← same]
  exact Arm.coherent_plain (name value) value

end Codec
end LedgerWire.Json

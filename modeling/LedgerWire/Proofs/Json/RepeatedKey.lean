import LedgerWire.Proofs.Json.Agreement

/-!
Records in a text that have a known key twice. A record type is read from none of them, and so no
type is whose records are all read as such.
-/

namespace LedgerWire.Json

variable {α β : Type}

/-- Where a type has records: their fields with their keys, and the items of lists. -/
inductive Shape
  | record (fields : List (String × Shape))
  | list (item : Shape)
  | other

def EntriesOf (keys : List String) (text : Bytes) (entries : List (String × Bytes)) : Prop :=
  (∃ rest, RecordOutline text entries rest) ∨
    ∃ texts rest, ListOutline text texts rest ∧ entries = keys.zip texts

/-- A record of the text that stands where the type has one has a key of the type twice. -/
inductive RepeatsKey : Shape → Bytes → Prop
  | here {fields : List (String × Shape)} {text rest : Bytes} {outline : List (String × Bytes)}
      {key : String} (found : RecordOutline text outline rest) (known : key ∈ fields.map Prod.fst)
      (twice : 2 ≤ (valuesAt key outline).length) : RepeatsKey (.record fields) text
  | inField {fields : List (String × Shape)} {text place : Bytes} {entries : List (String × Bytes)}
      {field : String × Shape} (found : EntriesOf (fields.map Prod.fst) text entries)
      (known : field ∈ fields) (inside : (field.1, place) ∈ entries)
      (repeats : RepeatsKey field.2 place) : RepeatsKey (.record fields) text
  | inItem {item : Shape} {text rest place : Bytes} {texts : List Bytes}
      (found : ListOutline text texts rest) (inside : place ∈ texts)
      (repeats : RepeatsKey item place) : RepeatsKey (.list item) text

theorem RecordOutline.begins {text rest : Bytes} {outline : List (String × Bytes)}
    (found : RecordOutline text outline rest) : Takes readFound text .record :=
  found.elim fun inside both => ⟨inside, both.1⟩

theorem ListOutline.begins {text rest : Bytes} {texts : List Bytes}
    (found : ListOutline text texts rest) : Takes readFound text .list :=
  found.elim fun inside both => ⟨inside, both.1⟩

theorem RepeatsKey.begins {shape : Shape} {text : Bytes} (repeats : RepeatsKey shape text) :
    Takes readFound text .record ∨ Takes readFound text .list := by
  cases repeats with
  | here found => exact Or.inl found.begins
  | inField found =>
      rcases found with ⟨_, record⟩ | ⟨_, _, list, _⟩
      · exact Or.inl record.begins
      · exact Or.inr list.begins
  | inItem found => exact Or.inr found.begins

theorem RepeatsKey.afterBlanks {shape : Shape} {text : Bytes} (repeats : RepeatsKey shape text) :
    RepeatsKey shape (skipBlanks text) := by
  have sameRecord : RecordOutline (skipBlanks text) = RecordOutline text := by
    unfold RecordOutline
    rw [readFound_skipBlanks]
  have sameList : ListOutline (skipBlanks text) = ListOutline text := by
    unfold ListOutline
    rw [readFound_skipBlanks]
  cases repeats with
  | here found known twice => exact .here (by rw [sameRecord]; exact found) known twice
  | inField found known inside repeats =>
      exact .inField (by rw [EntriesOf, sameRecord, sameList]; exact found) known inside repeats
  | inItem found inside repeats => exact .inItem (by rw [sameList]; exact found) inside repeats

/-! Texts of a value, whose records have the keys that those of the value have. -/

def Value.Repeats (value : Value) (shape : Shape) : Prop :=
  ∀ depth text, Takes (readValue depth) text value → RepeatsKey shape text

theorem Value.Repeats.here {fields : List (String × Shape)} {members : Members} (key : String)
    (known : key ∈ fields.map Prod.fst) (twice : 2 ≤ (valuesAt key members).length) :
    (Value.record members).Repeats (.record fields) := by
  rintro depth text ⟨rest, read⟩
  obtain ⟨inner, outline, _, found, related⟩ := readValue_record_iff.1 read
  rw [← (valuesAt_related related key).length_eq] at twice
  exact .here found known twice

theorem Value.Repeats.inField {fields : List (String × Shape)} {members : Members} {value : Value}
    (key : String) (shape : Shape) (known : (key, shape) ∈ fields) (inside : (key, value) ∈ members)
    (repeats : value.Repeats shape) : (Value.record members).Repeats (.record fields) := by
  rintro depth text ⟨rest, read⟩
  obtain ⟨inner, outline, _, found, related⟩ := readValue_record_iff.1 read
  obtain ⟨⟨_, place⟩, placed, sameKey, taken⟩ := forall₂_left related inside
  dsimp only at sameKey taken
  rw [sameKey] at placed
  exact .inField (Or.inl ⟨rest, found⟩) known placed (repeats inner place taken)

theorem Value.Repeats.inItem {item : Shape} {items : List Value} {value : Value}
    (inside : value ∈ items) (repeats : value.Repeats item) :
    (Value.list items).Repeats (.list item) := by
  rintro depth text ⟨rest, read⟩
  obtain ⟨inner, texts, _, found, related⟩ := readValue_list_iff.1 read
  obtain ⟨place, placed, taken⟩ := forall₂_left related inside
  exact .inItem found placed (repeats inner place taken)

namespace Codec

def Guards (codec : Codec α) (shape : Shape) : Prop :=
  ∀ depth text value, Takes (codec.ofText depth) text value → ¬ RepeatsKey shape text

theorem Guards.decode_ne {codec : Codec α} {shape : Shape} (guards : codec.Guards shape)
    {bytes : Bytes} (repeats : RepeatsKey shape bytes) (value : α) :
    codec.decode bytes ≠ .ok value := by
  intro decoded
  obtain ⟨rest, read, _⟩ := decode_eq_ok.1 decoded
  exact guards depthLimit bytes value ⟨rest, read⟩ repeats

theorem Guards.other {codec : Codec α} : codec.Guards .other := by
  intro depth text value _ repeats
  cases repeats

theorem Guards.nullable {item : Codec α} {shape : Shape} (guards : item.Guards shape) :
    item.nullable.Guards shape := by
  rintro depth text value ⟨rest, read⟩ repeats
  rcases nullable_ofText_iff.1 read with ⟨_, isNull⟩ | ⟨_, held, _, itemRead⟩
  · rcases repeats.begins with isRecord | isList
    · exact Found.noConfusion (isRecord.unique ⟨rest, isNull⟩)
    · exact Found.noConfusion (isList.unique ⟨rest, isNull⟩)
  · exact guards depth _ held ⟨rest, itemRead⟩ repeats.afterBlanks

theorem Guards.list {item : Codec α} {shape : Shape} (skips : ∀ depth, Skips (item.ofText depth))
    (guards : item.Guards shape) : item.list.Guards (.list shape) := by
  rintro depth text values ⟨rest, read⟩ repeats
  obtain ⟨inner, texts, _, outline, taken⟩ := (list_ofText_iff skips).1 read
  cases repeats with
  | inItem found inside repeats =>
      rw [← outline.unique found] at inside
      obtain ⟨value, _, itemTaken⟩ := forall₂_left taken.flip inside
      exact guards inner _ value itemTaken repeats

theorem Guards.refine {base : Codec α} {widen : β → α} {narrow : α → Except String β}
    {shape : Shape} (guards : base.Guards shape) : (base.refine widen narrow).Guards shape := by
  rintro depth text value ⟨rest, read⟩
  obtain ⟨wide, baseRead, _⟩ := refine_ofText_iff.1 read
  exact guards depth text wide ⟨rest, baseRead⟩

end Codec

namespace Fields

/-- The fields of a record type, where it is given what each of them holds. -/
def shapes (fields : Fields α) (inside : List Shape) : List (String × Shape) :=
  (fields.keys.map Prod.fst).zip inside

def shape (fields : Fields α) (inside : List Shape) : Shape := .record (fields.shapes inside)

structure Guards (fields : Fields α) (inside : List Shape) : Prop where
  sameLength : fields.keys.length = inside.length
  clear : ∀ depth outline record, fields.collect (fields.placeTaken depth) outline = .ok record →
    ∀ field ∈ fields.shapes inside, ∀ place ∈ valuesAt field.1 outline, ¬ RepeatsKey field.2 place

theorem Guards.sameKeys {fields : Fields α} {inside : List Shape} (guards : fields.Guards inside) :
    (fields.shapes inside).map Prod.fst = fields.keys.map Prod.fst :=
  List.map_fst_zip (by rw [List.length_map]; exact Nat.le_of_eq guards.sameLength)

theorem Guards.others {fields : Fields α} :
    fields.Guards (List.replicate fields.keys.length .other) where
  sameLength := List.length_replicate.symm
  clear := by
    intro depth outline record _ field isField place _ repeats
    have other : field.2 = .other := List.eq_of_mem_replicate (List.of_mem_zip isField).2
    rw [other] at repeats
    cases repeats

theorem Guards.single {key : String} {codec : Codec α} {optional : Bool}
    {missing : Except Fault α} {members : α → Members} {shape : Shape}
    (guards : codec.Guards shape) :
    (Fields.single key codec optional missing members).Guards [shape] where
  sameLength := rfl
  clear := by
    intro depth outline record collected field isField place member
    rw [List.mem_singleton.1 isField] at member ⊢
    rw [placeTaken_single, collect_single] at collected
    cases under : valuesAt key outline with
    | nil =>
        rw [under] at member
        exact absurd member List.not_mem_nil
    | cons text others =>
        rw [under] at member collected
        cases others with
        | nil =>
            rw [AtMostOne, taken_eq_ok] at collected
            rw [List.mem_singleton.1 member]
            exact guards depth text record collected
        | cons second more => exact collected.elim

theorem shapes_both {left : Fields α} {right : Fields β} {shape : Shape} {inside : List Shape}
    (single : left.keys.length = 1) :
    (Fields.both left right).shapes (shape :: inside) = left.shapes [shape] ++ right.shapes inside := by
  rw [shapes, Fields.both, List.map_append, ← List.singleton_append, List.zip_append]
  · rfl
  · rw [List.length_map, single, List.length_singleton]

theorem Guards.cons {left : Fields α} {right : Fields β} {shape : Shape} {inside : List Shape}
    (apart : Apart left right) (first : left.Guards [shape]) (later : right.Guards inside) :
    (Fields.both left right).Guards (shape :: inside) where
  sameLength := by
    rw [Fields.both, List.length_append, first.sameLength, later.sameLength]
    exact Nat.add_comm 1 inside.length
  clear := by
    intro depth outline record collected known isKnown
    rw [placeTaken_both, collect_both apart] at collected
    rw [shapes_both first.sameLength] at isKnown
    rcases List.mem_append.1 isKnown with isFirst | isLater
    · exact first.clear depth outline record.1 collected.1 known isFirst
    · exact later.clear depth outline record.2 collected.2 known isLater

theorem Guards.as {fields : Fields α} {make : α → β} {parts : β → α} {inside : List Shape}
    (guards : fields.Guards inside) : (fields.as make parts).Guards inside where
  sameLength := guards.sameLength
  clear := by
    intro depth outline record collected
    change (fields.as make parts).collect (fields.placeTaken depth) outline = .ok record at collected
    rw [collect_as fields make parts, map_eq_ok] at collected
    rcases collected with ⟨inner, innerCollected, _⟩
    exact guards.clear depth outline inner innerCollected

end Fields

theorem Fields.Offers.unique {fields : Fields α} {text rest : Bytes}
    {entries others : List (String × Bytes)} (offers : fields.Offers text entries rest)
    (found : EntriesOf (fields.keys.map Prod.fst) text others) : entries = others := by
  rcases offers with record | ⟨texts, list, ordered⟩
  · rcases found with ⟨_, record'⟩ | ⟨_, _, list', _⟩
    · exact record.unique record'
    · exact absurd record list'.notRecord
  · rcases found with ⟨_, record'⟩ | ⟨_, _, list', same⟩
    · exact absurd record' list.notRecord
    · rw [ordered.2, same, list.unique list']

theorem Codec.Guards.record {expected : String} {fields : Fields α} {inside : List Shape}
    (sound : fields.Sound) (guards : fields.Guards inside) :
    (Codec.record expected fields).Guards (fields.shape inside) := by
  rintro depth text record ⟨rest, read⟩ repeats
  obtain ⟨inner, entries, _, offers, collected⟩ := (record_ofText_iff sound).1 read
  cases repeats with
  | here found known twice =>
      rw [guards.sameKeys] at known
      rw [← offers.unique (Or.inl ⟨_, found⟩)] at twice
      have once := Fields.valuesAt_collect sound (sound.fillsText inner) collected
        (Fields.isKey_iff.2 known)
      omega
  | inField found known inside repeats =>
      rw [guards.sameKeys] at found
      rw [← offers.unique found] at inside
      exact guards.clear inner entries record collected _ known _ (mem_valuesAt.2 inside) repeats

end LedgerWire.Json

import LedgerWire.Proofs.Json.Grammar
import LedgerWire.Proofs.Json.Agreement

/-!
Values are read alike wherever they stand: neither the blanks before a complete value nor what
follows it has a part in what a codec makes of it.
-/

namespace LedgerWire.Json

variable {α β : Type}

/-- A text from here on, with blanks before it and something after it that does not go on with it. -/
def Stands (text place : Bytes) : Prop :=
  ∃ gap rest, place = gap ++ (text ++ rest) ∧ Blank gap ∧ Delimits rest

def Alike (left right : Bytes) : Prop := ∃ text, ValueText text ∧ Stands text left ∧ Stands text right

/-- A reader that makes the same of a value wherever it stands. -/
def Portable (reader : Reader α) : Prop :=
  ∀ left right, Alike left right → ∀ value, Takes reader left value ↔ Takes reader right value

theorem Alike.symm {left right : Bytes} (alike : Alike left right) : Alike right left := by
  obtain ⟨text, value, stands, standsToo⟩ := alike
  exact ⟨text, value, standsToo, stands⟩

theorem portable_of {reader : Reader α} (moves : ∀ left right value, Alike left right →
    Takes reader left value → Takes reader right value) : Portable reader :=
  fun left right alike value => ⟨moves left right value alike, moves right left value alike.symm⟩

theorem readFound_blank {gap : Bytes} (blank : Blank gap) (rest : Bytes) :
    readFound (gap ++ rest) = readFound rest := by
  rw [← readFound_skipBlanks, skipBlanks_blank blank, readFound_skipBlanks]

/-! What is found at a value. -/

theorem readFound_moved {text rest after : Bytes} {found : Found} (value : ValueText text)
    (stops : Delimits rest) (read : readFound (text ++ rest) = .ok (found, after)) {other : Bytes}
    (stopsToo : Delimits other) : Takes readFound (text ++ other) found := by
  cases value with
  | word known =>
      simp only [List.mem_cons, List.not_mem_nil, or_false] at known
      rcases known with rfl | rfl | rfl
      all_goals exact ⟨other, by rw [← (ok_pair_inj read).1]; rfl⟩
  | @number text literal written =>
      obtain ⟨byte, tail, rfl, numeric⟩ := written.begins
      have here := readLiteral_text written stops
      have there := readLiteral_text written stopsToo
      rw [List.cons_append] at read here there ⊢
      simp only [readFound_numeric numeric, readNumber, here, ok_bind] at read
      refine ⟨other, ?_⟩
      rw [readFound_numeric numeric, readNumber, there, ok_bind]
      dsimp only at read ⊢
      cases kept : literal.number? with
      | none => simp [kept] at read
      | some number =>
          simp only [kept, ok_map] at read
          rw [← (ok_pair_inj read).1]
          rfl
  | string quoted =>
      obtain ⟨body, rfl, loose⟩ := quoted
      rw [List.cons_append, List.append_assoc] at read
      obtain ⟨⟨content, behind⟩, contentRead, same⟩ := map_eq_ok.1 ((readFound_quote _).symm.trans read)
      obtain ⟨_, moved⟩ := readString_moved loose contentRead
      refine ⟨other, ?_⟩
      rw [List.cons_append, List.append_assoc, readFound_quote]
      have whole : readString (body ++ ([quote] ++ other)) = .ok (content, other) := moved other
      rw [whole, ← (Prod.mk.inj same).1]
      rfl
  | list each sequence =>
      rw [List.cons_append, readFound_openList] at read
      rw [← (ok_pair_inj read).1]
      exact ⟨_, readFound_openList _⟩
  | record keys values sequence =>
      rw [List.cons_append, readFound_openRecord] at read
      rw [← (ok_pair_inj read).1]
      exact ⟨_, readFound_openRecord _⟩

theorem portable_readFound : Portable readFound := by
  refine portable_of ?_
  rintro left right found ⟨text, value, ⟨gap, rest, rfl, blank, stops⟩,
    ⟨gap', rest', rfl, blankToo, stopsToo⟩⟩ ⟨after, read⟩
  rw [readFound_blank blank] at read
  obtain ⟨behind, moved⟩ := readFound_moved value stops read stopsToo
  exact ⟨behind, by rw [readFound_blank blankToo, moved]⟩

/-! The outlines of a value at two places. -/

theorem alike_following {text rest other : Bytes} (value : ValueText text) (stops : Delimits rest)
    (stopsToo : Delimits other) : Alike (text ++ rest) (text ++ other) := by
  exact ⟨text, value, ⟨[], rest, rfl, blank_nil, stops⟩, ⟨[], other, rfl, blank_nil, stopsToo⟩⟩

theorem moves_passOver {item : Bytes} (value : ValueText item) : Moves passOver Alike item := by
  intro behind other place after stops stopsToo passed
  obtain ⟨skipped, rfl⟩ := passOver_eq_ok.1 passed
  have whole := skipped_iff.1 (value.skipped stops)
  rw [skipped] at whole
  exact ⟨(ok_pair_inj whole).2, _, passOver_eq_ok.2 ⟨skipped_iff.1 (value.skipped stopsToo), rfl⟩,
    alike_following value stops stopsToo⟩

theorem MemberText.readColon (member : MemberText) (behind : Bytes) :
    Json.readColon (member.gap ++ colon :: (member.space ++ member.value) ++ behind) =
      .ok (member.space ++ (member.value ++ behind)) := by
  rw [List.append_assoc, readColon_blank member.blankGap, List.cons_append, List.append_assoc,
    readColon_cons]

theorem moves_passMember {member : MemberText} (quoted : Quoted member.key)
    (value : ValueText member.value) : Moves passMember (UnderKey Alike) member.bytes := by
  rintro behind other ⟨key, place⟩ after stops stopsToo passed
  obtain ⟨afterKey, keyRead, colonRead, skipped⟩ := passMember_eq_ok.1 passed
  rw [MemberText.bytes, List.append_assoc] at keyRead
  obtain ⟨rfl, keyMoved⟩ := readKey_moved quoted keyRead
  rw [member.readColon] at colonRead
  obtain rfl := Except.ok.inj colonRead
  have whole := skipped_iff.1 (skipped_blank member.blankSpace (value.skipped stops))
  have wholeToo := skipped_iff.1 (skipped_blank member.blankSpace (value.skipped stopsToo))
  rw [skipped] at whole
  refine ⟨(ok_pair_inj whole).2, (key, member.space ++ (member.value ++ other)), ?_, rfl, ?_⟩
  · refine passMember_eq_ok.2 ⟨_, ?_, member.readColon other, wholeToo⟩
    rw [MemberText.bytes, List.append_assoc, keyMoved]
  · exact ⟨member.value, value, ⟨member.space, behind, rfl, member.blankSpace, stops⟩,
      ⟨member.space, other, rfl, member.blankSpace, stopsToo⟩⟩

theorem ValueText.bracketed {text rest inside : Bytes} {found : Found} {close : UInt8}
    (value : ValueText text) (stops : Delimits rest)
    (read : readFound (text ++ rest) = .ok (found, inside)) (bracket : found.closing = some close) :
    (∃ items inner, found = .list ∧ text = openList :: inner ∧ inside = inner ++ rest ∧
      (∀ item ∈ items, ValueText item) ∧ Sequence closeList true items inner) ∨
    ∃ (members : List MemberText) (inner : Bytes), found = .record ∧ text = openRecord :: inner ∧ inside = inner ++ rest ∧
      (∀ member ∈ members, Quoted member.key) ∧ (∀ member ∈ members, ValueText member.value) ∧
      Sequence closeRecord true (members.map MemberText.bytes) inner := by
  have scalar : skipScalar (text ++ rest) ≠ .ok (none, rest) := by
    intro skipped
    rw [skipScalar_of_readFound read, bracket] at skipped
    simp at skipped
  cases value with
  | word known =>
      simp only [List.mem_cons, List.not_mem_nil, or_false] at known
      rcases known with rfl | rfl | rfl
      all_goals exact absurd rfl scalar
  | number written => exact absurd (skipScalar_number written stops) scalar
  | string quoted => exact absurd (skipScalar_quoted quoted rest) scalar
  | @list items inner each sequence =>
      rw [List.cons_append, readFound_openList] at read
      obtain ⟨rfl, rfl⟩ := ok_pair_inj read
      exact Or.inl ⟨items, inner, rfl, rfl, rfl, each, sequence⟩
  | @record members inner keys values sequence =>
      rw [List.cons_append, readFound_openRecord] at read
      obtain ⟨rfl, rfl⟩ := ok_pair_inj read
      exact Or.inr ⟨members, inner, rfl, rfl, rfl, keys, values, sequence⟩

theorem ListOutline.moved {left right after : Bytes} {places : List Bytes} (alike : Alike left right)
    (outline : ListOutline left places after) :
    ∃ moved behind, ListOutline right moved behind ∧ List.Forall₂ Alike places moved := by
  obtain ⟨text, value, ⟨gap, rest, rfl, blank, stops⟩, ⟨gap', rest', rfl, blankToo, _⟩⟩ := alike
  obtain ⟨inside, read, entries⟩ := outline
  rw [readFound_blank blank] at read
  rcases value.bracketed stops read rfl with
    ⟨items, inner, _, rfl, rfl, each, sequence⟩ | ⟨_, _, impossible, _⟩
  · obtain ⟨_, moved, movedEntries, alikes⟩ := sequence.moved (Or.inl rfl)
      (fun item member => (each item member).begins (Or.inl rfl))
      (fun item member => moves_passOver (each item member)) rest' entries
    refine ⟨moved, rest', ⟨inner ++ rest', ?_, movedEntries⟩, alikes⟩
    rw [readFound_blank blankToo, List.cons_append, readFound_openList]
  · exact Found.noConfusion impossible

theorem RecordOutline.moved {left right after : Bytes} {places : List (String × Bytes)}
    (alike : Alike left right) (outline : RecordOutline left places after) :
    ∃ moved behind, RecordOutline right moved behind ∧
      List.Forall₂ (UnderKey Alike) places moved := by
  obtain ⟨text, value, ⟨gap, rest, rfl, blank, stops⟩, ⟨gap', rest', rfl, blankToo, _⟩⟩ := alike
  obtain ⟨inside, read, entries⟩ := outline
  rw [readFound_blank blank] at read
  rcases value.bracketed stops read rfl with
    ⟨_, _, impossible, _⟩ | ⟨members, inner, _, rfl, rfl, keys, values, sequence⟩
  · exact Found.noConfusion impossible
  · have begins : ∀ entry ∈ members.map MemberText.bytes, Begins closeRecord entry := by
      intro entry inside
      obtain ⟨member, inMembers, rfl⟩ := List.mem_map.1 inside
      exact MemberText.begins (keys member inMembers) (Or.inr rfl)
    have moves : ∀ entry ∈ members.map MemberText.bytes, Moves passMember (UnderKey Alike) entry := by
      intro entry inside
      obtain ⟨member, inMembers, rfl⟩ := List.mem_map.1 inside
      exact moves_passMember (keys member inMembers) (values member inMembers)
    obtain ⟨_, moved, movedEntries, alikes⟩ := sequence.moved (Or.inr rfl) begins moves rest' entries
    refine ⟨moved, rest', ⟨inner ++ rest', ?_, movedEntries⟩, alikes⟩
    rw [readFound_blank blankToo, List.cons_append, readFound_openRecord]

theorem ValueText.skipBlanks {text gap : Bytes} (value : ValueText text) (blank : Blank gap)
    (rest : Bytes) : Json.skipBlanks (gap ++ (text ++ rest)) = text ++ rest := by
  obtain ⟨byte, tail, rfl, notBlank, _⟩ := value.begins (Or.inl rfl)
  rw [skipBlanks_blank blank, List.cons_append, skipBlanks_of_head byte _ notBlank]

theorem Stands.unique {text other place : Bytes} (stands : Stands text place)
    (standsToo : Stands other place) (value : ValueText text) (valueToo : ValueText other) :
    text = other := by
  obtain ⟨gap, rest, rfl, blank, stops⟩ := stands
  obtain ⟨gap', rest', same, blankToo, stopsToo⟩ := standsToo
  have values := congrArg Json.skipBlanks same
  rw [value.skipBlanks blank, valueToo.skipBlanks blankToo] at values
  have behind := value.skipped stops
  rw [values] at behind
  obtain rfl := behind.unique (valueToo.skipped stopsToo)
  exact List.append_cancel_right values

theorem Alike.skipBlanks {left right : Bytes} (alike : Alike left right) :
    Alike (Json.skipBlanks left) (Json.skipBlanks right) ∧
      (Json.skipBlanks left).head? = (Json.skipBlanks right).head? := by
  obtain ⟨text, value, ⟨gap, rest, rfl, blank, stops⟩, ⟨gap', rest', rfl, blankToo, stopsToo⟩⟩ := alike
  rw [value.skipBlanks blank, value.skipBlanks blankToo]
  refine ⟨alike_following value stops stopsToo, ?_⟩
  obtain ⟨byte, tail, rfl, _⟩ := value.begins (Or.inl rfl)
  rfl

/-! Readers of values of any shape. -/

theorem Portable.items {reader : Reader α} (portable : Portable reader) {places moved : List Bytes}
    (alikes : List.Forall₂ Alike places moved) (values : List α) :
    List.Forall₂ (Takes reader) places values ↔ List.Forall₂ (Takes reader) moved values :=
  forall₂_congr portable alikes values

theorem Portable.members {reader : Reader α} (portable : Portable reader)
    {places moved : List (String × Bytes)} (alikes : List.Forall₂ (UnderKey Alike) places moved)
    (members : List (String × α)) :
    List.Forall₂ (UnderKey (Takes reader)) places members ↔
      List.Forall₂ (UnderKey (Takes reader)) moved members := by
  refine forall₂_congr ?_ alikes members
  rintro place other ⟨sameKey, alike⟩ member
  rw [UnderKey, UnderKey, sameKey, portable _ _ alike]

theorem portable_readValue_above {depth : Nat}
    (inside : ∀ inner, depth = inner + 1 → Portable (readValue inner)) :
    Portable (readValue depth) := by
  refine portable_of ?_
  rintro left right value alike ⟨rest, read⟩
  cases value with
  | list items =>
      obtain ⟨inner, places, same, outline, taken⟩ := readValue_list_iff.1 read
      obtain ⟨moved, behind, movedOutline, alikes⟩ := outline.moved alike
      exact ⟨behind, readValue_list_iff.2
        ⟨inner, moved, same, movedOutline, ((inside inner same).items alikes items).1 taken⟩⟩
  | record members =>
      obtain ⟨inner, places, same, outline, taken⟩ := readValue_record_iff.1 read
      obtain ⟨moved, behind, movedOutline, alikes⟩ := outline.moved alike
      exact ⟨behind, readValue_record_iff.2
        ⟨inner, moved, same, movedOutline, ((inside inner same).members alikes members).1 taken⟩⟩
  | null | boolean | number | text =>
      obtain ⟨behind, found⟩ := (portable_readFound left right alike _).1 (readFound_of_readValue read)
      exact ⟨behind, readValue_scalar depth found (by simp [Value.found]) (by simp [Value.found])⟩

theorem portable_readValue (depth : Nat) : Portable (readValue depth) := by
  induction depth with
  | zero => exact portable_readValue_above fun inner impossible => by omega
  | succ depth ih =>
      refine portable_readValue_above ?_
      intro inner same
      rwa [← Nat.succ.inj same]

namespace Codec

def Portable (codec : Codec α) : Prop := ∀ depth, Json.Portable (codec.ofText depth)

theorem portable_scalar (toValue : α → Value) (visit : Found → Except Fault α) :
    (scalar toValue visit).Portable := by
  intro depth
  refine portable_of ?_
  rintro left right value alike ⟨rest, read⟩
  obtain ⟨found, foundRead, accepted⟩ := scalar_ofText_iff.1 read
  obtain ⟨behind, moved⟩ := (portable_readFound left right alike found).1 ⟨rest, foundRead⟩
  exact ⟨behind, scalar_ofText_iff.2 ⟨found, moved, accepted⟩⟩

theorem portable_list {item : Codec α} (skips : ∀ depth, Skips (item.ofText depth))
    (portable : item.Portable) : item.list.Portable := by
  intro depth
  refine portable_of ?_
  rintro left right values alike ⟨rest, read⟩
  obtain ⟨inner, places, same, outline, taken⟩ := (list_ofText_iff skips).1 read
  obtain ⟨moved, behind, movedOutline, alikes⟩ := outline.moved alike
  exact ⟨behind, (list_ofText_iff skips).2
    ⟨inner, moved, same, movedOutline, ((portable inner).items alikes values).1 taken⟩⟩

theorem portable_refine {base : Codec α} (widen : β → α) (narrow : α → Except String β)
    (portable : base.Portable) : (base.refine widen narrow).Portable := by
  intro depth
  refine portable_of ?_
  rintro left right value alike ⟨rest, read⟩
  obtain ⟨wide, wideRead, narrowed⟩ := refine_ofText_iff.1 read
  obtain ⟨behind, moved⟩ := (portable depth left right alike wide).1 ⟨rest, wideRead⟩
  exact ⟨behind, refine_ofText_iff.2 ⟨wide, moved, narrowed⟩⟩

theorem portable_freeForm : freeForm.Portable := by
  intro depth
  refine portable_of ?_
  rintro left right form alike ⟨rest, read⟩
  obtain ⟨value, valueRead, same⟩ := freeForm_ofText_iff.1 read
  obtain ⟨behind, moved⟩ := (portable_readValue depth left right alike value).1 ⟨rest, valueRead⟩
  exact ⟨behind, freeForm_ofText_iff.2 ⟨value, moved, same⟩⟩

theorem portable_freeRecord : freeRecord.Portable := by
  intro depth
  refine portable_of ?_
  rintro left right form alike ⟨rest, read⟩
  obtain ⟨members, valueRead, same⟩ := freeRecord_ofText_iff.1 read
  obtain ⟨behind, moved⟩ := (portable_readValue depth left right alike _).1 ⟨rest, valueRead⟩
  exact ⟨behind, freeRecord_ofText_iff.2 ⟨members, moved, same⟩⟩

theorem portable_nullable {item : Codec α} (portable : item.Portable) : item.nullable.Portable := by
  intro depth
  refine portable_of ?_
  rintro left right value alike ⟨rest, read⟩
  obtain ⟨alikeBehind, sameHead⟩ := alike.skipBlanks
  rcases nullable_ofText_iff.1 read with ⟨none, isNull⟩ | ⟨notNull, held, isSome, itemRead⟩
  · obtain ⟨behind, moved⟩ := (portable_readFound left right alike .null).1 ⟨rest, isNull⟩
    exact ⟨behind, nullable_ofText_iff.2 (Or.inl ⟨none, moved⟩)⟩
  · obtain ⟨behind, moved⟩ := (portable depth _ _ alikeBehind held).1 ⟨rest, itemRead⟩
    rw [sameHead] at notNull
    exact ⟨behind, nullable_ofText_iff.2 (Or.inr ⟨notNull, held, isSome, moved⟩)⟩

end Codec

namespace Fields

def Portable (fields : Fields α) : Prop :=
  ∀ depth entries moved, List.Forall₂ (UnderKey Alike) entries moved → ∀ record,
    fields.collect (fields.placeTaken depth) entries = .ok record ↔
      fields.collect (fields.placeTaken depth) moved = .ok record

theorem portable_single {key : String} {codec : Codec α} {optional : Bool}
    {missing : Except Fault α} {members : α → Members} (portable : codec.Portable) :
    (single key codec optional missing members).Portable := by
  intro depth entries moved alikes record
  rw [placeTaken_single, collect_single, collect_single]
  refine atMostOne_congr ?_ (valuesAt_related alikes key)
  intro left right alike
  rw [taken_eq_ok, taken_eq_ok]
  exact portable depth left right alike record

theorem portable_both {left : Fields α} {right : Fields β} (apart : Apart left right)
    (leftPortable : left.Portable) (rightPortable : right.Portable) : (both left right).Portable := by
  intro depth entries moved alikes record
  rw [placeTaken_both, collect_both apart, collect_both apart,
    leftPortable depth entries moved alikes, rightPortable depth entries moved alikes]

theorem portable_as {fields : Fields α} (make : α → β) (parts : β → α) (portable : fields.Portable) :
    (fields.as make parts).Portable := by
  intro depth entries moved alikes record
  have here := collect_as fields make parts (fields.placeTaken depth) entries
  have there := collect_as fields make parts (fields.placeTaken depth) moved
  change (fields.as make parts).collect (fields.placeTaken depth) entries = .ok record ↔
    (fields.as make parts).collect (fields.placeTaken depth) moved = .ok record
  rw [here, there, map_eq_ok, map_eq_ok]
  simp only [portable depth entries moved alikes]

theorem Offers.moved {fields : Fields α} {left right rest : Bytes} {entries : List (String × Bytes)}
    (alike : Alike left right) (offers : fields.Offers left entries rest) :
    ∃ moved behind, fields.Offers right moved behind ∧
      List.Forall₂ (UnderKey Alike) entries moved := by
  rcases offers with outline | ⟨places, outline, ordered⟩
  · obtain ⟨moved, behind, movedOutline, alikes⟩ := outline.moved alike
    exact ⟨moved, behind, Or.inl movedOutline, alikes⟩
  · obtain ⟨movedPlaces, behind, movedOutline, alikes⟩ := outline.moved alike
    obtain ⟨moved, movedOrdered, alikesUnder⟩ := ordered_related alikes ordered
    exact ⟨moved, behind, Or.inr ⟨movedPlaces, movedOutline, movedOrdered⟩, alikesUnder⟩

end Fields

namespace Codec

theorem portable_record {expected : String} {fields : Fields α} (sound : fields.Sound)
    (portable : fields.Portable) : (Codec.record expected fields).Portable := by
  intro depth
  refine portable_of ?_
  rintro left right record alike ⟨rest, read⟩
  obtain ⟨inner, entries, same, offers, collected⟩ := (record_ofText_iff sound).1 read
  obtain ⟨moved, behind, movedOffers, alikes⟩ := offers.moved alike
  exact ⟨behind, (record_ofText_iff sound).2
    ⟨inner, moved, same, movedOffers, (portable inner entries moved alikes record).1 collected⟩⟩

end Codec

namespace Arm

def Portable (arm : Arm α) : Prop := ∀ depth, Json.Portable (arm.contentOfText depth)

theorem portable_plain (name : String) (value : α) : (plain name value).Portable := by
  intro depth
  refine portable_of ?_
  rintro left right result alike ⟨rest, read⟩
  obtain ⟨⟨found, after⟩, foundRead, later⟩ := bind_eq_ok.1 read
  obtain ⟨behind, moved⟩ := (portable_readFound left right alike found).1 ⟨after, foundRead⟩
  cases found with
  | null =>
      refine ⟨behind, bind_eq_ok.2 ⟨(.null, behind), moved, ?_⟩⟩
      rw [(ok_pair_inj later).1]
  | boolean | number | text | list | record => simp [wrongType] at later

theorem portable_holding (name : String) {codec : Codec β} (make : β → α)
    (portable : codec.Portable) : (holding name codec make).Portable := by
  intro depth
  refine portable_of ?_
  rintro left right result alike ⟨rest, read⟩
  obtain ⟨held, codecRead, same⟩ := holding_ofText_iff.1 read
  obtain ⟨behind, moved⟩ := (portable depth left right alike held).1 ⟨rest, codecRead⟩
  exact ⟨behind, holding_ofText_iff.2 ⟨held, moved, same⟩⟩

theorem portable_withMembers (name expected : String) {fields : Fields β} (make : β → α)
    (sound : fields.Sound) (portable : fields.Portable) :
    (withMembers name expected fields make).Portable := by
  intro depth
  refine portable_of ?_
  rintro left right result alike ⟨rest, read⟩
  obtain ⟨inner, entries, held, same, outline, collected, sameResult⟩ :=
    (withMembers_ofText_iff sound).1 read
  obtain ⟨moved, behind, movedOutline, alikes⟩ := outline.moved alike
  exact ⟨behind, (withMembers_ofText_iff sound).2 ⟨inner, moved, held, same, movedOutline,
    (portable inner entries moved alikes held).1 collected, sameResult⟩⟩

end Arm

namespace Codec

theorem portable_union {toValue : α → Value} {arms : List (Arm α)}
    (skips : ∀ arm ∈ arms, ∀ depth, Skips (arm.contentOfText depth))
    (portable : ∀ arm ∈ arms, arm.Portable) : (Codec.union toValue arms).Portable := by
  intro depth
  refine portable_of ?_
  rintro left right value alike ⟨rest, read⟩
  rcases (union_ofText_iff skips).1 read with ⟨name, arm, found, named, alone⟩ |
    ⟨inner, name, content, arm, same, outline, named, taken⟩
  · obtain ⟨behind, moved⟩ := (portable_readFound left right alike _).1 ⟨rest, found⟩
    exact ⟨behind, (union_ofText_iff skips).2 (Or.inl ⟨name, arm, moved, named, alone⟩)⟩
  · obtain ⟨_, behind, movedOutline, alikes⟩ := outline.moved alike
    obtain ⟨⟨name', place⟩, _, ⟨sameName, alikeContent⟩, none, rfl⟩ :=
      List.forall₂_cons_left_iff.1 alikes
    obtain rfl := List.forall₂_nil_left_iff.1 none
    obtain rfl : name = name' := sameName
    have moved := (portable arm (Arm.mem_of_named named) inner content place alikeContent value).1 taken
    exact ⟨behind, (union_ofText_iff skips).2
      (Or.inr ⟨inner, name, place, arm, same, movedOutline, named, moved⟩)⟩

theorem portable_names (name : α → String) (values : List α) : (names name values).Portable := by
  have plain : ∀ arm ∈ values.map fun value => Arm.plain (name value) value,
      ∃ value, arm = .plain (name value) value := by
    intro arm member
    obtain ⟨value, _, same⟩ := List.mem_map.1 member
    exact ⟨value, same.symm⟩
  refine portable_union ?_ ?_
  · intro arm member
    obtain ⟨value, rfl⟩ := plain arm member
    exact (Arm.coherent_plain (name value) value).skips
  · intro arm member
    obtain ⟨value, rfl⟩ := plain arm member
    exact Arm.portable_plain (name value) value

end Codec

end LedgerWire.Json

import LedgerWire.Proofs.Json.Portable

/-!
Records written from members or from items in their order, with blanks wherever they may stand. What
a record is read as depends on its members, and under each key on the values there alone.
-/

namespace LedgerWire.Json

variable {α β : Type}

/-- A member to be written: a key with the name it denotes, and the text of a complete value. -/
structure WrittenMember where
  name : String
  key : Bytes
  value : Bytes
  denotes : Denotes key name
  complete : ValueText value

def WrittenMember.ofValue (name : String) (value : Value) : WrittenMember :=
  ⟨name, stringText name, value.bytes, denotes_stringText name, valueText_bytes value⟩

def WrittenMember.pair (member : WrittenMember) : String × Bytes := (member.name, member.value)

def WrittenMember.IsWritten (member : WrittenMember) (text : MemberText) : Prop :=
  text.key = member.key ∧ text.value = member.value

/-- The payload is a record of the members in their order, and blanks. -/
def Builds (members : List WrittenMember) (payload : Bytes) : Prop :=
  ∃ texts inner gap space, List.Forall₂ WrittenMember.IsWritten members texts ∧
    Sequence closeRecord true (texts.map MemberText.bytes) inner ∧ Blank gap ∧ Blank space ∧
    payload = gap ++ (openRecord :: inner ++ space)

def BuildsList (items : List Bytes) (payload : Bytes) : Prop :=
  ∃ inner gap space, Sequence closeList true items inner ∧ Blank gap ∧ Blank space ∧
    payload = gap ++ (openList :: inner ++ space)

def WrittenMember.plain (member : WrittenMember) : MemberText :=
  ⟨member.key, [], [], member.value, blank_nil, blank_nil⟩

def recordText (members : List WrittenMember) : Bytes :=
  openRecord :: between comma (members.map fun member => member.plain.bytes) ++ [closeRecord]

theorem builds_recordText (members : List WrittenMember) : Builds members (recordText members) := by
  refine ⟨members.map WrittenMember.plain, _, [], [], ?_, sequence_between closeRecord _, blank_nil,
    blank_nil, ?_⟩
  · rw [List.forall₂_map_right_iff, List.forall₂_same]
    exact fun member _ => ⟨rfl, rfl⟩
  · rw [recordText, List.map_map, List.nil_append, List.append_nil]
    rfl

theorem passMember_written {member : WrittenMember} {text : MemberText}
    (written : member.IsWritten text) {behind : Bytes} (stops : Delimits behind) :
    passMember (text.bytes ++ behind) =
      .ok ((member.name, text.space ++ (text.value ++ behind)), behind) := by
  obtain ⟨sameKey, sameValue⟩ := written
  have complete := member.complete
  rw [← sameValue] at complete
  refine passMember_eq_ok.2 ⟨text.gap ++ colon :: (text.space ++ text.value) ++ behind, ?_,
    text.readColon behind, skipped_iff.1 (skipped_blank text.blankSpace (complete.skipped stops))⟩
  rw [MemberText.bytes, sameKey, List.append_assoc, readKey_denotes member.denotes]

theorem Builds.outline {members : List WrittenMember} {payload : Bytes}
    (builds : Builds members payload) (behind : Bytes) :
    ∃ outline space, Blank space ∧ RecordOutline (payload ++ behind) outline (space ++ behind) ∧
      List.Forall₂ (UnderKey Stands) (members.map WrittenMember.pair) outline := by
  obtain ⟨texts, inner, gap, space, written, sequence, blank, blankToo, rfl⟩ := builds
  have each : ∀ entry ∈ texts.map MemberText.bytes, Begins closeRecord entry ∧
      ∀ behind, Delimits behind → ∃ place, passMember (entry ++ behind) = .ok (place, behind) := by
    intro entry inside
    obtain ⟨text, inTexts, rfl⟩ := List.mem_map.1 inside
    obtain ⟨member, _, isWritten⟩ := forall₂_left written inTexts
    refine ⟨?_, fun behind stops => ⟨_, passMember_written isWritten stops⟩⟩
    obtain ⟨body, shape, _⟩ := member.denotes
    exact ⟨quote, _, by rw [MemberText.bytes, isWritten.1, shape]; rfl, by decide, by decide⟩
  obtain ⟨outline, entries, located⟩ := sequence.located (Or.inr rfl)
    (fun entry inside => (each entry inside).1) (fun entry inside => (each entry inside).2)
    (space ++ behind)
  refine ⟨outline, space, blankToo, ⟨inner ++ (space ++ behind), ?_, entries⟩, ?_⟩
  · rw [List.append_assoc, readFound_blank blank, List.append_assoc, List.cons_append,
      readFound_openRecord]
  · rw [List.forall₂_map_left_iff] at located ⊢
    refine ((forall₂_through members outline).2 ⟨texts, written, located⟩).imp ?_
    rintro member ⟨name, place⟩ ⟨text, isWritten, after, stops, passed⟩
    rw [passMember_written isWritten stops] at passed
    obtain ⟨rfl, rfl⟩ := Prod.mk.inj (ok_pair_inj passed).1
    exact ⟨rfl, text.space, after, by rw [isWritten.2]; rfl, text.blankSpace, stops⟩

theorem Builds.unique {members others : List WrittenMember} {payload : Bytes}
    (builds : Builds members payload) (buildsToo : Builds others payload) :
    members.map WrittenMember.pair = others.map WrittenMember.pair := by
  obtain ⟨outline, space, _, read, stands⟩ := builds.outline []
  obtain ⟨outline', space', _, readToo, standsToo⟩ := buildsToo.outline []
  rw [← read.unique readToo, List.forall₂_map_left_iff] at standsToo
  rw [List.forall₂_map_left_iff] at stands
  rw [← List.forall₂_eq_eq_eq, List.forall₂_map_left_iff, List.forall₂_map_right_iff]
  refine ((forall₂_through members others).2 ⟨outline, stands, standsToo.flip⟩).imp ?_
  rintro member other ⟨place, ⟨sameName, here⟩, ⟨sameNameToo, hereToo⟩⟩
  exact Prod.ext (sameName.trans sameNameToo.symm)
    (here.unique hereToo member.complete other.complete)

theorem BuildsList.outline {items : List Bytes} {payload : Bytes} (builds : BuildsList items payload)
    (complete : ∀ item ∈ items, ValueText item) (behind : Bytes) :
    ∃ places space, Blank space ∧ ListOutline (payload ++ behind) places (space ++ behind) ∧
      List.Forall₂ Stands items places := by
  obtain ⟨inner, gap, space, sequence, blank, blankToo, rfl⟩ := builds
  have passed : ∀ item ∈ items, ∀ behind, Delimits behind →
      passOver (item ++ behind) = .ok (item ++ behind, behind) :=
    fun item member behind stops =>
      passOver_eq_ok.2 ⟨skipped_iff.1 ((complete item member).skipped stops), rfl⟩
  obtain ⟨places, entries, located⟩ := sequence.located (Or.inl rfl)
    (fun item member => (complete item member).begins (Or.inl rfl))
    (fun item member behind stops => ⟨_, passed item member behind stops⟩) (space ++ behind)
  refine ⟨places, space, blankToo, ⟨inner ++ (space ++ behind), ?_, entries⟩, ?_⟩
  · rw [List.append_assoc, readFound_blank blank, List.append_assoc, List.cons_append,
      readFound_openList]
  · refine ((List.forall₂_and_left items places).2 ⟨fun item member => member, located⟩).imp ?_
    rintro item place ⟨member, after, stops, here⟩
    rw [passed item member after stops] at here
    exact ⟨[], after, (ok_pair_inj here).1.symm, blank_nil, stops⟩

theorem builds_bytes (members : Members) :
    ∃ written, Builds written (Value.record members).bytes ∧
      written.map WrittenMember.pair = members.map fun member => (member.1, member.2.bytes) := by
  have each : ∃ written : List WrittenMember,
      (written.map fun member => member.plain.bytes) = membersBytes members ∧
        written.map WrittenMember.pair = members.map fun member => (member.1, member.2.bytes) := by
    induction members with
    | nil => exact ⟨[], rfl, rfl⟩
    | cons member rest ih =>
        obtain ⟨written, sameBytes, samePairs⟩ := ih
        refine ⟨.ofValue member.1 member.2 :: written, ?_, ?_⟩
        · rw [List.map_cons, sameBytes]
          rfl
        · rw [List.map_cons, samePairs]
          rfl
  obtain ⟨written, sameBytes, samePairs⟩ := each
  refine ⟨written, ?_, samePairs⟩
  have builds := builds_recordText written
  rwa [recordText, sameBytes] at builds

/-! Records read from either form. -/

namespace Fields

/-- The payload is a record of the texts under their keys, or a list of them in the order of the
fields. -/
def Shows (fields : Fields α) (texts : List (String × Bytes)) (payload : Bytes) : Prop :=
  (∃ members, Builds members payload ∧ texts = members.map WrittenMember.pair) ∨
    ∃ items, (∀ item ∈ items, ValueText item) ∧ BuildsList items payload ∧ fields.Ordered items texts

theorem Offers.determined {fields : Fields α} {text rest behind : Bytes}
    {entries others : List (String × Bytes)} (first : fields.Offers text entries rest)
    (second : fields.Offers text others behind) : entries = others ∧ rest = behind := by
  rcases first with outline | ⟨places, outline, ordered⟩
  · rcases second with outlineToo | ⟨_, list, _⟩
    · exact ⟨outline.unique outlineToo, outline.skipped.unique outlineToo.skipped⟩
    · exact absurd outline list.notRecord
  · rcases second with outlineToo | ⟨placesToo, outlineToo, orderedToo⟩
    · exact absurd outlineToo outline.notRecord
    · refine ⟨?_, outline.skipped.unique outlineToo.skipped⟩
      rw [ordered.2, orderedToo.2, outline.unique outlineToo]

section

variable {fields : Fields α} {texts : List (String × Bytes)} {payload : Bytes}

theorem shows_encode (fields : Fields α) (expected : String) (record : α) :
    fields.Shows ((fields.members record).map fun member => (member.1, member.2.bytes))
      ((Codec.record expected fields).encode record) := by
  obtain ⟨written, builds, same⟩ := builds_bytes (fields.members record)
  exact Or.inl ⟨written, builds, same.symm⟩

theorem Shows.complete (shown : fields.Shows texts payload) : ∀ text ∈ texts, ValueText text.2 := by
  rcases shown with ⟨members, _, rfl⟩ | ⟨items, complete, _, ordered⟩
  · intro text inside
    obtain ⟨member, _, rfl⟩ := List.mem_map.1 inside
    exact member.complete
  · rintro ⟨key, text⟩ inside
    rw [ordered.2] at inside
    exact complete text (List.of_mem_zip inside).2

theorem Shows.offers (shown : fields.Shows texts payload) (behind : Bytes) :
    ∃ entries space, Blank space ∧ fields.Offers (payload ++ behind) entries (space ++ behind) ∧
      List.Forall₂ (UnderKey Stands) texts entries := by
  rcases shown with ⟨members, builds, rfl⟩ | ⟨items, complete, builds, ordered⟩
  · obtain ⟨outline, space, blank, found, stands⟩ := builds.outline behind
    exact ⟨outline, space, blank, Or.inl found, stands⟩
  · obtain ⟨places, space, blank, found, stands⟩ := builds.outline complete behind
    obtain ⟨entries, orderedToo, standsUnder⟩ := ordered_related stands ordered
    exact ⟨entries, space, blank, Or.inr ⟨places, found, orderedToo⟩, standsUnder⟩

theorem Shows.ofText_iff (shown : fields.Shows texts payload) (sound : fields.Sound)
    (expected : String) {gap : Bytes} (blank : Blank gap) (behind : Bytes) :
    ∃ entries space, Blank space ∧ List.Forall₂ (UnderKey Stands) texts entries ∧
      ∀ depth record rest,
        (Codec.record expected fields).ofText (depth + 1) (gap ++ (payload ++ behind)) =
            .ok (record, rest) ↔
          rest = space ++ behind ∧ fields.collect (fields.placeTaken depth) entries = .ok record := by
  obtain ⟨entries, space, blankToo, offers, stands⟩ := shown.offers behind
  refine ⟨entries, space, blankToo, stands, ?_⟩
  intro depth record rest
  have unblanked : (Codec.record expected fields).ofText (depth + 1) (gap ++ (payload ++ behind)) =
      (Codec.record expected fields).ofText (depth + 1) (payload ++ behind) := by
    simp only [Codec.record, readFound_blank blank]
  rw [unblanked, Codec.record_ofText_iff sound]
  constructor
  · rintro ⟨inner, others, same, offersToo, collected⟩
    obtain ⟨rfl, rfl⟩ := offers.determined offersToo
    obtain rfl := Nat.succ.inj same
    exact ⟨rfl, collected⟩
  · rintro ⟨rfl, collected⟩
    exact ⟨depth, entries, rfl, offers, collected⟩

theorem Shows.decode_iff (shown : fields.Shows texts payload) (sound : fields.Sound)
    (expected : String) :
    ∃ entries, List.Forall₂ (UnderKey Stands) texts entries ∧ ∀ record,
      (Codec.record expected fields).decode payload = .ok record ↔
        fields.collect (fields.placeTaken (depthLimit - 1)) entries = .ok record := by
  obtain ⟨entries, space, blank, stands, read⟩ := shown.ofText_iff sound expected blank_nil []
  refine ⟨entries, stands, ?_⟩
  intro record
  have here := read (depthLimit - 1) record
  simp only [List.append_nil, List.nil_append] at here
  rw [Codec.decode_eq_ok]
  constructor
  · rintro ⟨rest, found, _⟩
    exact ((here rest).1 found).2
  · intro collected
    exact ⟨space, (here space).2 ⟨rfl, collected⟩, skipBlanks_eq_nil.2 blank⟩

theorem Shows.takes_iff (shown : fields.Shows texts payload) (sound : fields.Sound)
    (expected : String) {place : Bytes} (standing : Stands payload place) :
    ∃ entries, List.Forall₂ (UnderKey Stands) texts entries ∧ ∀ depth record,
      Takes ((Codec.record expected fields).ofText (depth + 1)) place record ↔
        fields.collect (fields.placeTaken depth) entries = .ok record := by
  obtain ⟨gap, behind, rfl, blank, _⟩ := standing
  obtain ⟨entries, space, _, stands, read⟩ := shown.ofText_iff sound expected blank behind
  refine ⟨entries, stands, ?_⟩
  intro depth record
  constructor
  · rintro ⟨rest, found⟩
    exact ((read depth record rest).1 found).2
  · intro collected
    exact ⟨_, (read depth record _).2 ⟨rfl, collected⟩⟩

end

end Fields

/-! One field. -/

theorem under_standing {key : String} {reader : Reader α} {value : α} {holds : Bytes → Prop}
    (same : ∀ text place, ValueText text → Stands text place → (Takes reader place value ↔ holds text))
    {texts entries : List (String × Bytes)} (complete : ∀ text ∈ texts, ValueText text.2)
    (stands : List.Forall₂ (UnderKey Stands) texts entries) :
    Under key entries (Takes reader · value) ↔ Under key texts holds := by
  unfold Under
  have here := valuesAt_related stands key
  have completeHere : ∀ text ∈ valuesAt key texts, ValueText text :=
    fun text member => complete (key, text) (mem_valuesAt.1 member)
  generalize valuesAt key texts = found at here completeHere ⊢
  generalize valuesAt key entries = places at here ⊢
  cases here with
  | nil => simp
  | @cons text place found places standsHere more =>
      cases more with
      | nil =>
          have one := same text place (completeHere text List.mem_cons_self) standsHere
          simp only [List.cons.injEq, and_true, exists_eq_left', one]
      | cons _ _ => simp

theorem Codec.takes_standing {codec : Codec α} (skips : ∀ depth, Skips (codec.ofText depth))
    (portable : codec.Portable) (flat : ∀ depth, codec.ofText depth = codec.ofText depthLimit)
    {depth : Nat} {text place : Bytes} (value : ValueText text) (stands : Stands text place)
    {result : α} : Takes (codec.ofText depth) place result ↔ codec.decode text = .ok result := by
  have alike : Alike place text :=
    ⟨text, value, stands, [], [], (List.append_nil text).symm, blank_nil, delimits_nil⟩
  have skipped := skipped_iff.1 (value.skipped delimits_nil)
  rw [List.append_nil] at skipped
  rw [flat depth, portable depthLimit place text alike, Codec.decode_eq_ok]
  constructor
  · intro taken
    exact ⟨[], (skips depthLimit).rest_eq taken skipped, rfl⟩
  · rintro ⟨rest, read, _⟩
    exact ⟨rest, read⟩

/-! Nulls and keys of no field. -/

def filled (texts : List Bytes) : List Bytes := texts.filter (· ≠ nullText)

def Condenses (texts others : List Bytes) : Prop :=
  others.length ≤ texts.length ∧ (filled others).Perm (filled texts)

theorem filled_single (text : Bytes) : filled [text] = if text = nullText then [] else [text] := by
  by_cases isNull : text = nullText
  · simp [filled, isNull]
  · simp [filled, isNull]

theorem condenses_nil {others : List Bytes} (condenses : Condenses [] others) : others = [] :=
  List.length_eq_zero_iff.1 (Nat.le_zero.1 condenses.1)

theorem condenses_single {text : Bytes} {others : List Bytes} (condenses : Condenses [text] others) :
    (others = [] ∧ text = nullText) ∨ others = [text] := by
  obtain ⟨short, sameFilled⟩ := condenses
  rw [filled_single] at sameFilled
  cases others with
  | nil =>
      split at sameFilled
      · exact Or.inl ⟨rfl, by assumption⟩
      · simp [filled] at sameFilled
  | cons other more =>
      obtain rfl : more = [] := by
        rw [List.length_cons, List.length_cons, List.length_nil] at short
        exact List.length_eq_zero_iff.1 (by omega)
      rw [filled_single] at sameFilled
      refine Or.inr ?_
      split at sameFilled
      · rename_i otherNull
        split at sameFilled
        · rename_i textNull
          rw [otherNull, textNull]
        · simp at sameFilled
      · split at sameFilled
        · simp at sameFilled
        · simpa using sameFilled

theorem Codec.nullable_null {codec : Codec α} (depth : Nat) {place : Bytes}
    (stands : Stands nullText place) : Takes (codec.nullable.ofText depth) place none := by
  obtain ⟨gap, rest, rfl, blank, _⟩ := stands
  refine ⟨rest, nullable_ofText_iff.2 (Or.inl ⟨rfl, ?_⟩)⟩
  rw [readFound_blank blank]
  rfl

namespace Fields

/-- What is made of texts is made of them with fewer nulls and in any order, whatever else there is
under keys of no field. -/
def IgnoresNulls (fields : Fields α) : Prop :=
  ∀ depth (texts others entries moved : List (String × Bytes)) record,
    (∀ text ∈ texts, ValueText text.2) →
    List.Forall₂ (UnderKey Stands) texts entries → List.Forall₂ (UnderKey Stands) others moved →
    (∀ key, fields.isKey key = true → Condenses (valuesAt key texts) (valuesAt key others)) →
    fields.collect (fields.placeTaken depth) entries = .ok record →
      fields.collect (fields.placeTaken depth) moved = .ok record

theorem ignoresNulls_optional (key : String) {codec : Codec α} (portable : codec.Portable) :
    (optional key codec).IgnoresNulls := by
  intro depth texts others entries moved record complete stands standsToo condenses collected
  rw [optional, placeTaken_single, collect_single] at collected ⊢
  have condensed := condenses key (by rw [optional, isKey_single, decide_eq_true rfl])
  have here := valuesAt_related stands key
  have there := valuesAt_related standsToo key
  have completeHere : ∀ text ∈ valuesAt key texts, ValueText text :=
    fun text member => complete (key, text) (mem_valuesAt.1 member)
  generalize valuesAt key texts = found at condensed here completeHere
  generalize valuesAt key others = left at condensed there
  generalize valuesAt key entries = places at here collected
  generalize valuesAt key moved = placesToo at there ⊢
  cases here with
  | nil =>
      rw [condenses_nil condensed] at there
      cases there
      exact collected
  | @cons text place found places standsHere more =>
      cases more with
      | cons _ _ => exact collected.elim
      | nil =>
          have taken := taken_eq_ok.1 collected
          rcases condenses_single condensed with ⟨rfl, rfl⟩ | rfl
          · cases there
            exact congrArg Except.ok ((Codec.nullable_null depth standsHere).unique taken)
          · cases there with
            | cons standsThere none =>
                cases none
                have alike : Alike place _ :=
                  ⟨text, completeHere text List.mem_cons_self, standsHere, standsThere⟩
                exact taken_eq_ok.2 ((Codec.portable_nullable portable depth _ _ alike record).1 taken)

theorem ignoresNulls_both {left : Fields α} {right : Fields β} (apart : Apart left right)
    (leftIgnores : left.IgnoresNulls) (rightIgnores : right.IgnoresNulls) :
    (both left right).IgnoresNulls := by
  intro depth texts others entries moved record complete stands standsToo condenses collected
  rw [placeTaken_both, collect_both apart] at collected ⊢
  refine ⟨leftIgnores depth texts others entries moved _ complete stands standsToo ?_ collected.1,
    rightIgnores depth texts others entries moved _ complete stands standsToo ?_ collected.2⟩
  · intro key isKey
    exact condenses key (by rw [isKey_both, isKey, Bool.true_or])
  · intro key isKey
    exact condenses key (by rw [isKey_both, isKey, Bool.or_true])

theorem ignoresNulls_as {fields : Fields α} (make : α → β) (parts : β → α)
    (ignores : fields.IgnoresNulls) : (fields.as make parts).IgnoresNulls := by
  intro depth texts others entries moved record complete stands standsToo condenses collected
  change (fields.as make parts).collect (fields.placeTaken depth) entries = .ok record at collected
  change (fields.as make parts).collect (fields.placeTaken depth) moved = .ok record
  rw [collect_as, map_eq_ok] at collected ⊢
  obtain ⟨held, heldCollected, same⟩ := collected
  exact ⟨held,
    ignores depth texts others entries moved held complete stands standsToo condenses heldCollected, same⟩

end Fields

end LedgerWire.Json

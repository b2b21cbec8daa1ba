import LedgerWire.Proofs.Json.Members
import LedgerWire.Proofs.Wire.Counters
import LedgerWire.Proofs.Wire.Operations

/-!
Records with a counter, and shared objects. All spellings of a number are read alike wherever a
counter is read, there are no others, and a counter is written as the number.
-/

namespace LedgerWire

open Json

/-! Records with a counter. -/

variable {α : Type}

/-- When a payload is read as the value, by itself and where it stands in a larger text. -/
def ReadsIff (codec : Codec α) (payload : Bytes) (value : α) (condition : Prop) : Prop :=
  ((Boundary.decode codec payload).outcome = .ok value ↔ condition) ∧
    ∀ depth place, Stands payload place → (Takes (codec.ofText (depth + 1)) place value ↔ condition)

theorem readsIff_record {fields : Fields α} (sound : fields.Sound) {texts : List (String × Bytes)}
    {payload : Bytes} (shown : fields.Shows texts payload) {expected : String} {record : α}
    {condition : Prop} (collected : ∀ depth entries, List.Forall₂ (UnderKey Stands) texts entries →
      (fields.collect (fields.placeTaken depth) entries = .ok record ↔ condition)) :
    ReadsIff (Codec.record expected fields) payload record condition := by
  constructor
  · obtain ⟨entries, stands, read⟩ := shown.decode_iff sound expected
    rw [Boundary.decode_eq_ok, read record]
    exact collected _ entries stands
  · intro depth place standing
    obtain ⟨entries, stands, read⟩ := shown.takes_iff sound expected standing
    rw [read depth record]
    exact collected depth entries stands

section

variable {texts entries : List (String × Bytes)} {depth : Nat}

theorem Json.Codec.Lawful.under_iff {codec : Codec α} {least : Nat} (lawful : codec.Lawful least)
    (flat : ∀ depth, codec.ofText depth = codec.ofText depthLimit)
    (complete : ∀ text ∈ texts, ValueText text.2)
    (stands : List.Forall₂ (UnderKey Stands) texts entries) {key : String} {value : α} :
    Under key entries (Takes (codec.ofText depth) · value) ↔
      Under key texts (codec.decode · = .ok value) :=
  under_standing
    (fun _ _ text standing => Codec.takes_standing lawful.coherent.skips lawful.portable flat text standing)
    complete stands

theorem Counter.under_iff (complete : ∀ text ∈ texts, ValueText text.2)
    (stands : List.Forall₂ (UnderKey Stands) texts entries) {key : String} {number : UInt64} :
    Under key entries (Takes (Counter.codec.ofText depth) · number) ↔
      Under key texts (CounterText · number) :=
  under_standing (fun _ _ text standing => Counter.takes_iff depth text standing) complete stands

theorem Version.under_iff (complete : ∀ text ∈ texts, ValueText text.2)
    (stands : List.Forall₂ (UnderKey Stands) texts entries) {key : String} {version : Version} :
    Under key entries (Takes (Version.codec.ofText depth) · version) ↔
      Under key texts (CounterText · version.number) :=
  under_standing (fun _ _ text standing => Version.takes_iff depth text standing) complete stands

end

def SameNumber (text other : Bytes) : Prop :=
  ∃ number, CounterText text number ∧ CounterText other number

/-- The texts are the same under all keys but one, and under that one spell the same number. -/
def Respelled (key : String) (texts others : List (String × Bytes)) : Prop :=
  (∀ other, other ≠ key → valuesAt other texts = valuesAt other others) ∧
    List.Forall₂ SameNumber (valuesAt key texts) (valuesAt key others)

theorem SameNumber.symm {text other : Bytes} (same : SameNumber text other) : SameNumber other text := by
  obtain ⟨number, here, there⟩ := same
  exact ⟨number, there, here⟩

theorem SameNumber.counterText {text other : Bytes} (same : SameNumber text other) {number : UInt64}
    (spelled : CounterText text number) : CounterText other number := by
  obtain ⟨common, here, there⟩ := same
  rw [here.unique spelled] at there
  exact there

section

variable {key : String} {texts others : List (String × Bytes)}

theorem Respelled.other (respelled : Respelled key texts others) {other : String} (apart : other ≠ key)
    (holds : Bytes → Prop) : Under other texts holds ↔ Under other others holds := by
  rw [Under, Under, respelled.1 other apart]

theorem Respelled.counter (respelled : Respelled key texts others) (number : UInt64) :
    Under key texts (CounterText · number) ↔ Under key others (CounterText · number) := by
  obtain ⟨_, same⟩ := respelled
  unfold Under
  generalize valuesAt key texts = here at same ⊢
  generalize valuesAt key others = there at same ⊢
  cases same with
  | nil => simp
  | cons first more =>
      cases more with
      | nil =>
          simp only [List.cons.injEq, and_true, exists_eq_left']
          exact ⟨first.counterText, first.symm.counterText⟩
      | cons _ _ => simp

end

/-- A record with a counter under the key. Whatever it is read from has one value under the key, which
is a spelling. It is read where the counter is spelled there and `others` are as they have to be; how
it is spelled makes no difference; and it is written in digits. -/
structure CountsUnder (key : String) (fields : Fields α) (codec : Codec α) (number : α → UInt64)
    (others : α → List (String × Bytes) → Prop) : Prop where
  spelled : ∀ payload record, (Boundary.decode codec payload).outcome = .ok record →
    ∃ entries rest, fields.Offers payload entries rest ∧
      Under key entries (SpelledAt · (number record))
  reads : ∀ texts payload, fields.Shows texts payload → ∀ record,
    ReadsIff codec payload record
      (Under key texts (CounterText · (number record)) ∧ others record texts)
  alike : ∀ texts payload texts' payload', fields.Shows texts payload →
    fields.Shows texts' payload' → Respelled key texts texts' → ∀ record,
      (Boundary.decode codec payload).outcome = .ok record ↔
        (Boundary.decode codec payload').outcome = .ok record
  writes : ∀ record, ∃ texts, fields.Shows texts (codec.encode record) ∧
    Under key texts (· = naturalBytes (number record).toNat)

theorem CountsUnder.ofReads {key : String} {fields : Fields α} {expected : String}
    {number : α → UInt64} {others : α → List (String × Bytes) → Prop} (sound : fields.Sound)
    (spelled : ∀ depth entries record,
      fields.collect (fields.placeTaken depth) entries = .ok record →
        Under key entries (SpelledAt · (number record)))
    (reads : ∀ texts payload, fields.Shows texts payload → ∀ record,
      ReadsIff (Codec.record expected fields) payload record
        (Under key texts (CounterText · (number record)) ∧ others record texts))
    (apart : ∀ texts texts', Respelled key texts texts' → ∀ record,
      others record texts ↔ others record texts')
    (writes : ∀ record, valuesAt key (fields.members record) = [.number (ofNatural (number record))]) :
    CountsUnder key fields (Codec.record expected fields) number others where
  spelled := by
    intro payload record decoded
    obtain ⟨rest, read, _⟩ := Codec.decode_eq_ok.1 (Boundary.decode_eq_ok.1 decoded)
    obtain ⟨_, entries, _, offers, collected⟩ := (Codec.record_ofText_iff sound).1 read
    exact ⟨entries, rest, offers, spelled _ entries record collected⟩
  reads := reads
  alike := by
    intro texts payload texts' payload' shown shownToo respelled record
    rw [(reads texts payload shown record).1, (reads texts' payload' shownToo record).1,
      respelled.counter, apart texts texts' respelled]
  writes := by
    intro record
    refine ⟨_, Fields.shows_encode fields expected record, _, ?_, rfl⟩
    rw [valuesAt_map, writes record, List.map_singleton, Value.bytes, bytes_ofNatural]

namespace EpochChange

def OtherTexts (change : EpochChange) (texts : List (String × Bytes)) : Prop :=
  Under "storage_charge" texts (Codec.natural.decode · = .ok change.storageCharge) ∧
    Under "computation_charge" texts (Codec.natural.decode · = .ok change.computationCharge)

theorem collect_iff {depth : Nat} {entries : List (String × Bytes)} {change : EpochChange} :
    fields.collect (fields.placeTaken depth) entries = .ok change ↔
      Under "epoch" entries (Takes (Counter.codec.ofText depth) · change.epoch) ∧
        Under "storage_charge" entries (Takes (Codec.natural.ofText depth) · change.storageCharge) ∧
          Under "computation_charge" entries
            (Takes (Codec.natural.ofText depth) · change.computationCharge) := by
  rw [fields, Fields.collect_placeTaken_as (fun _ => rfl) (fun _ => rfl),
    Fields.collect_placeTaken_both (Fields.apart_of_keys (by decide)),
    Fields.collect_placeTaken_both (Fields.apart_of_keys (by decide)),
    Fields.collect_required, Fields.collect_required, Fields.collect_required]

theorem readsIff (texts : List (String × Bytes)) (payload : Bytes)
    (shown : fields.Shows texts payload) (change : EpochChange) :
    ReadsIff codec payload change
      (Under "epoch" texts (CounterText · change.epoch) ∧ change.OtherTexts texts) := by
  refine readsIff_record lawful_fields.sound shown ?_
  intro depth entries stands
  rw [collect_iff, OtherTexts, Counter.under_iff shown.complete stands,
    Codec.Lawful.natural.under_iff (fun _ => rfl) shown.complete stands,
    Codec.Lawful.natural.under_iff (fun _ => rfl) shown.complete stands]

theorem countsUnder : CountsUnder "epoch" fields codec epoch OtherTexts := by
  refine .ofReads lawful_fields.sound ?_ readsIff ?_ ?_
  · intro depth entries change collected
    obtain ⟨place, under, taken⟩ := (collect_iff.1 collected).1
    exact ⟨place, under, Counter.spelledAt taken⟩
  · intro texts texts' respelled change
    rw [OtherTexts, OtherTexts, respelled.other (by decide), respelled.other (by decide)]
  · intro change
    rfl

end EpochChange

namespace ObjectRef

def OtherTexts (object : ObjectRef) (texts : List (String × Bytes)) : Prop :=
  Under "objectId" texts (Address.codec.decode · = .ok object.id) ∧
    Under "digest" texts (Payload.codec.decode · = .ok object.digest)

theorem collect_iff {depth : Nat} {entries : List (String × Bytes)} {object : ObjectRef} :
    fields.collect (fields.placeTaken depth) entries = .ok object ↔
      Under "objectId" entries (Takes (Address.codec.ofText depth) · object.id) ∧
        Under "version" entries (Takes (Version.codec.ofText depth) · object.version) ∧
          Under "digest" entries (Takes (Payload.codec.ofText depth) · object.digest) := by
  rw [fields, fieldsOver, Fields.collect_placeTaken_as (fun _ => rfl) (fun _ => rfl),
    Fields.collect_placeTaken_both (Fields.apart_of_keys (by decide)),
    Fields.collect_placeTaken_both (Fields.apart_of_keys (by decide)),
    Fields.collect_required, Fields.collect_required, Fields.collect_required]

theorem readsIff (texts : List (String × Bytes)) (payload : Bytes)
    (shown : fields.Shows texts payload) (object : ObjectRef) :
    ReadsIff codec payload object
      (Under "version" texts (CounterText · object.version.number) ∧ object.OtherTexts texts) := by
  refine readsIff_record lawful_fields.sound shown ?_
  intro depth entries stands
  rw [collect_iff, OtherTexts, Address.lawful.under_iff (fun _ => rfl) shown.complete stands,
    Version.under_iff shown.complete stands,
    Payload.lawful.under_iff (fun _ => rfl) shown.complete stands]
  exact and_left_comm

theorem countsUnder :
    CountsUnder "version" fields codec (fun object => object.version.number) OtherTexts := by
  refine .ofReads lawful_fields.sound ?_ readsIff ?_ ?_
  · intro depth entries object collected
    obtain ⟨place, under, taken⟩ := (collect_iff.1 collected).2.1
    exact ⟨place, under, Version.spelledAt taken⟩
  · intro texts texts' respelled object
    rw [OtherTexts, OtherTexts, respelled.other (by decide), respelled.other (by decide)]
  · intro object
    rfl

end ObjectRef

/-! Shared objects. -/

namespace OwnerRule

theorem decode_arms_iff {shared : Arm OwnerRule}
    (skips : ∀ arm ∈ arms shared, ∀ depth, Skips (arm.contentOfText depth))
    (isShared : shared.name = "Shared") {member : WrittenMember} {payload : Bytes}
    (builds : Builds [member] payload) (named : member.name = "Shared") :
    ∃ place, Stands member.value place ∧ ∀ rule,
      (Codec.union toValue (arms shared)).decode payload = .ok rule ↔
        Takes (shared.contentOfText (depthLimit - 1)) place rule := by
  obtain ⟨outline, space, blank, found, stands⟩ := builds.outline []
  rw [List.append_nil, List.append_nil] at found
  obtain ⟨⟨name, place⟩, _, ⟨sameName, standing⟩, none, rfl⟩ := List.forall₂_cons_left_iff.1 stands
  obtain rfl := List.forall₂_nil_left_iff.1 none
  obtain rfl : "Shared" = name := named.symm.trans sameName
  refine ⟨place, standing, ?_⟩
  intro rule
  simp only [Codec.decode_eq_ok, Codec.union_ofText_iff skips, named_arms shared isShared]
  constructor
  · rintro ⟨rest, ⟨_, _, text, _⟩ | ⟨inner, _, _, arm, same, outline, isArm, taken⟩, _⟩
    · obtain ⟨inside, read, _⟩ := found
      exact Found.noConfusion (ok_pair_inj (text.symm.trans read)).1
    · obtain ⟨rfl, rfl⟩ := Prod.mk.inj (List.cons.inj (found.unique outline)).1
      obtain rfl : arm = shared := by simpa using isArm
      rw [same]
      exact taken
  · intro taken
    exact ⟨space, Or.inr ⟨depthLimit - 1, _, place, shared, rfl, found,
      Or.inr (Or.inr ⟨rfl, rfl⟩), taken⟩, skipBlanks_eq_nil.2 blank⟩

theorem collect_shown {texts entries : List (String × Bytes)} {depth : Nat}
    (complete : ∀ text ∈ texts, ValueText text.2) (stands : List.Forall₂ (UnderKey Stands) texts entries)
    {since : Version} :
    sharedFields.collect (sharedFields.placeTaken depth) entries = .ok since ↔
      Under "initial_shared_version" texts (CounterText · since.number) :=
  Fields.collect_required.trans (Version.under_iff complete stands)

theorem decode_shared_iff {member : WrittenMember} {texts : List (String × Bytes)} {payload : Bytes}
    (builds : Builds [member] payload) (named : member.name = "Shared")
    (shown : sharedFields.Shows texts member.value) {rule : OwnerRule} :
    codec.decode payload = .ok rule ↔ ∃ since, rule = .shared since ∧
      Under "initial_shared_version" texts (CounterText · since.number) := by
  obtain ⟨place, standing, decoded⟩ := decode_arms_iff skips_arms rfl builds named
  obtain ⟨entries, stands, read⟩ := shown.takes_iff lawful_sharedFields.sound sharedName standing
  rw [codec, decoded rule]
  have content : ∀ since, Takes ((Codec.record sharedName sharedFields).ofText (depthLimit - 1)) place
      since ↔ Under "initial_shared_version" texts (CounterText · since.number) := by
    intro since
    rw [← collect_shown shown.complete stands]
    exact read (depthLimit - 2) since
  constructor
  · rintro ⟨rest, taken⟩
    obtain ⟨⟨since, after⟩, contentRead, same⟩ := bind_eq_ok.1 taken
    exact ⟨since, (ok_pair_inj same).1.symm, (content since).1 ⟨after, contentRead⟩⟩
  · rintro ⟨since, rfl, spelled⟩
    obtain ⟨rest, contentRead⟩ := (content since).2 spelled
    exact ⟨rest, bind_eq_ok.2 ⟨(since, rest), contentRead, rfl⟩⟩

theorem decode_sharedMembers_iff {member : WrittenMember} {members : List WrittenMember}
    {payload : Bytes} (builds : Builds [member] payload) (named : member.name = "Shared")
    (inside : Builds members member.value) {rule : OwnerRule} :
    memberCodec.decode payload = .ok rule ↔ ∃ since, rule = .shared since ∧
      Under "initial_shared_version" (members.map WrittenMember.pair)
        (CounterText · since.number) := by
  obtain ⟨place, ⟨gap, behind, rfl, blank, _⟩, decoded⟩ := decode_arms_iff
    (fun arm member => (coherent_memberArms arm member).skips) rfl builds named
  obtain ⟨outline, space, _, ⟨start, read, entries⟩, stands⟩ := inside.outline behind
  have found : RecordOutline (gap ++ (member.value ++ behind)) outline (space ++ behind) :=
    ⟨start, by rw [readFound_blank blank, read], entries⟩
  have shown : sharedFields.Shows (members.map WrittenMember.pair) member.value :=
    Or.inl ⟨members, inside, rfl⟩
  rw [memberCodec, memberArms, decoded rule]
  constructor
  · rintro ⟨rest, taken⟩
    obtain ⟨_, others, since, _, foundToo, collected, same⟩ :=
      (Arm.withMembers_ofText_iff lawful_sharedFields.sound).1 taken
    obtain rfl := found.unique foundToo
    exact ⟨since, same.symm, (collect_shown shown.complete stands).1 collected⟩
  · rintro ⟨since, rfl, spelled⟩
    exact ⟨_, (Arm.withMembers_ofText_iff lawful_sharedFields.sound).2 ⟨depthLimit - 2, outline, since,
      rfl, found, (collect_shown shown.complete stands).2 spelled, rfl⟩⟩

theorem spelled_ofText {depth : Nat} {payload rest : Bytes} {since : Version}
    (read : codec.ofText depth payload = .ok (.shared since, rest)) :
    ∃ content entries behind, RecordOutline payload [("Shared", content)] rest ∧
      sharedFields.Offers content entries behind ∧
      Under "initial_shared_version" entries (SpelledAt · since.number) := by
  rcases codec_ofText_iff.1 read with members |
    ⟨_, same, _, content, _, outline, _, item, behind, _, list, taken⟩
  · obtain ⟨_, name, content, arm, _, outline, named, _, contentRead⟩ :=
      memberCodec_ofText_iff.1 members
    rcases (named_arms _ rfl name arm).1 named with ⟨_, rfl⟩ | ⟨_, rfl⟩ | ⟨rfl, rfl⟩
    · obtain ⟨_, _, impossible⟩ := Arm.holding_ofText_iff.1 contentRead
      exact OwnerRule.noConfusion impossible
    · obtain ⟨_, _, impossible⟩ := Arm.holding_ofText_iff.1 contentRead
      exact OwnerRule.noConfusion impossible
    · obtain ⟨_, entries, _, _, inside, collected, same⟩ :=
        (Arm.withMembers_ofText_iff lawful_sharedFields.sound).1 contentRead
      obtain rfl := OwnerRule.shared.inj same
      obtain ⟨place, under, taken⟩ := collect_sharedFields.1 collected
      exact ⟨content, entries, _, outline, Or.inl inside, place, under, Version.spelledAt taken⟩
  · obtain rfl := OwnerRule.shared.inj same
    have ordered : sharedFields.Ordered [item] [("initial_shared_version", item)] :=
      ordered_sharedFields.2 (Or.inr ⟨item, rfl, rfl⟩)
    exact ⟨content, _, behind, outline, Or.inr ⟨[item], list, ordered⟩, item, rfl,
      Version.spelledAt taken⟩

end OwnerRule

namespace Owner

theorem spelled_ofBytes {payload : Bytes} {since : Version}
    (decoded : ofBytes payload = .ok (.ruled (.shared since))) :
    ∃ content rest entries behind, RecordOutline payload [("Shared", content)] rest ∧
      OwnerRule.sharedFields.Offers content entries behind ∧
      Under "initial_shared_version" entries (SpelledAt · since.number) := by
  rcases ofBytes_iff.1 decoded with ⟨_, _, impossible⟩ | ⟨rule, ruleDecoded, same⟩
  · exact Owner.noConfusion impossible
  · obtain rfl := Owner.ruled.inj same
    obtain ⟨rest, read, _⟩ := Codec.decode_eq_ok.1 ruleDecoded
    obtain ⟨content, entries, behind, outline, offers, spelled⟩ := OwnerRule.spelled_ofText read
    exact ⟨content, rest, entries, behind, outline, offers, spelled⟩

theorem not_text {members : List WrittenMember} {payload rest : Bytes} {name : String}
    (builds : Builds members payload) : readFound payload ≠ .ok (.text name, rest) := by
  intro text
  obtain ⟨_, _, _, ⟨_, read, _⟩, _⟩ := builds.outline []
  rw [List.append_nil, text] at read
  exact Found.noConfusion (ok_pair_inj read).1

section

variable {member : WrittenMember} {payload : Bytes}

theorem ofBytes_shared_iff {texts : List (String × Bytes)} (builds : Builds [member] payload)
    (named : member.name = "Shared") (shown : OwnerRule.sharedFields.Shows texts member.value)
    (owner : Owner) : ofBytes payload = .ok owner ↔ ∃ since, owner = .ruled (.shared since) ∧
      Under "initial_shared_version" texts (CounterText · since.number) := by
  simp only [ofBytes_iff, decode_string_iff, OwnerRule.decode_shared_iff builds named shown]
  constructor
  · rintro (⟨_, ⟨_, text, _⟩, _⟩ | ⟨_, ⟨since, rfl, spelled⟩, same⟩)
    · exact absurd text (not_text builds)
    · exact ⟨since, same, spelled⟩
  · rintro ⟨since, same, spelled⟩
    exact Or.inr ⟨_, ⟨since, rfl, spelled⟩, same⟩

theorem decode_shared_iff {members : List WrittenMember} (builds : Builds [member] payload)
    (named : member.name = "Shared") (inside : Builds members member.value) (owner : Owner) :
    codec.decode payload = .ok owner ↔ ∃ since, owner = .ruled (.shared since) ∧
      Under "initial_shared_version" (members.map WrittenMember.pair)
        (CounterText · since.number) := by
  have rules := fun rule => @OwnerRule.decode_sharedMembers_iff _ _ _ builds named inside rule
  simp only [Codec.decode_eq_ok] at rules ⊢
  constructor
  · rintro ⟨rest, read, ended⟩
    rcases ofText_iff.1 read with ⟨_, text, _⟩ | ⟨rule, ruleRead, same⟩
    · exact absurd text (not_text builds)
    · obtain ⟨since, rfl, spelled⟩ := (rules rule).1 ⟨rest, ruleRead, ended⟩
      exact ⟨since, same, spelled⟩
  · rintro ⟨since, same, spelled⟩
    obtain ⟨rest, ruleRead, ended⟩ := (rules _).2 ⟨since, rfl, spelled⟩
    exact ⟨rest, ofText_iff.2 (Or.inr ⟨_, ruleRead, same⟩), ended⟩

end

theorem writes_shared (since : Version) :
    ∃ member texts, Builds [member] (toBytes (.ruled (.shared since))) ∧ member.name = "Shared" ∧
      OwnerRule.sharedFields.Shows texts member.value ∧
      Under "initial_shared_version" texts (· = naturalBytes since.number.toNat) :=
  ⟨.ofValue "Shared" (OwnerRule.sharedFields.toValue since), _, builds_recordText _, rfl,
    Fields.shows_encode OwnerRule.sharedFields OwnerRule.sharedName since, _, rfl,
    bytes_ofNatural since.number⟩

end Owner

/-- Versions are read from the spellings of a number and from nothing else, and so are the counters
of records; each is written as the number. -/
theorem Counter.spellings :
    (∀ payload version, (Boundary.decode Version.codec payload).outcome = .ok version ↔
      ∃ gap text space, payload = gap ++ (text ++ space) ∧ Blank gap ∧ Blank space ∧
        CounterText text version.number) ∧
    (∀ version, (Boundary.encode Version.codec version).outcome =
      .ok (naturalBytes version.number.toNat)) ∧
    CountsUnder "epoch" EpochChange.fields EpochChange.codec EpochChange.epoch
      EpochChange.OtherTexts ∧
    CountsUnder "version" ObjectRef.fields ObjectRef.codec (fun object => object.version.number)
      ObjectRef.OtherTexts ∧
    (∀ payload since, (Boundary.decodeOwner payload).outcome = .ok (.ruled (.shared since)) →
      ∃ content rest entries behind, RecordOutline payload [("Shared", content)] rest ∧
        OwnerRule.sharedFields.Offers content entries behind ∧
        Under "initial_shared_version" entries (SpelledAt · since.number)) ∧
    (∀ member payload, Builds [member] payload → member.name = "Shared" → ∀ owner,
      (∀ texts, OwnerRule.sharedFields.Shows texts member.value →
        ((Boundary.decodeOwner payload).outcome = .ok owner ↔
          ∃ since, owner = .ruled (.shared since) ∧
            Under "initial_shared_version" texts (CounterText · since.number))) ∧
      ∀ members, Builds members member.value →
        ((Boundary.decode Owner.codec payload).outcome = .ok owner ↔
          ∃ since, owner = .ruled (.shared since) ∧
            Under "initial_shared_version" (members.map WrittenMember.pair)
              (CounterText · since.number))) ∧
    ∀ since, ∃ member texts, Builds [member] (Owner.toBytes (.ruled (.shared since))) ∧
      member.name = "Shared" ∧ OwnerRule.sharedFields.Shows texts member.value ∧
      Under "initial_shared_version" texts (· = naturalBytes since.number.toNat) := by
  refine ⟨?_, ?_, EpochChange.countsUnder, ObjectRef.countsUnder, ?_, ?_, Owner.writes_shared⟩
  · intro payload version
    rw [Boundary.decode_eq_ok, Version.decode_iff]
  · intro version
    exact congrArg Except.ok (bytes_ofNatural version.number)
  · intro payload since decoded
    exact Owner.spelled_ofBytes (Boundary.decodeOwner_eq_ok.1 decoded)
  · intro member payload builds named owner
    refine ⟨?_, ?_⟩
    · intro texts shown
      rw [Boundary.decodeOwner_eq_ok, Owner.ofBytes_shared_iff builds named shown]
    · intro members inside
      rw [Boundary.decode_eq_ok, Owner.decode_shared_iff builds named inside]

def sharedSinceSeven : WrittenMember :=
  .ofValue "Shared" (.record [("initial_shared_version", .text "+007")])

theorem Counter.seven_with_plus :
    (Boundary.decode Version.codec (stringText "+007")).outcome = .ok ⟨7⟩ ∧
      (Boundary.decode Owner.codec (recordText [sharedSinceSeven])).outcome =
        .ok (.ruled (.shared ⟨7⟩)) := by
  obtain ⟨versions, _, _, _, _, shared, _⟩ := Counter.spellings
  have spells : DigitsFor ['0', '0', '7'] 7 := ⟨by simp, by simp [Char.isDigit], rfl⟩
  have spelled : CounterText (stringText "+007") 7 :=
    .quoted (denotes_stringText "+007") (Or.inr rfl) spells
  refine ⟨?_, ?_⟩
  · exact (versions _ ⟨7⟩).2 ⟨[], stringText "+007", [], (List.append_nil _).symm, blank_nil, blank_nil,
      spelled⟩
  · obtain ⟨members, inside, pairs⟩ :=
      builds_bytes [("initial_shared_version", .text "+007")]
    have read := (shared sharedSinceSeven _ (builds_recordText _) rfl (.ruled (.shared ⟨7⟩))).2 members
      inside
    refine read.2 ⟨⟨7⟩, rfl, ?_⟩
    rw [pairs]
    exact ⟨_, rfl, spelled⟩

end LedgerWire

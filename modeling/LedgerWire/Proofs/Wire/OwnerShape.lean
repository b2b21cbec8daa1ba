import LedgerWire.Proofs.Wire.Boundary
import LedgerWire.Proofs.Wire.Owner

/-!
The decoder of owners that looks at the first byte, against the one that looks at the shape of the
value: every text that the second takes is taken by the first, with the same result. What the first
takes besides are shared objects whose fields are given as a list.
-/

namespace LedgerWire

open Json

theorem isSpace_of_isBlank {byte : UInt8} (blank : isBlank byte = true) :
    Ascii.isSpace byte = true := by
  simp only [isBlank, Bool.or_eq_true, decide_eq_true_eq] at blank
  rcases blank with ((same | same) | same) | same <;> rw [same] <;> rfl

theorem find_of_skipBlanks {bytes tail : Bytes} {byte : UInt8}
    (shape : skipBlanks bytes = byte :: tail) (notSpace : Ascii.isSpace byte = false) :
    (bytes.find? fun byte => !Ascii.isSpace byte) = some byte := by
  induction bytes with
  | nil => simp [skipBlanks] at shape
  | cons first rest ih =>
      by_cases blank : isBlank first = true
      · have space := isSpace_of_isBlank blank
        rw [skipBlanks, List.dropWhile_cons_of_pos blank] at shape
        rw [List.find?_cons_of_neg (by simp [space])]
        exact ih shape
      · rw [skipBlanks, List.dropWhile_cons_of_neg blank] at shape
        rw [(List.cons.inj shape).1]
        exact List.find?_cons_of_pos (by simp [notSpace])

theorem Version.reads {depth : Nat} {text : Bytes} {version : Version}
    (taken : Takes (Version.codec.ofText depth) text version) :
    ∃ value, Takes (readValue depth) text value := by
  rcases taken with ⟨rest, read⟩
  obtain ⟨number, counted, _⟩ := Codec.refine_ofText_iff.1 read
  obtain ⟨found, foundRead, visited⟩ := Codec.scalar_ofText_iff.1 counted
  cases found with
  | number value => exact ⟨.number value, rest, readValue_scalar depth foundRead nofun nofun⟩
  | text content => exact ⟨.text content, rest, readValue_scalar depth foundRead nofun nofun⟩
  | null | boolean | list | record => simp [Counter.visit, wrongType] at visited

namespace OwnerRule

theorem codec_begins {depth : Nat} {text rest : Bytes} {rule : OwnerRule}
    (read : codec.ofText depth text = .ok (rule, rest)) :
    ∃ inside, readFound text = .ok (.record, inside) := by
  rcases codec_ofText_iff.1 read with members | ⟨since, _, _, _, _, ⟨inside, found, _⟩, _⟩
  · obtain ⟨_, _, _, _, _, ⟨inside, found, _⟩, _⟩ := memberCodec_ofText_iff.1 members
    exact ⟨inside, found⟩
  · exact ⟨inside, found⟩

theorem readsInOrder_iff {depth : Nat} {text rest : Bytes} {since : Version} :
    ReadsInOrder depth text rest since ↔
      ∃ item, readValue depth text = .ok (.record [("Shared", .list [item])], rest) ∧
        Version.codec.ofValue item = .ok since := by
  constructor
  · rintro ⟨inner, content, sameDepth, outline, low, place, behind, sameInner, list, taken⟩
    obtain ⟨item, itemRead⟩ := Version.reads taken
    have accepted := (Version.lawful.coherent.agrees low place item itemRead since).1 taken
    have contentRead := readValue_oneItem_iff.2 ⟨low, place, sameInner, list, itemRead⟩
    exact ⟨item, readValue_oneMember_iff.2 ⟨inner, content, sameDepth, outline, behind, contentRead⟩,
      accepted⟩
  · rintro ⟨item, read, accepted⟩
    obtain ⟨inner, content, sameDepth, outline, behind, contentRead⟩ := readValue_oneMember_iff.1 read
    obtain ⟨low, place, sameInner, list, itemRead⟩ := readValue_oneItem_iff.1 contentRead
    have taken := (Version.lawful.coherent.agrees low place item itemRead since).2 accepted
    exact ⟨inner, content, sameDepth, outline, low, place, behind, sameInner, list, taken⟩

end OwnerRule

namespace Owner

/-- Payloads that hold a shared object whose one field is given as a list. -/
def SharedInOrder (bytes : Bytes) (since : Version) : Prop :=
  ∃ item, Value.ofBytes bytes = .ok (.record [("Shared", .list [item])]) ∧
    Version.codec.ofValue item = .ok since

theorem decode_string_iff {bytes : Bytes} {name : String} :
    Codec.string.decode bytes = .ok name ↔
      ∃ rest, readFound bytes = .ok (.text name, rest) ∧ skipBlanks rest = [] := by
  simp only [Codec.decode_eq_ok, Codec.string, Codec.ofString, Codec.scalar_ofText_iff]
  constructor
  · rintro ⟨rest, ⟨found, read, visited⟩, ended⟩
    cases found with
    | text content =>
        rw [Except.ok.inj visited] at read
        exact ⟨rest, read, ended⟩
    | null | boolean | number | list | record => simp [wrongType] at visited
  · rintro ⟨rest, read, ended⟩
    exact ⟨rest, ⟨.text name, read, rfl⟩, ended⟩

theorem ofBytes_iff {bytes : Bytes} {owner : Owner} :
    ofBytes bytes = .ok owner ↔
      (∃ name, Codec.string.decode bytes = .ok name ∧ owner = .named name) ∨
        ∃ rule, OwnerRule.codec.decode bytes = .ok rule ∧ owner = .ruled rule := by
  constructor
  · intro read
    unfold ofBytes at read
    split at read
    · obtain ⟨name, decoded, same⟩ := map_eq_ok.1 (mapError_eq_ok.1 read)
      exact Or.inl ⟨name, decoded, same.symm⟩
    · obtain ⟨rule, decoded, same⟩ := map_eq_ok.1 (mapError_eq_ok.1 read)
      exact Or.inr ⟨rule, decoded, same.symm⟩
    · simp at read
  · rintro (⟨name, decoded, same⟩ | ⟨rule, decoded, same⟩)
    · obtain ⟨rest, found, _⟩ := decode_string_iff.1 decoded
      obtain ⟨tail, shape, _⟩ := readFound_text_iff.1 found
      have first : (bytes.find? fun byte => !Ascii.isSpace byte) = some 0x22 :=
        find_of_skipBlanks shape (by decide)
      rw [ofBytes, first, decoded, same]
      rfl
    · obtain ⟨rest, read, _⟩ := Codec.decode_eq_ok.1 decoded
      obtain ⟨inside, found⟩ := OwnerRule.codec_begins read
      have first : (bytes.find? fun byte => !Ascii.isSpace byte) = some 0x7B :=
        find_of_skipBlanks (readFound_record_iff.1 found) (by decide)
      rw [ofBytes, first, decoded, same]
      rfl

theorem ofBytes_iff_decode {bytes : Bytes} {owner : Owner} :
    ofBytes bytes = .ok owner ↔
      codec.decode bytes = .ok owner ∨
        ∃ since, owner = .ruled (.shared since) ∧ SharedInOrder bytes since := by
  simp only [ofBytes_iff, decode_string_iff]
  simp only [Codec.decode_eq_ok, ofText_iff, OwnerRule.codec_ofText_iff,
    OwnerRule.readsInOrder_iff, SharedInOrder, Value.ofBytes, readDocument_eq_ok]
  constructor
  · rintro (⟨name, ⟨rest, found, ended⟩, same⟩ |
      ⟨rule, ⟨rest, members | ⟨since, sameRule, item, read, accepted⟩, ended⟩, same⟩)
    · exact Or.inl ⟨rest, Or.inl ⟨name, found, same⟩, ended⟩
    · exact Or.inl ⟨rest, Or.inr ⟨rule, members, same⟩, ended⟩
    · exact Or.inr ⟨since, by rw [same, sameRule], item, ⟨rest, read, ended⟩, accepted⟩
  · rintro (⟨rest, ⟨name, found, same⟩ | ⟨rule, members, same⟩, ended⟩ |
      ⟨since, same, item, ⟨rest, read, ended⟩, accepted⟩)
    · exact Or.inl ⟨name, ⟨rest, found, ended⟩, same⟩
    · exact Or.inr ⟨rule, ⟨rest, Or.inl members, ended⟩, same⟩
    · exact Or.inr ⟨.shared since, ⟨rest, Or.inr ⟨since, rfl, item, read, accepted⟩, ended⟩, same⟩

theorem decode_ne_of_sharedInOrder {bytes : Bytes} {since : Version} {owner : Owner}
    (inOrder : SharedInOrder bytes since) : codec.decode bytes ≠ .ok owner := by
  rcases inOrder with ⟨item, parsed, _⟩
  intro decoded
  have accepted := (lawful.coherent.decode_iff_ofValue parsed).1 decoded
  simp [codec, ruleOfMembers, Arm.named, OwnerRule.memberArms, OwnerRule.arms, Arm.holding,
    Arm.withMembers, wrongType] at accepted

/-- The two decoders of owners agree on a payload, whatever it is, unless it holds a shared object
whose field is given as a list. -/
theorem decoders_agree_iff (bytes : Bytes) :
    (∀ owner, ofBytes bytes = .ok owner ↔ (Boundary.decode codec bytes).outcome = .ok owner) ↔
      ¬ ∃ since, SharedInOrder bytes since := by
  simp only [Boundary.decode_eq_ok]
  constructor
  · rintro agree ⟨since, inOrder⟩
    have taken := ofBytes_iff_decode.2 (Or.inr ⟨since, rfl, inOrder⟩)
    exact decode_ne_of_sharedInOrder inOrder ((agree _).1 taken)
  · intro never owner
    rw [ofBytes_iff_decode]
    constructor
    · rintro (decoded | ⟨since, _, inOrder⟩)
      · exact decoded
      · exact absurd ⟨since, inOrder⟩ never
    · exact Or.inl

theorem decoders_part_on_list :
    ¬ ∀ owner, ofBytes (Value.record [("Shared", .list [Version.codec.toValue ⟨5⟩])]).bytes =
        .ok owner ↔
      (Boundary.decode codec (Value.record [("Shared", .list [Version.codec.toValue ⟨5⟩])]).bytes).outcome
        = .ok owner := by
  have exact : (Value.record [("Shared", .list [Version.codec.toValue ⟨5⟩])]).Exact :=
    ⟨⟨Version.writesExact ⟨5⟩ trivial, trivial⟩, trivial⟩
  have inOrder : SharedInOrder (Value.record [("Shared", .list [Version.codec.toValue ⟨5⟩])]).bytes ⟨5⟩ :=
    ⟨_, Value.ofBytes_bytes _ exact (by decide), Version.lawful.inverts ⟨5⟩⟩
  intro agree
  have decoded := (agree _).1 (ofBytes_iff_decode.2 (Or.inr ⟨_, rfl, inOrder⟩))
  exact decode_ne_of_sharedInOrder inOrder (Boundary.decode_eq_ok.1 decoded)

end Owner

end LedgerWire

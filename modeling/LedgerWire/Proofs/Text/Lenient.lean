import LedgerWire.Proofs.Text.Utf8

/-!
Lenient decoding: characters where the bytes have them, and one replacement character for each
longest stretch that only begins one, or for a byte that begins none.
-/

namespace LedgerWire.Utf8

def Begins (bytes : Bytes) : Prop := ∃ value, bytes <+: encodeChar value

/-- A stretch of bytes, with others behind it, that stands for no character. It begins one, unless it
is a single byte, and with more of the bytes it would not. -/
structure Broken (stretch behind : Bytes) : Prop where
  some : stretch ≠ []
  noChar : ∀ value, ¬ encodeChar value <+: stretch ++ behind
  begins : Begins stretch ∨ stretch.length = 1
  longest : ∀ longer, longer <+: stretch ++ behind → Begins longer → longer.length ≤ stretch.length

inductive Replaced : Bytes → List Char → Prop
  | nil : Replaced [] []
  | char {behind : Bytes} {text : List Char} (value : Char) (later : Replaced behind text) :
      Replaced (encodeChar value ++ behind) (value :: text)
  | broken {stretch behind : Bytes} {text : List Char} (broken : Broken stretch behind)
      (later : Replaced behind text) : Replaced (stretch ++ behind) ('\uFFFD' :: text)

/-! How characters begin. -/

theorem Begins.form {bytes : Bytes} (begins : Begins bytes) : ∃ whole, Form whole ∧ bytes <+: whole := by
  obtain ⟨value, inside⟩ := begins
  exact ⟨encodeChar value, form_encodeChar value, inside⟩

theorem begins_pair {first second : UInt8} (lower : 0xE0 ≤ first.toNat) (upper : first.toNat ≤ 0xF4)
    (fits : isSecond first second = true) : Begins [first, second] := by
  by_cases three : first.toNat ≤ 0xEF
  · exact ⟨joinThree first second 0x80, [0x80], (encodeChar_joinThree lower three fits rfl).symm⟩
  · exact ⟨joinFour first second 0x80 0x80, [0x80, 0x80],
      (encodeChar_joinFour (by omega) upper fits rfl rfl).symm⟩

theorem begins_triple {first second third : UInt8} (lower : 0xF0 ≤ first.toNat)
    (upper : first.toNat ≤ 0xF4) (fits : isSecond first second = true) (tail : isTail third = true) :
    Begins [first, second, third] :=
  ⟨joinFour first second third 0x80, [0x80], (encodeChar_joinFour lower upper fits tail rfl).symm⟩

theorem second_of_begins {first second : UInt8} {more : Bytes}
    (begins : Begins (first :: second :: more)) :
    0xC2 ≤ first.toNat ∧ first.toNat ≤ 0xDF ∧ isTail second = true ∨
      0xE0 ≤ first.toNat ∧ first.toNat ≤ 0xF4 ∧ isSecond first second = true := by
  obtain ⟨whole, form, inside⟩ := begins.form
  cases form with
  | one small => simp at inside
  | two lower upper tail =>
      simp only [List.cons_prefix_cons] at inside
      obtain ⟨rfl, rfl, _⟩ := inside
      exact Or.inl ⟨lower, upper, tail⟩
  | three lower upper fits tail =>
      simp only [List.cons_prefix_cons] at inside
      obtain ⟨rfl, rfl, _⟩ := inside
      exact Or.inr ⟨lower, by omega, fits⟩
  | four lower upper fits thirdTail fourthTail =>
      simp only [List.cons_prefix_cons] at inside
      obtain ⟨rfl, rfl, _⟩ := inside
      exact Or.inr ⟨by omega, upper, fits⟩

theorem third_of_begins {first second third : UInt8} {more : Bytes}
    (begins : Begins (first :: second :: third :: more)) : isTail third = true := by
  obtain ⟨whole, form, inside⟩ := begins.form
  cases form with
  | one small => simp at inside
  | two lower upper tail => simp at inside
  | three lower upper fits tail =>
      simp only [List.cons_prefix_cons] at inside
      obtain ⟨rfl, rfl, rfl, _⟩ := inside
      exact tail
  | four lower upper fits thirdTail fourthTail =>
      simp only [List.cons_prefix_cons] at inside
      obtain ⟨rfl, rfl, rfl, _⟩ := inside
      exact thirdTail

theorem fourth_of_begins {first second third fourth : UInt8} {more : Bytes}
    (begins : Begins (first :: second :: third :: fourth :: more)) : isTail fourth = true := by
  obtain ⟨whole, form, inside⟩ := begins.form
  cases form with
  | one small => simp at inside
  | two lower upper tail => simp at inside
  | three lower upper fits tail => simp at inside
  | four lower upper fits thirdTail fourthTail =>
      simp only [List.cons_prefix_cons] at inside
      obtain ⟨rfl, rfl, rfl, rfl, _⟩ := inside
      exact fourthTail

/-! Faults as broken stretches. -/

theorem noChar_of_segmentAt {first : UInt8} {rest : Bytes}
    (other : ∀ value, segmentAt first rest ≠ .char value) (value : Char) :
    ¬ encodeChar value <+: first :: rest := by
  rintro ⟨behind, shape⟩
  obtain ⟨head, tail, written, segment⟩ := segmentAt_encodeChar value behind
  rw [written, List.cons_append] at shape
  obtain ⟨rfl, rfl⟩ := List.cons.inj shape
  exact other value segment

theorem Broken.before {stretch behind : Bytes} {next : UInt8} (some : stretch ≠ [])
    (noChar : ∀ value, ¬ encodeChar value <+: stretch ++ next :: behind)
    (begins : Begins stretch ∨ stretch.length = 1)
    (apart : ∀ more, ¬ Begins (stretch ++ next :: more)) : Broken stretch (next :: behind) := by
  refine ⟨some, noChar, begins, fun longer inside begins => ?_⟩
  refine Nat.le_of_not_lt fun more => ?_
  obtain ⟨tail, rfl⟩ := List.prefix_of_prefix_length_le (List.prefix_append stretch _) inside
    (Nat.le_of_lt more)
  have tailInside := (List.prefix_append_right_inj stretch).1 inside
  cases tail with
  | nil => simp at more
  | cons other others =>
      obtain rfl := (List.cons_prefix_cons.1 tailInside).1
      exact apart others begins

section

variable {first second third fourth : UInt8} {rest : Bytes}

theorem broken_first (noChar : ∀ value, ¬ encodeChar value <+: first :: second :: rest)
    (apart : ∀ more, ¬ Begins (first :: second :: more)) : Broken [first] (second :: rest) :=
  .before (by simp) noChar (Or.inr rfl) apart

theorem broken_alone (noChar : ∀ value, ¬ encodeChar value <+: first :: rest)
    (noLead : ¬ (0xC2 ≤ first.toNat ∧ first.toNat ≤ 0xF4)) : Broken [first] rest := by
  cases rest with
  | nil =>
      exact ⟨by simp, noChar, Or.inr rfl, fun longer inside _ => by simpa using inside.length_le⟩
  | cons second rest =>
      refine broken_first noChar fun more begins => ?_
      rcases second_of_begins begins with ⟨lower, upper, _⟩ | ⟨lower, upper, _⟩
      · exact noLead ⟨lower, by omega⟩
      · exact noLead ⟨by omega, upper⟩

theorem broken_at_second (noChar : ∀ value, ¬ encodeChar value <+: first :: second :: rest)
    (lower : 0xE0 ≤ first.toNat) (apart : ¬ isSecond first second = true) :
    Broken [first] (second :: rest) := by
  refine broken_first noChar fun more begins => ?_
  rcases second_of_begins begins with ⟨_, upper, _⟩ | ⟨_, _, fits⟩
  · omega
  · exact apart fits

theorem broken_at_third (noChar : ∀ value, ¬ encodeChar value <+: first :: second :: third :: rest)
    (lower : 0xE0 ≤ first.toNat) (upper : first.toNat ≤ 0xF4) (fits : isSecond first second = true)
    (apart : ¬ isTail third = true) : Broken [first, second] (third :: rest) :=
  .before (by simp) noChar (Or.inl (begins_pair lower upper fits))
    fun _ begins => apart (third_of_begins begins)

theorem broken_at_fourth
    (noChar : ∀ value, ¬ encodeChar value <+: first :: second :: third :: fourth :: rest)
    (lower : 0xF0 ≤ first.toNat) (upper : first.toNat ≤ 0xF4) (fits : isSecond first second = true)
    (thirdTail : isTail third = true) (apart : ¬ isTail fourth = true) :
    Broken [first, second, third] (fourth :: rest) :=
  .before (by simp) noChar (Or.inl (begins_triple lower upper fits thirdTail))
    fun _ begins => apart (fourth_of_begins begins)

end

theorem broken_of_ite {condition : Prop} [Decidable condition] {found : Segment} {own width : Nat}
    (segment : (if condition then found else .broken own) = .broken width) :
    condition ∧ found = .broken width ∨ ¬ condition ∧ own = width := by
  by_cases holds : condition
  · rw [if_pos holds] at segment
    exact Or.inl ⟨holds, segment⟩
  · rw [if_neg holds] at segment
    exact Or.inr ⟨holds, Segment.broken.inj segment⟩

theorem broken_of_segmentAt {first : UInt8} {rest : Bytes} {width : Nat}
    (segment : segmentAt first rest = .broken width) :
    ∃ tail behind, rest = tail ++ behind ∧ tail.length + 1 = width ∧ Broken (first :: tail) behind := by
  have noChar : ∀ value, ¬ encodeChar value <+: first :: rest :=
    noChar_of_segmentAt fun value => by rw [segment]; exact Segment.noConfusion
  unfold segmentAt at segment
  simp only [UInt8.lt_iff_toNat_lt, UInt8.le_iff_toNat_le, UInt8.reduceToNat, Bool.and_eq_true,
    decide_eq_true_eq] at segment
  split at segment
  · simp at segment
  split at segment
  · rename_i lead
    cases rest with
    | nil => simp at segment
    | cons second rest =>
        rcases broken_of_ite segment with ⟨_, segment⟩ | ⟨apart, isOne⟩
        · simp at segment
        · refine ⟨[], _, rfl, isOne, broken_first noChar fun more begins => ?_⟩
          rcases second_of_begins begins with ⟨_, _, tail⟩ | ⟨lower, _, _⟩
          · exact apart tail
          · omega
  split at segment
  · rename_i lead
    cases rest with
    | nil => simp at segment
    | cons second rest =>
        rcases broken_of_ite segment with ⟨fits, segment⟩ | ⟨apart, isOne⟩
        · cases rest with
          | nil => simp at segment
          | cons third rest =>
              rcases broken_of_ite segment with ⟨_, segment⟩ | ⟨apart, isTwo⟩
              · simp at segment
              · exact ⟨[second], _, rfl, isTwo, broken_at_third noChar lead.1 (by omega) fits apart⟩
        · exact ⟨[], _, rfl, isOne, broken_at_second noChar lead.1 apart⟩
  rcases broken_of_ite segment with ⟨lead, segment⟩ | ⟨noLead, isOne⟩
  · cases rest with
    | nil => simp at segment
    | cons second rest =>
        rcases broken_of_ite segment with ⟨fits, segment⟩ | ⟨apart, isOne⟩
        · cases rest with
          | nil => simp at segment
          | cons third rest =>
              rcases broken_of_ite segment with ⟨thirdTail, segment⟩ | ⟨apart, isTwo⟩
              · cases rest with
                | nil => simp at segment
                | cons fourth rest =>
                    rcases broken_of_ite segment with ⟨_, segment⟩ | ⟨apart, isThree⟩
                    · simp at segment
                    · exact ⟨[second, third], _, rfl, isThree,
                        broken_at_fourth noChar lead.1 lead.2 fits thirdTail apart⟩
              · exact ⟨[second], _, rfl, isTwo,
                  broken_at_third noChar (by omega) lead.2 fits apart⟩
        · exact ⟨[], _, rfl, isOne, broken_at_second noChar (by omega) apart⟩
  · exact ⟨[], rest, rfl, isOne, broken_alone noChar (by omega)⟩

theorem begins_of_cut {first : UInt8} {rest : Bytes} (segment : segmentAt first rest = .cut) :
    rest.length ≤ 2 ∧ (Begins (first :: rest) ∨ (first :: rest).length = 1) := by
  unfold segmentAt at segment
  simp only [UInt8.lt_iff_toNat_lt, UInt8.le_iff_toNat_le, UInt8.reduceToNat, Bool.and_eq_true,
    decide_eq_true_eq] at segment
  split at segment
  · simp at segment
  split at segment
  · cases rest with
    | nil => exact ⟨by simp, Or.inr rfl⟩
    | cons second rest =>
        obtain ⟨_, segment⟩ := found_of_ite segment nofun
        simp at segment
  split at segment
  · rename_i lead
    cases rest with
    | nil => exact ⟨by simp, Or.inr rfl⟩
    | cons second rest =>
        obtain ⟨fits, segment⟩ := found_of_ite segment nofun
        cases rest with
        | nil => exact ⟨by simp, Or.inl (begins_pair lead.1 (by omega) fits)⟩
        | cons third rest =>
            obtain ⟨_, segment⟩ := found_of_ite segment nofun
            simp at segment
  obtain ⟨lead, segment⟩ := found_of_ite segment nofun
  cases rest with
  | nil => exact ⟨by simp, Or.inr rfl⟩
  | cons second rest =>
      obtain ⟨fits, segment⟩ := found_of_ite segment nofun
      cases rest with
      | nil => exact ⟨by simp, Or.inl (begins_pair (by omega) lead.2 fits)⟩
      | cons third rest =>
          obtain ⟨thirdTail, segment⟩ := found_of_ite segment nofun
          cases rest with
          | nil => exact ⟨by simp, Or.inl (begins_triple lead.1 lead.2 fits thirdTail)⟩
          | cons fourth rest =>
              obtain ⟨_, segment⟩ := found_of_ite segment nofun
              simp at segment

theorem broken_of_cut {first : UInt8} {rest : Bytes} (segment : segmentAt first rest = .cut) :
    Broken (first :: rest) [] := by
  refine ⟨by simp, fun value => ?_, (begins_of_cut segment).2, fun longer inside _ => ?_⟩
  · rw [List.append_nil]
    exact noChar_of_segmentAt (fun value => by rw [segment]; exact Segment.noConfusion) value
  · rw [List.append_nil] at inside
    exact inside.length_le

/-! The whole input. -/

theorem segmentsAfter_all {rest : Bytes} : ∀ {skip : Nat}, rest.length ≤ skip →
    segmentsAfter skip rest = [] := by
  induction rest with
  | nil => intro skip _; rfl
  | cons first rest ih =>
      intro skip enough
      cases skip with
      | zero => simp at enough
      | succ skip => exact ih (Nat.le_of_succ_le_succ enough)

theorem replaced_shown : ∀ bytes : Bytes, Replaced bytes ((segments bytes).map Segment.shown) := by
  intro bytes
  -- By induction on the length: what is behind the first segment is shorter.
  generalize size : bytes.length = length
  induction length using Nat.strongRecOn generalizing bytes with
  | ind length ih =>
      cases bytes with
      | nil => exact .nil
      | cons first rest =>
          have shorter : ∀ tail behind, rest = tail ++ behind →
              Replaced behind ((segments behind).map Segment.shown) := by
            intro tail behind split
            refine ih behind.length ?_ behind rfl
            rw [← size, split, List.length_cons, List.length_append]
            omega
          rw [segments, segmentsAfter]
          cases segment : segmentAt first rest with
          | char value =>
              obtain ⟨tail, behind, written, split⟩ := encodeChar_of_segmentAt segment
              have later := Replaced.char value (shorter tail behind split)
              rw [written, List.cons_append, ← split] at later
              simpa [Segment.shown, Segment.width, written, split, segmentsAfter_length] using later
          | broken width =>
              obtain ⟨tail, behind, split, isWidth, broken⟩ := broken_of_segmentAt segment
              have later := Replaced.broken broken (shorter tail behind split)
              rw [List.cons_append, ← split] at later
              simpa [Segment.shown, Segment.width, ← isWidth, split, segmentsAfter_length] using later
          | cut =>
              have later := Replaced.broken (broken_of_cut segment) .nil
              have none : segmentsAfter 2 rest = [] := segmentsAfter_all (begins_of_cut segment).1
              simpa [Segment.shown, Segment.width, none] using later

theorem Broken.length_le {stretch behind other others : Bytes} (broken : Broken stretch behind)
    (otherBroken : Broken other others) (same : stretch ++ behind = other ++ others) :
    stretch.length ≤ other.length := by
  rcases broken.begins with begins | isOne
  · exact otherBroken.longest stretch (by rw [← same]; exact List.prefix_append ..) begins
  · rw [isOne]
    exact List.length_pos_iff.2 otherBroken.some

theorem Replaced.unique {bytes : Bytes} {text other : List Char} (replaced : Replaced bytes text)
    (replacedToo : Replaced bytes other) : text = other := by
  induction replaced generalizing other with
  | nil =>
      generalize none : ([] : Bytes) = bytes at replacedToo
      cases replacedToo with
      | nil => rfl
      | char value later =>
          obtain ⟨first, tail, written, _⟩ := encodeChar_tails value
          simp [written] at none
      | broken broken later => exact absurd (List.append_eq_nil_iff.1 none.symm).1 broken.some
  | @char behind text value later ih =>
      generalize same : encodeChar value ++ behind = bytes at replacedToo
      cases replacedToo with
      | nil =>
          obtain ⟨first, tail, written, _⟩ := encodeChar_tails value
          simp [written] at same
      | char second laterToo =>
          obtain ⟨rfl, rfl⟩ := encodeChar_append_inj same
          rw [ih laterToo]
      | broken broken laterToo =>
          exact absurd ⟨behind, same⟩ (broken.noChar value)
  | @broken stretch behind text broken later ih =>
      generalize same : stretch ++ behind = bytes at replacedToo
      cases replacedToo with
      | nil => exact absurd (List.append_eq_nil_iff.1 same).1 broken.some
      | char second laterToo => exact absurd ⟨_, same.symm⟩ (broken.noChar second)
      | broken otherBroken laterToo =>
          have sameLength := Nat.le_antisymm (broken.length_le otherBroken same)
            (otherBroken.length_le broken same.symm)
          obtain ⟨rfl, rfl⟩ := List.append_inj same sameLength
          rw [ih laterToo]

theorem replaced_iff {bytes : Bytes} {text : String} :
    Replaced bytes text.toList ↔ decodeLenient bytes = text := by
  have shown := replaced_shown bytes
  constructor
  · intro replaced
    rw [decodeLenient, shown.unique replaced, String.ofList_toList]
  · intro same
    rw [← same, decodeLenient, String.toList_ofList]
    exact shown

end LedgerWire.Utf8

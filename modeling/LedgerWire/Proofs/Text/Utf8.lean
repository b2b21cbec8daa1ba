import LedgerWire.Text.Ascii

/-!
Characters read back from the bytes they are written as, for strict decoding, which takes no other
bytes for text.
-/

namespace LedgerWire.Utf8

theorem toNat_toUInt8 {code : Nat} (small : code < 256) : code.toUInt8.toNat = code := by
  simp only [Nat.toUInt8_eq, UInt8.toNat_ofNat']
  omega

theorem toNat_cases (value : Char) :
    value.toNat < 0xD800 ∨ 0xDFFF < value.toNat ∧ value.toNat < 0x110000 := value.valid

theorem isTail_encoded (code : Nat) : isTail (0x80 + code % 64).toUInt8 = true := by
  have small : 0x80 + code % 64 < 256 := by omega
  simp only [isTail, UInt8.le_iff_toNat_le, toNat_toUInt8 small, Bool.and_eq_true,
    decide_eq_true_eq]
  refine ⟨?_, ?_⟩
  · change 0x80 ≤ _
    omega
  · change _ ≤ 0xBF
    omega

theorem segmentAt_one (first : UInt8) (rest : Bytes) (small : first.toNat < 0x80) :
    segmentAt first rest = .char (Char.ofNat first.toNat) := by
  have isAscii : first < 0x80 := small
  simp [segmentAt, isAscii]

theorem segmentAt_two (first second : UInt8) (rest : Bytes) (lower : 0xC2 ≤ first.toNat)
    (upper : first.toNat ≤ 0xDF) (tail : isTail second = true) :
    segmentAt first (second :: rest) = .char (joinTwo first second) := by
  have notAscii : ¬ first < 0x80 := by
    change ¬ first.toNat < 0x80
    omega
  have lead : (0xC2 ≤ first && first ≤ 0xDF) = true := by
    simp only [Bool.and_eq_true, decide_eq_true_eq]
    exact ⟨lower, upper⟩
  simp [segmentAt, notAscii, lead, tail]

theorem segmentAt_three (first second third : UInt8) (rest : Bytes)
    (lower : 0xE0 ≤ first.toNat) (upper : first.toNat ≤ 0xEF)
    (fits : isSecond first second = true) (tail : isTail third = true) :
    segmentAt first (second :: third :: rest) = .char (joinThree first second third) := by
  have notAscii : ¬ first < 0x80 := by
    change ¬ first.toNat < 0x80
    omega
  have notTwo : (0xC2 ≤ first && first ≤ 0xDF) = false := by
    simp only [Bool.and_eq_false_iff, decide_eq_false_iff_not]
    exact Or.inr (by change ¬ first.toNat ≤ 0xDF; omega)
  have lead : (0xE0 ≤ first && first ≤ 0xEF) = true := by
    simp only [Bool.and_eq_true, decide_eq_true_eq]
    exact ⟨lower, upper⟩
  simp [segmentAt, notAscii, notTwo, lead, fits, tail]

theorem segmentAt_four (first second third fourth : UInt8) (rest : Bytes)
    (lower : 0xF0 ≤ first.toNat) (upper : first.toNat ≤ 0xF4)
    (fits : isSecond first second = true) (thirdTail : isTail third = true)
    (fourthTail : isTail fourth = true) :
    segmentAt first (second :: third :: fourth :: rest) =
      .char (joinFour first second third fourth) := by
  have notAscii : ¬ first < 0x80 := by
    change ¬ first.toNat < 0x80
    omega
  have notTwo : (0xC2 ≤ first && first ≤ 0xDF) = false := by
    simp only [Bool.and_eq_false_iff, decide_eq_false_iff_not]
    exact Or.inr (by change ¬ first.toNat ≤ 0xDF; omega)
  have notThree : (0xE0 ≤ first && first ≤ 0xEF) = false := by
    simp only [Bool.and_eq_false_iff, decide_eq_false_iff_not]
    exact Or.inr (by change ¬ first.toNat ≤ 0xEF; omega)
  have lead : (0xF0 ≤ first && first ≤ 0xF4) = true := by
    simp only [Bool.and_eq_true, decide_eq_true_eq]
    exact ⟨lower, upper⟩
  simp [segmentAt, notAscii, notTwo, notThree, lead, fits, thirdTail, fourthTail]

theorem isSecond_three (value : Char) (lower : 0x800 ≤ value.toNat) (upper : value.toNat < 0x10000) :
    isSecond (0xE0 + value.toNat / 4096).toUInt8 (0x80 + value.toNat / 64 % 64).toUInt8 = true := by
  have valid := toNat_cases value
  have firstValue : (0xE0 + value.toNat / 4096).toUInt8.toNat = 0xE0 + value.toNat / 4096 :=
    toNat_toUInt8 (by omega)
  have secondValue : (0x80 + value.toNat / 64 % 64).toUInt8.toNat = 0x80 + value.toNat / 64 % 64 :=
    toNat_toUInt8 (by omega)
  simp only [isSecond, isTail, ← UInt8.toNat_inj, UInt8.le_iff_toNat_le, firstValue, secondValue,
    UInt8.reduceToNat]
  repeat' split
  all_goals
    simp only [Bool.and_eq_true, decide_eq_true_eq]
    omega

theorem isSecond_four (value : Char) (lower : 0x10000 ≤ value.toNat) :
    isSecond (0xF0 + value.toNat / 262144).toUInt8 (0x80 + value.toNat / 4096 % 64).toUInt8 = true := by
  have valid := toNat_cases value
  have firstValue : (0xF0 + value.toNat / 262144).toUInt8.toNat = 0xF0 + value.toNat / 262144 :=
    toNat_toUInt8 (by omega)
  have secondValue : (0x80 + value.toNat / 4096 % 64).toUInt8.toNat =
      0x80 + value.toNat / 4096 % 64 := toNat_toUInt8 (by omega)
  simp only [isSecond, isTail, ← UInt8.toNat_inj, UInt8.le_iff_toNat_le, firstValue, secondValue,
    UInt8.reduceToNat]
  repeat' split
  all_goals
    simp only [Bool.and_eq_true, decide_eq_true_eq]
    omega

theorem segmentAt_encodeChar (value : Char) (rest : Bytes) :
    ∃ first tail, encodeChar value = first :: tail ∧ segmentAt first (tail ++ rest) = .char value := by
  have valid := toNat_cases value
  unfold encodeChar
  by_cases one : value.toNat < 0x80
  · refine ⟨value.toNat.toUInt8, [], by simp [one], ?_⟩
    rw [segmentAt_one _ _ (by rw [toNat_toUInt8 (by omega)]; exact one),
      toNat_toUInt8 (by omega), Char.ofNat_toNat]
  by_cases two : value.toNat < 0x800
  · refine ⟨(0xC0 + value.toNat / 64).toUInt8, [(0x80 + value.toNat % 64).toUInt8],
      by simp [one, two], ?_⟩
    have firstValue : (0xC0 + value.toNat / 64).toUInt8.toNat = 0xC0 + value.toNat / 64 :=
      toNat_toUInt8 (by omega)
    rw [List.singleton_append, segmentAt_two _ _ _ (by omega) (by omega) (isTail_encoded _), joinTwo,
      firstValue, toNat_toUInt8 (by omega)]
    have joined : (0xC0 + value.toNat / 64) % 32 * 64 + (0x80 + value.toNat % 64) % 64 =
        value.toNat := by omega
    rw [joined, Char.ofNat_toNat]
  by_cases three : value.toNat < 0x10000
  · refine ⟨(0xE0 + value.toNat / 4096).toUInt8,
      [(0x80 + value.toNat / 64 % 64).toUInt8, (0x80 + value.toNat % 64).toUInt8],
      by simp [one, two, three], ?_⟩
    have firstValue : (0xE0 + value.toNat / 4096).toUInt8.toNat = 0xE0 + value.toNat / 4096 :=
      toNat_toUInt8 (by omega)
    rw [List.cons_append, List.singleton_append,
      segmentAt_three _ _ _ _ (by omega) (by omega) (isSecond_three value (by omega) three)
        (isTail_encoded _),
      joinThree, firstValue, toNat_toUInt8 (by omega), toNat_toUInt8 (by omega)]
    have joined : (0xE0 + value.toNat / 4096) % 16 * 4096 +
        (0x80 + value.toNat / 64 % 64) % 64 * 64 + (0x80 + value.toNat % 64) % 64 =
        value.toNat := by omega
    rw [joined, Char.ofNat_toNat]
  · refine ⟨(0xF0 + value.toNat / 262144).toUInt8,
      [(0x80 + value.toNat / 4096 % 64).toUInt8, (0x80 + value.toNat / 64 % 64).toUInt8,
        (0x80 + value.toNat % 64).toUInt8], by simp [one, two, three], ?_⟩
    have firstValue : (0xF0 + value.toNat / 262144).toUInt8.toNat = 0xF0 + value.toNat / 262144 :=
      toNat_toUInt8 (by omega)
    rw [List.cons_append, List.cons_append, List.singleton_append,
      segmentAt_four _ _ _ _ _ (by omega) (by omega) (isSecond_four value (by omega))
        (isTail_encoded _) (isTail_encoded _),
      joinFour, firstValue, toNat_toUInt8 (by omega), toNat_toUInt8 (by omega),
      toNat_toUInt8 (by omega)]
    have joined : (0xF0 + value.toNat / 262144) % 8 * 262144 +
        (0x80 + value.toNat / 4096 % 64) % 64 * 4096 +
        (0x80 + value.toNat / 64 % 64) % 64 * 64 + (0x80 + value.toNat % 64) % 64 =
        value.toNat := by omega
    rw [joined, Char.ofNat_toNat]

theorem segmentsAfter_length (skipped rest : Bytes) :
    segmentsAfter skipped.length (skipped ++ rest) = segments rest := by
  induction skipped with
  | nil => rfl
  | cons first tail ih => simpa only [List.length_cons, List.cons_append, segmentsAfter] using ih

theorem segments_encodeChar (value : Char) (rest : Bytes) :
    segments (encodeChar value ++ rest) = .char value :: segments rest := by
  obtain ⟨first, tail, encoded, segment⟩ := segmentAt_encodeChar value rest
  have width : (Segment.char value).width - 1 = tail.length := by
    simp only [Segment.width, encoded, List.length_cons, Nat.add_sub_cancel]
  rw [encoded, List.cons_append, segments, segmentsAfter, segment, width, segmentsAfter_length]

theorem collect_segments_encodeChars (text : List Char) : ∀ offset,
    collect offset (segments (encodeChars text)) = .ok text := by
  induction text with
  | nil => intro offset; rfl
  | cons value rest ih =>
      intro offset
      have split : encodeChars (value :: rest) = encodeChar value ++ encodeChars rest := by
        simp [encodeChars]
      rw [split, segments_encodeChar, collect, ih]

/-- The bytes of one character, by their number. -/
inductive Form : Bytes → Prop
  | one {first : UInt8} (small : first.toNat < 0x80) : Form [first]
  | two {first second : UInt8} (lower : 0xC2 ≤ first.toNat) (upper : first.toNat ≤ 0xDF)
      (tail : isTail second = true) : Form [first, second]
  | three {first second third : UInt8} (lower : 0xE0 ≤ first.toNat) (upper : first.toNat ≤ 0xEF)
      (fits : isSecond first second = true) (tail : isTail third = true) :
      Form [first, second, third]
  | four {first second third fourth : UInt8} (lower : 0xF0 ≤ first.toNat)
      (upper : first.toNat ≤ 0xF4) (fits : isSecond first second = true)
      (thirdTail : isTail third = true) (fourthTail : isTail fourth = true) :
      Form [first, second, third, fourth]

theorem form_encodeChar (value : Char) : Form (encodeChar value) := by
  have valid := toNat_cases value
  unfold encodeChar
  by_cases one : value.toNat < 0x80
  · simp only [one, if_true]
    exact .one (by rw [toNat_toUInt8 (by omega)]; exact one)
  by_cases two : value.toNat < 0x800
  · simp only [one, two, if_true, if_false]
    have first : (0xC0 + value.toNat / 64).toUInt8.toNat = 0xC0 + value.toNat / 64 :=
      toNat_toUInt8 (by omega)
    exact .two (by omega) (by omega) (isTail_encoded _)
  by_cases three : value.toNat < 0x10000
  · simp only [one, two, three, if_true, if_false]
    have first : (0xE0 + value.toNat / 4096).toUInt8.toNat = 0xE0 + value.toNat / 4096 :=
      toNat_toUInt8 (by omega)
    exact .three (by omega) (by omega) (isSecond_three value (by omega) three) (isTail_encoded _)
  · simp only [one, two, three, if_false]
    have first : (0xF0 + value.toNat / 262144).toUInt8.toNat = 0xF0 + value.toNat / 262144 :=
      toNat_toUInt8 (by omega)
    exact .four (by omega) (by omega) (isSecond_four value (by omega)) (isTail_encoded _)
      (isTail_encoded _)

theorem isTail_iff {byte : UInt8} : isTail byte = true ↔ 0x80 ≤ byte.toNat ∧ byte.toNat ≤ 0xBF := by
  simp only [isTail, Bool.and_eq_true, decide_eq_true_eq, UInt8.le_iff_toNat_le, UInt8.reduceToNat]

theorem bounds_of_isSecond {first second : UInt8} (fits : isSecond first second = true) :
    0x80 ≤ second.toNat ∧ second.toNat ≤ 0xBF ∧ (first.toNat = 0xE0 → 0xA0 ≤ second.toNat) ∧
      (first.toNat = 0xED → second.toNat ≤ 0x9F) ∧ (first.toNat = 0xF0 → 0x90 ≤ second.toNat) ∧
      (first.toNat = 0xF4 → second.toNat ≤ 0x8F) := by
  simp only [isSecond, ← UInt8.toNat_inj, UInt8.le_iff_toNat_le, UInt8.reduceToNat] at fits
  repeat' split at fits
  all_goals
    simp only [isTail_iff, Bool.and_eq_true, decide_eq_true_eq] at fits
    omega

theorem isTail_of_isSecond {first second : UInt8} (fits : isSecond first second = true) :
    isTail second = true := by
  have bounds := bounds_of_isSecond fits
  exact isTail_iff.2 ⟨bounds.1, bounds.2.1⟩

theorem encodeChar_cases (value : Char) :
    value.toNat < 0x80 ∧ encodeChar value = [value.toNat.toUInt8] ∨
      ∃ first tail, encodeChar value = first :: tail ∧ 0xC0 ≤ first.toNat ∧
        ∀ byte ∈ tail, isTail byte = true := by
  by_cases small : value.toNat < 0x80
  · exact Or.inl ⟨small, by simp [encodeChar, small]⟩
  have several : (encodeChar value).length ≠ 1 := by
    simp only [encodeChar, small, if_false]
    repeat' split
    all_goals simp
  have form := form_encodeChar value
  generalize encodeChar value = bytes at form several
  refine Or.inr ?_
  cases form with
  | one small => exact absurd rfl several
  | two lower upper tail => exact ⟨_, _, rfl, by omega, by simpa using tail⟩
  | three lower upper fits tail =>
      exact ⟨_, _, rfl, by omega, by simpa using ⟨isTail_of_isSecond fits, tail⟩⟩
  | four lower upper fits thirdTail fourthTail =>
      exact ⟨_, _, rfl, by omega, by simpa using ⟨isTail_of_isSecond fits, thirdTail, fourthTail⟩⟩

theorem encodeChars_eq_cons {text : List Char} {byte : UInt8} {bytes : Bytes}
    (plain : byte.toNat < 0x80) (same : encodeChars text = byte :: bytes) :
    ∃ rest, text = Char.ofNat byte.toNat :: rest ∧ encodeChars rest = bytes := by
  cases text with
  | nil => simp [encodeChars] at same
  | cons value rest =>
      rw [encodeChars, List.flatMap_cons] at same
      rcases encodeChar_cases value with ⟨small, written⟩ | ⟨first, tail, written, large, _⟩
      · rw [written] at same
        obtain ⟨isFirst, isRest⟩ := List.cons.inj same
        rw [← isFirst, toNat_toUInt8 (by omega), Char.ofNat_toNat]
        exact ⟨rest, rfl, isRest⟩
      · rw [written] at same
        have isFirst := (List.cons.inj same).1
        rw [isFirst] at large
        omega

theorem encodeChars_plain {text : List Char}
    (plain : ∀ byte ∈ encodeChars text, byte.toNat < 0x80) :
    (encodeChars text).map (fun byte => Char.ofNat byte.toNat) = text := by
  induction text with
  | nil => rfl
  | cons value rest ih =>
      have split : encodeChars (value :: rest) = encodeChar value ++ encodeChars rest := by
        simp [encodeChars]
      rw [split] at plain ⊢
      have others := ih fun byte member => plain byte (List.mem_append_right _ member)
      rcases encodeChar_cases value with ⟨small, written⟩ | ⟨first, tail, written, large, _⟩
      · rw [written, List.map_append, others, List.map_singleton, toNat_toUInt8 (by omega),
          Char.ofNat_toNat]
        rfl
      · have small := plain first (by rw [written]; simp)
        omega

theorem decode_encode (text : String) : decode (encode text) = .ok text := by
  simp only [decode, decodeChars, encode, collect_segments_encodeChars, Except.map,
    String.ofList_toList]

/-! And the other way: bytes that are read as characters are what the characters are written as. -/

theorem toNat_ofNat {code : Nat} (valid : code < 0xD800 ∨ 0xDFFF < code ∧ code < 0x110000) :
    (Char.ofNat code).toNat = code := by
  rw [Char.ofNat, dif_pos valid]
  rfl

theorem toUInt8_eq_iff {code : Nat} {byte : UInt8} (small : code < 256) :
    code.toUInt8 = byte ↔ code = byte.toNat := by
  rw [← UInt8.toNat_inj, toNat_toUInt8 small]

theorem encodeChar_tails (value : Char) :
    ∃ first tails, encodeChar value = first :: tails ∧ ∀ byte ∈ tails, isTail byte = true := by
  rcases encodeChar_cases value with ⟨_, written⟩ | ⟨first, tails, written, _, areTails⟩
  · exact ⟨_, [], written, by simp⟩
  · exact ⟨first, tails, written, areTails⟩

theorem encodeChars_eq_nil {text : List Char} : encodeChars text = [] ↔ text = [] := by
  cases text with
  | nil => simp [encodeChars]
  | cons value others =>
      obtain ⟨first, tails, written, _⟩ := encodeChar_tails value
      simp [encodeChars, written]

theorem encodeChars_split {text : List Char} {byte : UInt8} {bytes : Bytes}
    (same : encodeChars text = byte :: bytes) : ∃ value others tails, text = value :: others ∧
      encodeChar value = byte :: tails ∧ (∀ tail ∈ tails, isTail tail = true) ∧
      bytes = tails ++ encodeChars others := by
  cases text with
  | nil => simp [encodeChars] at same
  | cons value others =>
      obtain ⟨first, tails, written, areTails⟩ := encodeChar_tails value
      rw [encodeChars, List.flatMap_cons, written] at same
      obtain ⟨isFirst, isBytes⟩ := List.cons.inj same
      exact ⟨value, others, tails, rfl, by rw [written, isFirst], areTails, isBytes.symm⟩

theorem encodeChar_append_inj {first second : Char} {behind others : Bytes}
    (same : encodeChar first ++ behind = encodeChar second ++ others) :
    first = second ∧ behind = others := by
  have segmented := congrArg segments same
  rw [segments_encodeChar, segments_encodeChar] at segmented
  have sameChar := Segment.char.inj (List.cons.inj segmented).1
  rw [sameChar] at same
  exact ⟨sameChar, List.append_cancel_left same⟩

theorem encodeChar_behind_tails {value : Char} {tails behind : Bytes} {text : List Char}
    (areTails : ∀ byte ∈ tails, isTail byte = true)
    (same : encodeChar value ++ behind = tails ++ encodeChars text) :
    tails = [] ∧ ∃ others, text = value :: others ∧ behind = encodeChars others := by
  cases tails with
  | cons byte tails =>
      have isByte := isTail_iff.1 (areTails byte List.mem_cons_self)
      rcases encodeChar_cases value with ⟨small, written⟩ | ⟨first, tail, written, large, _⟩
      · rw [written] at same
        have isFirst := (List.cons.inj same).1
        rw [toUInt8_eq_iff (by omega)] at isFirst
        omega
      · rw [written] at same
        have isFirst := (List.cons.inj same).1
        rw [isFirst] at large
        omega
  | nil =>
      cases text with
      | nil =>
          obtain ⟨first, others, written, _⟩ := encodeChar_tails value
          simp [written, encodeChars] at same
      | cons other others =>
          obtain ⟨sameChar, sameBehind⟩ := encodeChar_append_inj same
          exact ⟨rfl, others, by rw [sameChar], sameBehind⟩

theorem encodeChar_joinTwo {first second : UInt8} (lower : 0xC2 ≤ first.toNat)
    (upper : first.toNat ≤ 0xDF) (tail : isTail second = true) :
    encodeChar (joinTwo first second) = [first, second] := by
  rw [isTail_iff] at tail
  have code := @toNat_ofNat (first.toNat % 32 * 64 + second.toNat % 64) (by omega)
  rw [joinTwo, encodeChar]
  simp only [code]
  rw [if_neg (by omega), if_pos (by omega), List.cons.injEq, List.cons.injEq,
    toUInt8_eq_iff (by omega), toUInt8_eq_iff (by omega)]
  exact ⟨by omega, by omega, rfl⟩

theorem encodeChar_joinThree {first second third : UInt8} (lower : 0xE0 ≤ first.toNat)
    (upper : first.toNat ≤ 0xEF) (fits : isSecond first second = true) (tail : isTail third = true) :
    encodeChar (joinThree first second third) = [first, second, third] := by
  have bounds := bounds_of_isSecond fits
  rw [isTail_iff] at tail
  have code := @toNat_ofNat
    (first.toNat % 16 * 4096 + second.toNat % 64 * 64 + third.toNat % 64) (by omega)
  rw [joinThree, encodeChar]
  simp only [code]
  rw [if_neg (by omega), if_neg (by omega), if_pos (by omega), List.cons.injEq, List.cons.injEq,
    List.cons.injEq, toUInt8_eq_iff (by omega), toUInt8_eq_iff (by omega), toUInt8_eq_iff (by omega)]
  exact ⟨by omega, by omega, by omega, rfl⟩

theorem encodeChar_joinFour {first second third fourth : UInt8} (lower : 0xF0 ≤ first.toNat)
    (upper : first.toNat ≤ 0xF4) (fits : isSecond first second = true)
    (thirdTail : isTail third = true) (fourthTail : isTail fourth = true) :
    encodeChar (joinFour first second third fourth) = [first, second, third, fourth] := by
  have bounds := bounds_of_isSecond fits
  rw [isTail_iff] at thirdTail fourthTail
  have code := @toNat_ofNat
    (first.toNat % 8 * 262144 + second.toNat % 64 * 4096 + third.toNat % 64 * 64 +
      fourth.toNat % 64) (by omega)
  rw [joinFour, encodeChar]
  simp only [code]
  rw [if_neg (by omega), if_neg (by omega), if_neg (by omega), List.cons.injEq, List.cons.injEq,
    List.cons.injEq, List.cons.injEq, toUInt8_eq_iff (by omega), toUInt8_eq_iff (by omega),
    toUInt8_eq_iff (by omega), toUInt8_eq_iff (by omega)]
  exact ⟨by omega, by omega, by omega, by omega, rfl⟩

theorem found_of_ite {condition : Prop} [Decidable condition] {found result : Segment} {width : Nat}
    (segment : (if condition then found else .broken width) = result)
    (apart : result ≠ .broken width) : condition ∧ found = result := by
  by_cases holds : condition
  · rw [if_pos holds] at segment
    exact ⟨holds, segment⟩
  · rw [if_neg holds] at segment
    exact absurd segment.symm apart

theorem encodeChar_of_segmentAt {first : UInt8} {rest : Bytes} {value : Char}
    (segment : segmentAt first rest = .char value) :
    ∃ tail behind, encodeChar value = first :: tail ∧ rest = tail ++ behind := by
  unfold segmentAt at segment
  simp only [UInt8.lt_iff_toNat_lt, UInt8.le_iff_toNat_le, UInt8.reduceToNat, Bool.and_eq_true,
    decide_eq_true_eq] at segment
  split at segment
  · have code : (Char.ofNat first.toNat).toNat = first.toNat := toNat_ofNat (by omega)
    refine ⟨[], rest, ?_, rfl⟩
    rw [← Segment.char.inj segment, encodeChar, code, if_pos (by omega), Nat.toUInt8_eq,
      UInt8.ofNat_toNat]
  split at segment
  · rename_i lead
    cases rest with
    | nil => simp at segment
    | cons second rest =>
        obtain ⟨tail, segment⟩ := found_of_ite segment nofun
        rw [← Segment.char.inj segment]
        exact ⟨[second], rest, encodeChar_joinTwo lead.1 lead.2 tail, rfl⟩
  split at segment
  · rename_i lead
    cases rest with
    | nil => simp at segment
    | cons second rest =>
        obtain ⟨fits, segment⟩ := found_of_ite segment nofun
        cases rest with
        | nil => simp at segment
        | cons third rest =>
            obtain ⟨tail, segment⟩ := found_of_ite segment nofun
            rw [← Segment.char.inj segment]
            exact ⟨[second, third], rest, encodeChar_joinThree lead.1 lead.2 fits tail, rfl⟩
  obtain ⟨lead, segment⟩ := found_of_ite segment nofun
  cases rest with
  | nil => simp at segment
  | cons second rest =>
      obtain ⟨fits, segment⟩ := found_of_ite segment nofun
      cases rest with
      | nil => simp at segment
      | cons third rest =>
          obtain ⟨thirdTail, segment⟩ := found_of_ite segment nofun
          cases rest with
          | nil => simp at segment
          | cons fourth rest =>
              obtain ⟨fourthTail, segment⟩ := found_of_ite segment nofun
              rw [← Segment.char.inj segment]
              exact ⟨[second, third, fourth], rest,
                encodeChar_joinFour lead.1 lead.2 fits thirdTail fourthTail, rfl⟩

theorem encodeChars_of_collect {text : List Char} : ∀ {bytes : Bytes} {offset : Nat},
    collect offset (segments bytes) = .ok text → bytes = encodeChars text := by
  induction text with
  | nil =>
      intro bytes offset collected
      cases bytes with
      | nil => rfl
      | cons first rest =>
          rw [segments, segmentsAfter] at collected
          cases segment : segmentAt first rest with
          | char value =>
              rw [segment, collect] at collected
              split at collected <;> simp at collected
          | broken width => simp [segment, collect] at collected
          | cut => simp [segment, collect] at collected
  | cons value text ih =>
      intro bytes offset collected
      cases bytes with
      | nil => simp [segments, segmentsAfter, collect] at collected
      | cons first rest =>
          rw [segments, segmentsAfter] at collected
          cases segment : segmentAt first rest with
          | char other =>
              obtain ⟨tail, behind, written, isRest⟩ := encodeChar_of_segmentAt segment
              have width : (Segment.char other).width - 1 = tail.length := by
                simp only [Segment.width, written, List.length_cons, Nat.add_sub_cancel]
              rw [segment, width, isRest, segmentsAfter_length, collect] at collected
              split at collected
              · rename_i others later
                obtain ⟨sameValue, sameText⟩ := List.cons.inj (Except.ok.inj collected)
                rw [sameText] at later
                rw [encodeChars, List.flatMap_cons, ← sameValue, written, isRest, ih later]
                rfl
              · simp at collected
          | broken width => simp [segment, collect] at collected
          | cut => simp [segment, collect] at collected

theorem decode_eq_ok {bytes : Bytes} {text : String} : decode bytes = .ok text ↔ bytes = encode text := by
  constructor
  · intro decoded
    rw [decode, decodeChars] at decoded
    cases collected : collect 0 (segments bytes) with
    | error fault => simp [collected, Except.map] at decoded
    | ok chars =>
        rw [collected] at decoded
        rw [← Except.ok.inj decoded, encode, String.toList_ofList]
        exact encodeChars_of_collect collected
  · intro same
    rw [same, decode_encode]

end LedgerWire.Utf8

import LedgerWire.Proofs.Identifier
import Mathlib.Data.List.DropRight

/-!
The comparison of identifiers as texts. It knows one prefix and takes digits as they stand, and still
never takes two identifiers for one; two texts of one identifier it can tell apart only where one of
them has capitals or the other prefix.
-/

namespace LedgerWire

namespace Identifier

variable {width : Nat}

def digitChars (digits : Bytes) : List Char := digits.map fun byte => Char.ofNat byte.toNat

theorem digitChars_inj {left right : Bytes} : digitChars left = digitChars right ↔ left = right := by
  refine List.map_inj_right ?_
  intro first second same
  rw [← UInt8.toNat_inj, ← Ascii.toNat_ofNat first, ← Ascii.toNat_ofNat second, same]

theorem dropZeros_digitChars (digits : Bytes) :
    (digitChars digits).dropWhile (· = '0') = digitChars (digits.dropWhile (· = 0x30)) := by
  rw [digitChars, List.dropWhile_map]
  simp only [Function.comp_def, charOfNat_eq_zero]
  rfl

theorem not_mem_digitChars {digits : Bytes} (areDigits : ∀ digit ∈ digits, Hex.IsDigit digit) :
    'X' ∉ digitChars digits := by
  intro member
  obtain ⟨digit, inside, isMark⟩ := List.mem_map.1 member
  exact (digit_ne_mark (areDigits digit inside)).2 isMark

/-! How an accepted text is written: bare digits, or digits behind one of the two prefixes. -/

inductive WrittenAs : String → Bytes → Prop
  | bare {text : String} {digits : Bytes} (shape : text.toList = digitChars digits) :
      WrittenAs text digits
  | marked {text : String} {digits : Bytes} (shape : text.toList = '0' :: 'x' :: digitChars digits) :
      WrittenAs text digits
  | markedInCapitals {text : String} {digits : Bytes}
      (shape : text.toList = '0' :: 'X' :: digitChars digits) : WrittenAs text digits

theorem writtenAs_bareText (text : String) (rest : Bytes) (shape : (bareText text).toList = digitChars rest) :
    WrittenAs text rest := by
  unfold bareText at shape
  split at shape
  · rename_i digits isText
    rw [String.toList_ofList] at shape
    exact .marked (by rw [isText, shape])
  · rename_i digits isText
    rw [String.toList_ofList] at shape
    exact .markedInCapitals (by rw [isText, shape])
  · exact .bare shape

theorem writtenAs_of_ofHex {text : String} {identifier : Identifier width}
    (read : ofHex text = .ok identifier) :
    ∃ digits, WrittenAs text digits ∧ (∀ digit ∈ digits, Hex.IsDigit digit) ∧
      Hex.number digits = identifier.number ∧
      identifier.digits.dropWhile (· = 0x30) = (digits.map Hex.lower).dropWhile (· = 0x30) := by
  obtain ⟨areDigits, _, same⟩ := ofHex_iff_number.1 read
  have chars : (bareText text).toList = digitChars (Utf8.encode (bareText text)) := by
    rw [digitChars, ← toList_text, Ascii.text_encode]
    intro byte member
    have small := toNat_of_isDigit (areDigits byte member)
    omega
  exact ⟨_, writtenAs_bareText text _ chars, areDigits, same.symm, dropZeros_digits read⟩

theorem digit_ne_colon {digit : UInt8} (isDigit : Hex.IsDigit digit) :
    Char.ofNat digit.toNat ≠ ':' := by
  refine forall_digits isDigit ?_
  decide

theorem no_colon_of_ofHex {text : String} {identifier : Identifier width}
    (read : ofHex text = .ok identifier) : ':' ∉ text.toList := by
  obtain ⟨digits, written, areDigits, _⟩ := writtenAs_of_ofHex read
  have noColon : ':' ∉ digitChars digits := by
    intro member
    obtain ⟨digit, inside, isColon⟩ := List.mem_map.1 member
    exact digit_ne_colon (areDigits digit inside) isColon
  cases written with
  | bare shape | marked shape | markedInCapitals shape =>
      rw [shape]
      simpa using noColon

theorem looseForm_marked {text : String} {rest : List Char} (shape : text.toList = '0' :: 'x' :: rest) :
    looseForm text = rest.dropWhile (· = '0') := by
  simp only [looseForm, shape]

theorem looseForm_markedInCapitals {text : String} {rest : List Char}
    (shape : text.toList = '0' :: 'X' :: rest) : looseForm text = 'X' :: rest := by
  simp only [looseForm, shape]
  rfl

theorem looseForm_bare {text : String} {digits : Bytes}
    (areDigits : ∀ digit ∈ digits, Hex.IsDigit digit) (shape : text.toList = digitChars digits) :
    looseForm text = digitChars (digits.dropWhile (· = 0x30)) := by
  have noMark := no_mark areDigits
  rw [toList_text] at noMark
  rw [← dropZeros_digitChars, ← shape]
  unfold looseForm
  split
  · rename_i rest isText
    exact absurd (shape.symm.trans isText) (noMark rest).1
  · rfl

/-- What is compared: the digits without the zeros in front, or all of them behind the letter that is
taken for one of the text. -/
theorem looseForm_of_writtenAs {text : String} {digits : Bytes} (written : WrittenAs text digits)
    (areDigits : ∀ digit ∈ digits, Hex.IsDigit digit) :
    looseForm text = digitChars (digits.dropWhile (· = 0x30)) ∨
      looseForm text = 'X' :: digitChars digits := by
  cases written with
  | bare shape => exact Or.inl (looseForm_bare areDigits shape)
  | marked shape => exact Or.inl (by rw [looseForm_marked shape, dropZeros_digitChars])
  | markedInCapitals shape => exact Or.inr (looseForm_markedInCapitals shape)

theorem eq_of_looselyEqual {left right : String} {first second : Identifier width}
    (readLeft : ofHex left = .ok first) (readRight : ofHex right = .ok second)
    (loose : looselyEqual left right = true) : first = second := by
  obtain ⟨leftDigits, leftWritten, leftAre, leftNumber, _⟩ := writtenAs_of_ofHex readLeft
  obtain ⟨rightDigits, rightWritten, rightAre, rightNumber, _⟩ := writtenAs_of_ofHex readRight
  have same : looseForm left = looseForm right := by simpa [looselyEqual] using loose
  -- Where the letter is kept on one side only, the other would have to have it among its digits.
  have apart : ∀ {digits others : Bytes}, (∀ digit ∈ digits, Hex.IsDigit digit) →
      digitChars (digits.dropWhile (· = 0x30)) ≠ 'X' :: digitChars others := by
    intro digits others areDigits impossible
    have inside : 'X' ∈ digitChars (digits.dropWhile (· = 0x30)) := by simp [impossible]
    have fewer := fun digit member => areDigits digit ((List.dropWhile_sublist (· = 0x30)).subset member)
    exact not_mem_digitChars fewer inside
  rw [← number_inj, ← leftNumber, ← rightNumber]
  rcases looseForm_of_writtenAs leftWritten leftAre with leftForm | leftForm
  · rcases looseForm_of_writtenAs rightWritten rightAre with rightForm | rightForm
    · rw [leftForm, rightForm, digitChars_inj] at same
      rw [← Hex.number_dropZeros leftDigits, same, Hex.number_dropZeros]
    · exact absurd (leftForm.symm.trans (same.trans rightForm)) (apart leftAre)
  · rcases looseForm_of_writtenAs rightWritten rightAre with rightForm | rightForm
    · exact absurd (rightForm.symm.trans (same.symm.trans leftForm)) (apart rightAre)
    · rw [leftForm, rightForm, List.cons.injEq, digitChars_inj] at same
      rw [same.2]

/-! Texts without capitals. -/

/-- No digit in capitals, and not the prefix in capitals. -/
def InLowercase (text : String) : Prop :=
  (∀ letter ∈ text.toList, ¬ ('A' ≤ letter ∧ letter ≤ 'F')) ∧ ¬ ['0', 'X'] <+: text.toList

theorem lower_eq_self {digit : UInt8} (isDigit : Hex.IsDigit digit)
    (small : ¬ ('A' ≤ Char.ofNat digit.toNat ∧ Char.ofNat digit.toNat ≤ 'F')) :
    Hex.lower digit = digit := by
  revert small
  refine forall_digits isDigit ?_
  decide

theorem map_lower {digits : Bytes} (areDigits : ∀ digit ∈ digits, Hex.IsDigit digit)
    (small : ∀ letter ∈ digitChars digits, ¬ ('A' ≤ letter ∧ letter ≤ 'F')) :
    digits.map Hex.lower = digits := by
  conv_rhs => rw [← List.map_id digits]
  refine List.map_congr_left fun digit member => ?_
  exact lower_eq_self (areDigits digit member) (small _ (List.mem_map_of_mem member))

theorem looseForm_of_lowercase {text : String} {identifier : Identifier width}
    (read : ofHex text = .ok identifier) (lowercase : InLowercase text) :
    looseForm text = digitChars (identifier.digits.dropWhile (· = 0x30)) := by
  obtain ⟨digits, written, areDigits, _, shown⟩ := writtenAs_of_ofHex read
  obtain ⟨small, noMark⟩ := lowercase
  have lowered : (∀ letter ∈ digitChars digits, letter ∈ text.toList) → digits.map Hex.lower = digits :=
    fun inText => map_lower areDigits fun letter member => small letter (inText letter member)
  cases written with
  | bare shape =>
      rw [looseForm_bare areDigits shape, shown, lowered (by simp [shape])]
  | marked shape =>
      rw [looseForm_marked shape, dropZeros_digitChars, shown, lowered]
      intro letter member
      simp [shape, member]
  | markedInCapitals shape =>
      rw [shape] at noMark
      exact absurd ⟨digitChars digits, rfl⟩ noMark

/-! The texts that an identifier is shown as. -/

theorem dropZeros_shortDigits (identifier : Identifier width) :
    identifier.shortDigits.dropWhile (· = 0x30) = identifier.digits.dropWhile (· = 0x30) := by
  unfold shortDigits
  split
  · rename_i noDigits
    rw [noDigits]
    rfl
  · exact List.dropWhile_idempotent _ _

theorem looseForm_shown (identifier : Identifier width) :
    ∀ text ∈ [identifier.fullText, identifier.shortText, identifier.hexText],
      looseForm text = digitChars (identifier.digits.dropWhile (· = 0x30)) := by
  have marked : ∀ digits : Bytes,
      ("0x" ++ Ascii.text digits).toList = '0' :: 'x' :: digitChars digits := by
    intro digits
    rw [String.toList_append, toList_text]
    rfl
  intro text shown
  simp only [List.mem_cons, List.not_mem_nil, or_false] at shown
  rcases shown with isFull | isShort | isHex
  · rw [isFull, fullText, looseForm_marked (marked _), dropZeros_digitChars]
  · rw [isShort, shortText_eq, looseForm_marked (marked _), dropZeros_digitChars, dropZeros_shortDigits]
  · rw [isHex, hexText, looseForm_bare (isDigit_digits identifier) (toList_text _)]

theorem eq_of_dropZeros {left right : Identifier width}
    (same : left.digits.dropWhile (· = 0x30) = right.digits.dropWhile (· = 0x30)) : left = right := by
  rw [← number_inj, ← number_digits, ← number_digits, ← Hex.number_dropZeros, same,
    Hex.number_dropZeros]

/-- Texts that compare as equal denote one identifier, and lowercase texts of one identifier compare
as equal. So do all the texts that an identifier is shown as, and none of them with one of another. -/
theorem loose_equality (width : Nat) :
    (∀ (left right : String) (first second : Identifier width), ofHex left = .ok first →
      ofHex right = .ok second →
        (looselyEqual left right = true → first = second) ∧
        (InLowercase left → InLowercase right → first = second → looselyEqual left right = true)) ∧
    (∀ identifier : Identifier width,
      ∀ text ∈ [identifier.fullText, identifier.shortText, identifier.hexText],
        ∀ other ∈ [identifier.fullText, identifier.shortText, identifier.hexText],
          looselyEqual text other = true) ∧
    ∀ first second : Identifier width, first ≠ second →
      ∀ text ∈ [first.fullText, first.shortText, first.hexText],
        ∀ other ∈ [second.fullText, second.shortText, second.hexText],
          looselyEqual text other = false := by
  refine ⟨?_, ?_, ?_⟩
  · intro left right first second readLeft readRight
    refine ⟨eq_of_looselyEqual readLeft readRight, ?_⟩
    intro leftLower rightLower same
    rw [same] at readLeft
    simp only [looselyEqual, decide_eq_true_eq, looseForm_of_lowercase readLeft leftLower,
      looseForm_of_lowercase readRight rightLower]
  · intro identifier text shown other otherShown
    simp only [looselyEqual, decide_eq_true_eq, looseForm_shown identifier text shown,
      looseForm_shown identifier other otherShown]
  · intro first second differ text shown other otherShown
    simp only [looselyEqual, decide_eq_false_iff_not, looseForm_shown first text shown,
      looseForm_shown second other otherShown, digitChars_inj]
    exact fun same => differ (eq_of_dropZeros same)

theorem loose_equality_two_bytes :
    (looselyEqual "0x00af" "af" = true ∧ looselyEqual "00aF" "af" = false) ∧
      looselyEqual "0x0001" "0x2" = false := by
  have long : ofHex "0x00af" = .ok (⟨[0x00, 0xAF], rfl⟩ : Identifier 2) := rfl
  have short : ofHex "af" = .ok (⟨[0x00, 0xAF], rfl⟩ : Identifier 2) := rfl
  obtain ⟨texts, _, shown⟩ := loose_equality 2
  have lowercase : InLowercase "0x00af" ∧ InLowercase "af" := by simp [InLowercase]
  refine ⟨⟨(texts _ _ _ _ long short).2 lowercase.1 lowercase.2 rfl, by decide⟩, ?_⟩
  exact shown ⟨[0x00, 0x01], rfl⟩ ⟨[0x00, 0x02], rfl⟩ (by decide) "0x0001" (by decide) "0x2" (by decide)

end Identifier

end LedgerWire

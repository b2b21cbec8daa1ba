import LedgerWire.Proofs.Json.Portable
import LedgerWire.Proofs.Wire.OwnerShape

/-!
Counters, which versions and epochs are, may be spelled as a number or as a text of digits. What is
read as a counter is one of these spellings of it.
-/

namespace LedgerWire

open Json

def DigitsFor (digits : List Char) (number : UInt64) : Prop :=
  digits ≠ [] ∧ (∀ digit ∈ digits, digit.isDigit = true) ∧
    Nat.ofDigitChars 10 digits 0 = number.toNat

/-- The spellings of a counter. Between quotes there may be a plus sign and zeros in front. -/
inductive CounterText : Bytes → UInt64 → Prop
  | bare {digits : List Char} {number : UInt64} (spells : DigitsFor digits number)
      (alone : digits.head? = some '0' → digits.length = 1) : CounterText (Ascii.bytes digits) number
  | quoted {literal : Bytes} {text : String} {digits : List Char} {number : UInt64}
      (denotes : Denotes literal text)
      (content : text.toList = digits ∨ text.toList = '+' :: digits)
      (spells : DigitsFor digits number) : CounterText literal number

/-! Digits between quotes. -/

theorem valueOf_from (digits : List Char) : ∀ start,
    digits.foldl (fun value digit => value * 10 + Decimal.digitValue digit) start =
      Nat.ofDigitChars 10 digits start := by
  induction digits with
  | nil => intro start; rfl
  | cons digit rest ih =>
      intro start
      rw [List.foldl_cons, ih, Nat.ofDigitChars_cons, Nat.mul_comm]
      rfl

theorem valueOf_eq (digits : List Char) :
    Decimal.valueOf digits = Nat.ofDigitChars 10 digits 0 := valueOf_from digits 0

theorem withoutPlus_cases (text : List Char) :
    text = Decimal.withoutPlus text ∨ text = '+' :: Decimal.withoutPlus text := by
  unfold Decimal.withoutPlus
  split
  · exact Or.inr rfl
  · exact Or.inl rfl

theorem withoutPlus_digits {digits : List Char} (areDigits : ∀ digit ∈ digits, digit.isDigit = true) :
    Decimal.withoutPlus digits = digits := by
  unfold Decimal.withoutPlus
  split
  · rename_i rest
    exact absurd (areDigits '+' List.mem_cons_self) (by decide)
  · rfl

theorem toUInt64_eq_iff {value : Nat} (fits : value < 0x10000000000000000) {number : UInt64} :
    value.toUInt64 = number ↔ value = number.toNat := by
  rw [← UInt64.toNat_inj, Nat.toUInt64, UInt64.toNat_ofNat']
  omega

theorem Counter.ofText?_eq_some {text : String} {number : UInt64} :
    Counter.ofText? text = some number ↔
      ∃ digits, (text.toList = digits ∨ text.toList = '+' :: digits) ∧ DigitsFor digits number := by
  have read : Counter.ofText? text = some number ↔
      DigitsFor (Decimal.withoutPlus text.toList) number := by
    simp only [ofText?, DigitsFor, Decimal.isNatural, valueOf_eq, Option.ite_none_right_eq_some,
      Bool.and_eq_true, Bool.not_eq_true', List.isEmpty_eq_false_iff, List.all_eq_true,
      decide_eq_true_eq, Option.some.injEq]
    constructor
    · rintro ⟨⟨⟨someDigits, areDigits⟩, fits⟩, same⟩
      exact ⟨someDigits, areDigits, (toUInt64_eq_iff fits).1 same⟩
    · rintro ⟨someDigits, areDigits, same⟩
      have fits : Nat.ofDigitChars 10 (Decimal.withoutPlus text.toList) 0 < 0x10000000000000000 := by
        rw [same]
        exact number.toNat_lt
      exact ⟨⟨⟨someDigits, areDigits⟩, fits⟩, (toUInt64_eq_iff fits).2 same⟩
  rw [read]
  constructor
  · intro spells
    exact ⟨_, withoutPlus_cases text.toList, spells⟩
  · rintro ⟨digits, same | same, spells⟩
    · rw [same, withoutPlus_digits spells.2.1]
      exact spells
    · rw [same]
      exact spells

/-! Numbers without a sign, a fraction and an exponent. -/

theorem Counter.visit_whole (value : Nat) (fits) :
    Counter.visit (.number (.whole value fits)) = .ok value.toUInt64 := by
  simp [visit]

theorem Counter.digits_of_visit {literal : Literal} {found : Number} {number : UInt64}
    (numbered : literal.number? = some found) (visited : Counter.visit (.number found) = .ok number) :
    literal = ⟨false, literal.whole, none, none⟩ ∧ digitsValue literal.whole = number.toNat := by
  rcases Literal.number?_cases numbered with
    ⟨fits, rfl, notNegative, isWhole⟩ | ⟨value, fits, rfl, below⟩ | ⟨value, rfl⟩
  · simp only [Literal.isWhole, Bool.and_eq_true, Option.isNone_iff_eq_none] at isWhole
    rw [visit_whole] at visited
    refine ⟨?_, (toUInt64_eq_iff (by omega)).1 (Except.ok.inj visited)⟩
    rw [← notNegative, ← isWhole.1.1, ← isWhole.1.2]
  · simp [visit, below, refuse, Codec.refuse] at visited
  · simp [visit, wrongType] at visited

theorem Counter.visit_digits {whole : Bytes} {number : UInt64}
    (same : digitsValue whole = number.toNat) :
    ∃ found, (Literal.mk false whole none none).number? = some found ∧
      Counter.visit (.number found) = .ok number := by
  have small : digitsValue whole < 0x10000000000000000 := by
    rw [same]
    exact number.toNat_lt
  refine ⟨_, Literal.number?_digits small, ?_⟩
  rw [visit_whole, (toUInt64_eq_iff small).2 same]

theorem bare_iff {bytes : Bytes} {number : UInt64} :
    WholeDigits bytes ∧ digitsValue bytes = number.toNat ↔
      ∃ digits, bytes = Ascii.bytes digits ∧ DigitsFor digits number ∧
        (digits.head? = some '0' → digits.length = 1) := by
  constructor
  · rintro ⟨whole, same⟩
    obtain ⟨digits, rfl, areDigits⟩ := chars_of_digits whole.1.2
    obtain ⟨someDigits, alone⟩ := (wholeDigits_bytes areDigits).1 whole
    exact ⟨digits, rfl, ⟨someDigits, areDigits, (digitsValue_from digits areDigits 0).symm.trans same⟩,
      alone⟩
  · rintro ⟨digits, rfl, ⟨someDigits, areDigits, same⟩, alone⟩
    exact ⟨(wholeDigits_bytes areDigits).2 ⟨someDigits, alone⟩,
      (digitsValue_from digits areDigits 0).trans same⟩

theorem literalText_digits {whole : Bytes} (digits : WholeDigits whole) :
    LiteralText whole ⟨false, whole, none, none⟩ :=
  ⟨[], [], by simp [minusText], digits, .missing, .missing⟩

/-! Counters in a text. -/

theorem CounterText.complete {text : Bytes} {number : UInt64} (spelled : CounterText text number) :
    ValueText text := by
  cases spelled with
  | bare spells alone =>
      exact .number (literalText_digits (bare_iff.2 ⟨_, rfl, spells, alone⟩).1)
  | quoted denotes _ _ => exact .string denotes.quoted

namespace Counter

theorem ofText_of_counterText {text rest : Bytes} {number : UInt64} (depth : Nat)
    (spelled : CounterText text number) (stops : Delimits rest) :
    codec.ofText depth (text ++ rest) = .ok (number, rest) := by
  rw [codec, Codec.scalar_ofText_iff]
  cases spelled with
  | bare spells alone =>
      obtain ⟨whole, same⟩ := bare_iff.2 ⟨_, rfl, spells, alone⟩
      obtain ⟨found, numbered, visited⟩ := visit_digits same
      have written := literalText_digits whole
      obtain ⟨byte, tail, shape, numeric⟩ := written.begins
      have literalRead := readLiteral_text written stops
      refine ⟨.number found, readFound_number_iff.2 ⟨byte, tail ++ rest, ?_, numeric, ?_⟩, visited⟩
      · rw [shape]
        exact skipBlanks_of_head byte _ (numeric_apart numeric).1
      · rw [shape, List.cons_append] at literalRead
        simp only [readNumber, literalRead, ok_bind, ← shape, numbered]
  | @quoted _ content _ _ denotes same spells =>
      obtain ⟨body, rfl, written⟩ := denotes
      refine ⟨.text content, readFound_text_iff.2 ⟨body ++ quote :: rest, ?_, ?_⟩, ?_⟩
      · rw [List.cons_append, List.append_assoc]
        exact skipBlanks_of_head quote _ (by decide)
      · exact readString_iff.2 ⟨body, rfl, written⟩
      · simp only [visit, ofText?_eq_some.2 ⟨_, same, spells⟩]

theorem counterText_of_ofText {depth : Nat} {place rest : Bytes} {number : UInt64}
    (read : codec.ofText depth place = .ok (number, rest)) :
    ∃ gap text, place = gap ++ (text ++ rest) ∧ Blank gap ∧ CounterText text number := by
  obtain ⟨found, foundRead, visited⟩ := Codec.scalar_ofText_iff.1 read
  obtain ⟨gap, blank, split⟩ := skipBlanks_split place
  cases found with
  | number value =>
      obtain ⟨byte, tail, shape, _, numberRead⟩ := readFound_number_iff.1 foundRead
      obtain ⟨⟨literal, after⟩, literalRead, later⟩ := bind_eq_ok.1 numberRead
      obtain ⟨text, same, fraction, exponent, written, whole, isFraction, isExponent⟩ :=
        literalText_of_readLiteral literalRead
      cases numbered : literal.number? with
      | none => simp [numbered] at later
      | some kept =>
          simp only [numbered] at later
          obtain ⟨rfl, rfl⟩ := ok_pair_inj later
          obtain ⟨plain, value⟩ := digits_of_visit numbered visited
          rw [plain] at written isFraction isExponent
          cases isFraction
          cases isExponent
          obtain ⟨digits, sameDigits, spells, alone⟩ := bare_iff.1 ⟨whole, value⟩
          refine ⟨gap, Ascii.bytes digits, ?_, blank, .bare spells alone⟩
          rw [split, shape, same, written, ← sameDigits]
          simp [minusText]
  | text content =>
      obtain ⟨tail, shape, contentRead⟩ := readFound_text_iff.1 foundRead
      obtain ⟨body, rfl, written⟩ := readString_iff.1 contentRead
      simp only [visit] at visited
      cases counted : ofText? content with
      | none => simp [counted, refuse, Codec.refuse] at visited
      | some value =>
          simp only [counted] at visited
          obtain rfl := Except.ok.inj visited
          obtain ⟨digits, same, spells⟩ := ofText?_eq_some.1 counted
          refine ⟨gap, quote :: (body ++ [quote]), ?_, blank,
            .quoted ⟨body, rfl, written⟩ same spells⟩
          rw [split, shape]
          simp
  | null | boolean | list | record => simp [visit, wrongType] at visited

theorem takes_iff (depth : Nat) {text place : Bytes} (value : ValueText text)
    (stands : Stands text place) {number : UInt64} :
    Takes (codec.ofText depth) place number ↔ CounterText text number := by
  obtain ⟨gap, rest, rfl, blank, stops⟩ := stands
  constructor
  · rintro ⟨after, read⟩
    have passed := lawful.coherent.skips depth _ _ _ read
    have sameRest := passed.unique (skipped_blank blank (value.skipped stops))
    obtain ⟨gap', spelling, split, blankToo, spelled⟩ := counterText_of_ofText read
    have here := value.skipBlanks blank rest
    rw [split, spelled.complete.skipBlanks blankToo, sameRest] at here
    rw [← List.append_cancel_right here]
    exact spelled
  · intro spelled
    have alike : Alike (gap ++ (text ++ rest)) (text ++ rest) :=
      ⟨text, value, ⟨gap, rest, rfl, blank, stops⟩, ⟨[], rest, rfl, blank_nil, stops⟩⟩
    exact (lawful.portable depth _ _ alike number).2 ⟨rest, ofText_of_counterText depth spelled stops⟩

theorem decode_iff {payload : Bytes} {number : UInt64} :
    codec.decode payload = .ok number ↔
      ∃ gap text space, payload = gap ++ (text ++ space) ∧ Blank gap ∧ Blank space ∧
        CounterText text number := by
  rw [Codec.decode_eq_ok]
  constructor
  · rintro ⟨rest, read, ended⟩
    obtain ⟨gap, text, same, blank, spelled⟩ := counterText_of_ofText read
    exact ⟨gap, text, rest, same, blank, skipBlanks_eq_nil.1 ended, spelled⟩
  · rintro ⟨gap, text, space, rfl, blank, blankToo, spelled⟩
    have stops : Delimits space := by
      have ended := delimits_blank blankToo delimits_nil
      rwa [List.append_nil] at ended
    have taken := (takes_iff depthLimit spelled.complete ⟨gap, space, rfl, blank, stops⟩).2 spelled
    have skipped := skipped_iff.1 (skipped_blank blank (spelled.complete.skipped stops))
    exact ⟨space, (lawful.coherent.skips depthLimit).rest_eq taken skipped,
      skipBlanks_eq_nil.2 blankToo⟩

end Counter

theorem CounterText.unique {text : Bytes} {first second : UInt64} (one : CounterText text first)
    (other : CounterText text second) : first = second := by
  have here := Counter.ofText_of_counterText 0 one delimits_nil
  rw [Counter.ofText_of_counterText 0 other delimits_nil] at here
  exact (ok_pair_inj here).1.symm

/-- A spelling of the number begins here, behind blanks. -/
def SpelledAt (place : Bytes) (number : UInt64) : Prop :=
  ∃ gap text rest, place = gap ++ (text ++ rest) ∧ Blank gap ∧ CounterText text number

theorem Counter.spelledAt {depth : Nat} {place : Bytes} {number : UInt64}
    (taken : Takes (Counter.codec.ofText depth) place number) : SpelledAt place number := by
  obtain ⟨rest, read⟩ := taken
  obtain ⟨gap, text, same, blank, spelled⟩ := Counter.counterText_of_ofText read
  exact ⟨gap, text, rest, same, blank, spelled⟩

theorem bytes_ofNatural (number : UInt64) : (ofNatural number).bytes = naturalBytes number.toNat := by
  have notBelow : ¬ (number.toNat : Int) < 0 := by omega
  simp [ofNatural, Number.bytes, notBelow]

/-! Versions are counters. -/

namespace Version

theorem ofText_iff {depth : Nat} {text rest : Bytes} {version : Version} :
    codec.ofText depth text = .ok (version, rest) ↔
      Counter.codec.ofText depth text = .ok (version.number, rest) := by
  rw [codec, Codec.refine_ofText_iff]
  constructor
  · rintro ⟨number, counted, same⟩
    obtain rfl := Except.ok.inj same
    exact counted
  · intro counted
    exact ⟨version.number, counted, rfl⟩

theorem takes_iff (depth : Nat) {text place : Bytes} (value : ValueText text)
    (stands : Stands text place) {version : Version} :
    Takes (codec.ofText depth) place version ↔ CounterText text version.number := by
  rw [← Counter.takes_iff depth value stands]
  exact exists_congr fun rest => ofText_iff

theorem spelledAt {depth : Nat} {place : Bytes} {version : Version}
    (taken : Takes (codec.ofText depth) place version) : SpelledAt place version.number := by
  obtain ⟨rest, read⟩ := taken
  exact Counter.spelledAt ⟨rest, ofText_iff.1 read⟩

theorem decode_iff {payload : Bytes} {version : Version} :
    codec.decode payload = .ok version ↔
      ∃ gap text space, payload = gap ++ (text ++ space) ∧ Blank gap ∧ Blank space ∧
        CounterText text version.number := by
  rw [← Counter.decode_iff, Codec.decode_eq_ok, Codec.decode_eq_ok]
  simp only [ofText_iff]

end Version

/-! Counters in values that have been read before. -/

namespace Counter

inductive StandsFor : Value → UInt64 → Prop
  | number (number : UInt64) : StandsFor (.number (ofNatural number)) number
  | text {text : String} {digits : List Char} {number : UInt64}
      (content : text.toList = digits ∨ text.toList = '+' :: digits)
      (spells : DigitsFor digits number) : StandsFor (.text text) number

theorem visit_number_iff {value : Number} {number : UInt64} :
    visit (.number value) = .ok number ↔ value = ofNatural number := by
  constructor
  · intro visited
    cases value with
    | float value => simp [visit, wrongType] at visited
    | whole value fits =>
        by_cases negative : value < 0
        · simp [visit, negative, refuse, Codec.refuse] at visited
        · simp only [visit, negative, if_false, Except.ok.injEq] at visited
          have same := (toUInt64_eq_iff (by omega)).1 visited
          simp only [ofNatural, Number.whole.injEq]
          omega
  · intro same
    rw [same]
    exact visit_ofNatural number

theorem ofValue_iff {value : Value} {number : UInt64} :
    codec.ofValue value = .ok number ↔ StandsFor value number := by
  change visit value.found = .ok number ↔ _
  constructor
  · intro visited
    cases value with
    | number held =>
        rw [visit_number_iff.1 visited]
        exact .number number
    | text text =>
        simp only [Value.found, visit] at visited
        split at visited
        · rename_i read
          rw [← Except.ok.inj visited]
          obtain ⟨digits, content, spells⟩ := ofText?_eq_some.1 read
          exact .text content spells
        · simp [refuse, Codec.refuse] at visited
    | null | boolean | list | record => simp [Value.found, visit, wrongType] at visited
  · intro stands
    cases stands with
    | number => exact visit_number_iff.2 rfl
    | text content spells =>
        have read := ofText?_eq_some.2 ⟨_, content, spells⟩
        simp [Value.found, visit, read]

end Counter

theorem Version.ofValue_iff {value : Value} {version : Version} :
    codec.ofValue value = .ok version ↔ Counter.StandsFor value version.number := by
  rw [codec, Codec.refine_ofValue_iff, ← Counter.ofValue_iff]
  constructor
  · rintro ⟨number, read, same⟩
    rw [← Except.ok.inj same]
    exact read
  · exact fun read => ⟨version.number, read, rfl⟩

end LedgerWire

import LedgerWire.Proofs.Json.Skip
import LedgerWire.Proofs.Text.Base16

/-!
String literals and the texts they denote. A literal holds characters as they are and escapes between
two quotes; the reader of strings takes exactly the literals, each for its text.
-/

namespace LedgerWire.Json

def escapes : List (UInt8 × Char) :=
  [(0x22, '"'), (0x5C, '\\'), (0x2F, '/'), (0x62, '\x08'), (0x66, '\x0C'), (0x6E, '\n'), (0x72, '\r'),
    (0x74, '\t')]

inductive UnitText : Bytes → Nat → Prop
  | digits {a b c d : UInt8} (areDigits : ∀ digit ∈ [a, b, c, d], Hex.IsDigit digit) :
      UnitText [backslash, 0x75, a, b, c, d] (Hex.number [a, b, c, d])

/-- How one character may stand in a literal. -/
inductive Piece : Bytes → Char → Prop
  | plain {value : Char} (shown : 0x20 ≤ value.toNat) (notQuote : value ≠ '"')
      (notBackslash : value ≠ '\\') : Piece (Utf8.encodeChar value) value
  | letter {letter : UInt8} {value : Char} (known : (letter, value) ∈ escapes) :
      Piece [backslash, letter] value
  | unit {text : Bytes} {unit : Nat} (written : UnitText text unit)
      (alone : unit < 0xD800 ∨ 0xDFFF < unit) : Piece text (Char.ofNat unit)
  | units {first second : Bytes} {high low : Nat} (firstWritten : UnitText first high)
      (secondWritten : UnitText second low) (isHigh : 0xD800 ≤ high ∧ high ≤ 0xDBFF)
      (isLow : 0xDC00 ≤ low ∧ low ≤ 0xDFFF) :
      Piece (first ++ second) (Char.ofNat ((high - 0xD800) * 0x400 + (low - 0xDC00) + 0x10000))

inductive Spells : Bytes → List Char → Prop
  | nil : Spells [] []
  | cons {front rest : Bytes} {value : Char} {text : List Char} (piece : Piece front value)
      (later : Spells rest text) : Spells (front ++ rest) (value :: text)

def Denotes (literal : Bytes) (text : String) : Prop :=
  ∃ body, literal = quote :: (body ++ [quote]) ∧ Spells body text.toList

theorem hexValue?_eq_some {byte : UInt8} {value : Nat} :
    hexValue? byte = some value ↔ Hex.IsDigit byte ∧ value = Hex.digitNumber byte := by
  rw [hexValue?, Option.map_eq_some_iff]
  constructor
  · rintro ⟨digit, read, same⟩
    obtain ⟨isDigit, number⟩ := Hex.isDigit_of_digitValue? read
    exact ⟨isDigit, by rw [← same, number]⟩
  · rintro ⟨isDigit, same⟩
    obtain ⟨digit, read, number⟩ := Hex.digitValue?_of_isDigit isDigit
    exact ⟨digit, read, by rw [same, number]⟩

theorem unitValue?_eq_some {a b c d : UInt8} {unit : Nat} :
    unitValue? a b c d = some unit ↔ UnitText [backslash, 0x75, a, b, c, d] unit := by
  have number : Hex.number [a, b, c, d] = ((Hex.digitNumber a * 16 + Hex.digitNumber b) * 16 +
      Hex.digitNumber c) * 16 + Hex.digitNumber d := by
    simp only [Hex.number_cons, List.length_cons, List.length_nil]
    rw [show Hex.number [] = 0 from rfl]
    omega
  constructor
  · intro read
    simp only [unitValue?, Option.bind_eq_bind, Option.bind_eq_some_iff, hexValue?_eq_some] at read
    rcases read with ⟨first, ⟨isFirst, sameFirst⟩, second, ⟨isSecond, sameSecond⟩, third,
      ⟨isThird, sameThird⟩, fourth, ⟨isFourth, sameFourth⟩, same⟩
    have isNumber : unit = Hex.number [a, b, c, d] := by
      rw [number, ← sameFirst, ← sameSecond, ← sameThird, ← sameFourth]
      exact (Option.some.inj same).symm
    rw [isNumber]
    exact .digits (by simp [isFirst, isSecond, isThird, isFourth])
  · intro written
    cases written with
    | digits areDigits =>
        have read : ∀ digit ∈ [a, b, c, d], hexValue? digit = some (Hex.digitNumber digit) :=
          fun digit member => hexValue?_eq_some.2 ⟨areDigits digit member, rfl⟩
        simp only [unitValue?, read a (by simp), read b (by simp), read c (by simp), read d (by simp),
          Option.bind_eq_bind, Option.bind_some, number]

/-! From a literal to its text. -/

theorem withFront_withFront (first second : Bytes) (outcome : Except Fault (Bytes × Bytes)) :
    withFront first (withFront second outcome) = withFront (first ++ second) outcome := by
  cases outcome with
  | error fault => rfl
  | ok taken => simp [withFront]

theorem withFront_nil (outcome : Except Fault (Bytes × Bytes)) : withFront [] outcome = outcome := by
  cases outcome <;> rfl

theorem readContent_plains {front : Bytes}
    (plain : ∀ byte ∈ front, byte ≠ quote ∧ byte ≠ backslash ∧ ¬ byte < 0x20) (rest : Bytes) :
    readContent none (front ++ rest) = withFront front (readContent none rest) := by
  induction front with
  | nil => exact (withFront_nil _).symm
  | cons byte front ih =>
      obtain ⟨notQuote, notBackslash, shown⟩ := plain byte List.mem_cons_self
      rw [List.cons_append, readContent_plain byte _ notQuote notBackslash shown,
        ih fun other member => plain other (List.mem_cons_of_mem _ member), withFront_withFront]
      rfl

theorem encodeChar_plain {value : Char} (shown : 0x20 ≤ value.toNat) (notQuote : value ≠ '"')
    (notBackslash : value ≠ '\\') :
    ∀ byte ∈ Utf8.encodeChar value, byte ≠ quote ∧ byte ≠ backslash ∧ ¬ byte < 0x20 := by
  have large : ∀ {byte : UInt8}, 0x80 ≤ byte.toNat → byte ≠ quote ∧ byte ≠ backslash ∧ ¬ byte < 0x20 := by
    intro byte above
    simp only [ne_eq, ← UInt8.toNat_inj, UInt8.lt_iff_toNat_lt, quote, backslash, UInt8.reduceToNat]
    omega
  intro byte member
  rcases Utf8.encodeChar_cases value with ⟨small, written⟩ | ⟨first, tail, written, isFirst, tails⟩
  · have notCodes : value.toNat ≠ 0x22 ∧ value.toNat ≠ 0x5C :=
      ⟨fun same => notQuote (Char.toNat_inj.1 same), fun same => notBackslash (Char.toNat_inj.1 same)⟩
    rw [written, List.mem_singleton] at member
    rw [member]
    simp only [ne_eq, ← UInt8.toNat_inj, UInt8.lt_iff_toNat_lt, quote, backslash, UInt8.reduceToNat,
      @Utf8.toNat_toUInt8 value.toNat (by omega)]
    omega
  · rw [written] at member
    rcases List.mem_cons.1 member with same | inTail
    · exact large (by rw [same]; omega)
    · exact large (Utf8.isTail_iff.1 (tails byte inTail)).1

theorem plain_of_encodeChar {value : Char} {first : UInt8} {tail : Bytes}
    (written : Utf8.encodeChar value = first :: tail) (notQuote : first ≠ quote)
    (notBackslash : first ≠ backslash) (shown : ¬ first < 0x20) :
    0x20 ≤ value.toNat ∧ value ≠ '"' ∧ value ≠ '\\' := by
  by_cases small : value.toNat < 0x80
  · rcases Utf8.encodeChar_cases value with ⟨_, single⟩ | ⟨other, others, single, large, _⟩
    · have isFirst := (List.cons.inj (written.symm.trans single)).1
      have code : first.toNat = value.toNat := by rw [isFirst, Utf8.toNat_toUInt8 (by omega)]
      simp only [ne_eq, ← UInt8.toNat_inj, UInt8.lt_iff_toNat_lt, quote, backslash,
        UInt8.reduceToNat, code] at notQuote notBackslash shown
      refine ⟨by omega, ?_, ?_⟩
      · rintro rfl
        exact notQuote rfl
      · rintro rfl
        exact notBackslash rfl
    · rw [Utf8.encodeChar, if_pos small] at single
      rw [← (List.cons.inj single).1, Utf8.toNat_toUInt8 (by omega)] at large
      omega
  · refine ⟨by omega, ?_, ?_⟩
    · rintro rfl
      exact small (by decide)
    · rintro rfl
      exact small (by decide)

theorem escapeValue?_of_mem {letter : UInt8} {value : Char} (known : (letter, value) ∈ escapes) :
    letter ≠ 0x75 ∧ ∃ byte, escapeValue? letter = some byte ∧ Utf8.encodeChar value = [byte] := by
  have each : ∀ pair ∈ escapes, pair.1 ≠ 0x75 ∧
      escapeValue? pair.1 = some pair.2.toNat.toUInt8 ∧
      Utf8.encodeChar pair.2 = [pair.2.toNat.toUInt8] := by decide
  obtain ⟨notUnit, escape, written⟩ := each (letter, value) known
  exact ⟨notUnit, _, escape, written⟩

theorem mem_of_escapeValue? {letter byte : UInt8} (escape : escapeValue? letter = some byte) :
    ∃ value, (letter, value) ∈ escapes ∧ Utf8.encodeChar value = [byte] := by
  have listed : letter ∈ escapes.map Prod.fst := by
    by_contra notListed
    simp only [escapes, List.map_cons, List.map_nil, List.mem_cons, List.not_mem_nil, or_false,
      not_or] at notListed
    simp [escapeValue?, quote, backslash, notListed] at escape
  obtain ⟨⟨_, value⟩, known, rfl⟩ := List.mem_map.1 listed
  obtain ⟨_, other, escape', written⟩ := escapeValue?_of_mem known
  rw [Option.some.inj (escape.symm.trans escape')]
  exact ⟨value, known, written⟩

theorem isHighUnit_iff {unit : Nat} : isHighUnit unit = true ↔ 0xD800 ≤ unit ∧ unit ≤ 0xDBFF := by
  simp only [isHighUnit, Bool.and_eq_true, decide_eq_true_eq]

theorem isLowUnit_iff {unit : Nat} : isLowUnit unit = true ↔ 0xDC00 ≤ unit ∧ unit ≤ 0xDFFF := by
  simp only [isLowUnit, Bool.and_eq_true, decide_eq_true_eq]

theorem notLow_of_high {unit : Nat} (isHigh : isHighUnit unit = true) : isLowUnit unit = false := by
  rw [isHighUnit_iff] at isHigh
  rw [Bool.eq_false_iff, ne_eq, isLowUnit_iff]
  omega

theorem readContent_units {a b c d e f g h : UInt8} {high low : Nat} (rest : Bytes)
    (first : unitValue? a b c d = some high) (second : unitValue? e f g h = some low)
    (isHigh : isHighUnit high = true) (isLow : isLowUnit low = true) :
    readContent none (backslash :: 0x75 :: a :: b :: c :: d ::
        backslash :: 0x75 :: e :: f :: g :: h :: rest) =
      withFront (Utf8.encodeChar (joinUnits high low)) (readContent none rest) := by
  rw [readContent.eq_def]
  simp only [if_true, first, notLow_of_high isHigh, isHigh, Bool.false_eq_true, if_false]
  rw [readContent.eq_def]
  simp only [if_true, second, isLow]

theorem readContent_piece {front : Bytes} {value : Char} (piece : Piece front value) (rest : Bytes) :
    readContent none (front ++ rest) = withFront (Utf8.encodeChar value) (readContent none rest) := by
  cases piece with
  | plain shown notQuote notBackslash =>
      exact readContent_plains (encodeChar_plain shown notQuote notBackslash) rest
  | letter known =>
      obtain ⟨notUnit, byte, escape, written⟩ := escapeValue?_of_mem known
      rw [written]
      exact readContent_escape _ byte rest notUnit escape
  | unit written alone =>
      cases written with
      | digits areDigits =>
          refine readContent_unit _ _ _ _ _ rest (unitValue?_eq_some.2 (.digits areDigits)) ?_ ?_
          · rw [Bool.eq_false_iff, ne_eq, isLowUnit_iff]
            omega
          · rw [Bool.eq_false_iff, ne_eq, isHighUnit_iff]
            omega
  | units firstWritten secondWritten isHigh isLow =>
      cases firstWritten with
      | digits firstDigits =>
          cases secondWritten with
          | digits secondDigits =>
              exact readContent_units rest (unitValue?_eq_some.2 (.digits firstDigits))
                (unitValue?_eq_some.2 (.digits secondDigits)) (isHighUnit_iff.2 isHigh)
                (isLowUnit_iff.2 isLow)

theorem readContent_quote (rest : Bytes) : readContent none (quote :: rest) = .ok ([], rest) := by
  rw [readContent.eq_def]
  simp [quote, backslash]

theorem readContent_spelled {body : Bytes} {text : List Char} (spells : Spells body text)
    (rest : Bytes) :
    readContent none (body ++ quote :: rest) = .ok (Utf8.encodeChars text, rest) := by
  induction spells with
  | nil => exact readContent_quote rest
  | cons piece _ ih =>
      rw [List.append_assoc, readContent_piece piece, ih]
      rfl

/-! And back: whatever is read as a string is a literal of it. The content may begin within a
character, whose first byte was before. -/

/-- What a text that is read up to its closing quote looks like, behind the tails of a character or
behind a high unit. -/
def Continues (bytes rest : Bytes) (text : List Char) (tails : Bytes) : Option Nat → Prop
  | none => ∃ body, bytes = tails ++ (body ++ quote :: rest) ∧ Spells body text
  | some high => tails = [] ∧ ∃ second low body others, UnitText second low ∧
      (0xDC00 ≤ low ∧ low ≤ 0xDFFF) ∧ text = joinUnits high low :: others ∧
      bytes = second ++ (body ++ quote :: rest) ∧ Spells body others

theorem continues_of_readContent (high : Option Nat) (bytes : Bytes) :
    ∀ tails text rest, (∀ byte ∈ tails, Utf8.isTail byte = true) →
      readContent high bytes = .ok (tails ++ Utf8.encodeChars text, rest) →
        Continues bytes rest text tails high := by
  -- The induction is on the text; a character is taken byte by byte, so that the tails of one that
  -- has begun are still to come.
  fun_induction readContent high bytes with
  | case5 a b c d behind unit value _ isHigh ih =>
      intro tails text rest areTails read
      obtain ⟨noTails, second, low, body, others, written, isLow, sameText, sameBytes, spells⟩ :=
        ih tails text rest areTails read
      refine ⟨[backslash, 0x75, a, b, c, d] ++ second ++ body, ?_, ?_⟩
      · rw [noTails, sameBytes]
        simp
      · rw [sameText]
        exact .cons (.units (unitValue?_eq_some.1 value) written (isHighUnit_iff.1 isHigh) isLow) spells
  | case6 a b c d behind unit value notLow notHigh ih =>
      intro tails text rest areTails read
      obtain ⟨content, later, same⟩ := withFront_eq_ok read
      obtain ⟨noTails, others, sameText, isContent⟩ := Utf8.encodeChar_behind_tails areTails same.symm
      obtain ⟨body, sameBytes, spells⟩ := ih [] others rest (by simp) (by rw [later, isContent]; rfl)
      refine ⟨[backslash, 0x75, a, b, c, d] ++ body, by simp [noTails, sameBytes], ?_⟩
      rw [sameText]
      refine .cons (.unit (unitValue?_eq_some.1 value) ?_) spells
      rw [isLowUnit_iff] at notLow
      rw [isHighUnit_iff] at notHigh
      omega
  | case7 a b c d behind unit high value isLow ih =>
      intro tails text rest areTails read
      obtain ⟨content, later, same⟩ := withFront_eq_ok read
      obtain ⟨noTails, others, sameText, isContent⟩ := Utf8.encodeChar_behind_tails areTails same.symm
      obtain ⟨body, sameBytes, spells⟩ := ih [] others rest (by simp) (by rw [later, isContent]; rfl)
      exact ⟨noTails, [backslash, 0x75, a, b, c, d], _, body, others, unitValue?_eq_some.1 value,
        isLowUnit_iff.1 isLow, sameText, by simp [sameBytes], spells⟩
  | case10 letter tail notUnit value escape ih =>
      intro tails text rest areTails read
      obtain ⟨content, later, same⟩ := withFront_eq_ok read
      obtain ⟨char, known, written⟩ := mem_of_escapeValue? escape
      rw [← written] at same
      obtain ⟨noTails, others, sameText, isContent⟩ := Utf8.encodeChar_behind_tails areTails same.symm
      obtain ⟨body, sameBytes, spells⟩ := ih [] others rest (by simp) (by rw [later, isContent]; rfl)
      refine ⟨[backslash, letter] ++ body, by simp [noTails, sameBytes], ?_⟩
      rw [sameText]
      exact .cons (.letter known) spells
  | case13 high behind notHigh _ =>
      intro tails text rest areTails read
      obtain ⟨sameContent, sameRest⟩ := ok_pair_inj read
      obtain ⟨noTails, noText⟩ := List.append_eq_nil_iff.1 sameContent.symm
      obtain rfl : high = none := Option.not_isSome_iff_eq_none.1 notHigh
      rw [Utf8.encodeChars_eq_nil.1 noText]
      exact ⟨[], by simp [noTails, sameRest], .nil⟩
  | case15 high byte behind notBackslash notHigh notQuote shown ih =>
      intro tails text rest areTails read
      obtain ⟨content, later, same⟩ := withFront_eq_ok read
      obtain rfl : high = none := Option.not_isSome_iff_eq_none.1 notHigh
      cases tails with
      | cons tail tails =>
          obtain ⟨isTail, isContent⟩ := List.cons.inj same
          have whole : content = tails ++ Utf8.encodeChars text := isContent.symm
          obtain ⟨body, sameBytes, spells⟩ := ih tails text rest
            (fun other member => areTails other (List.mem_cons_of_mem _ member)) (by rw [later, whole])
          exact ⟨body, by rw [sameBytes, isTail]; rfl, spells⟩
      | nil =>
          obtain ⟨value, others, tails, sameText, written, areTails, isContent⟩ :=
            Utf8.encodeChars_split same
          have whole : content = tails ++ Utf8.encodeChars others := isContent
          obtain ⟨body, sameBytes, spells⟩ := ih tails others rest areTails (by rw [later, whole])
          obtain ⟨shown, notQuote, notBackslash⟩ :=
            plain_of_encodeChar written notQuote notBackslash shown
          refine ⟨byte :: tails ++ body, by simp [sameBytes], ?_⟩
          rw [sameText, ← written]
          exact .cons (.plain shown notQuote notBackslash) spells
  | case1 | case2 | case3 | case4 | case8 | case9 | case11 | case12 | case14 =>
      intro tails text rest _ read
      simp at read

/-- A string is read where the text goes on with a spelling of it and a quote. -/
theorem readString_iff {bytes rest : Bytes} {text : String} :
    readString bytes = .ok (text, rest) ↔
      ∃ body, bytes = body ++ quote :: rest ∧ Spells body text.toList := by
  simp only [readString, bind_eq_ok, Prod.exists]
  constructor
  · rintro ⟨content, after, read, later⟩
    split at later
    · rename_i decoded
      obtain ⟨sameText, sameRest⟩ := ok_pair_inj later
      rw [Utf8.decode_eq_ok, sameText, Utf8.encode] at decoded
      rw [decoded, sameRest] at read
      exact continues_of_readContent none bytes [] text.toList rest (by simp) read
    · simp at later
  · rintro ⟨body, sameBytes, spells⟩
    refine ⟨Utf8.encode text, rest, by rw [sameBytes]; exact readContent_spelled spells rest, ?_⟩
    simp only [Utf8.decode_encode]

end LedgerWire.Json

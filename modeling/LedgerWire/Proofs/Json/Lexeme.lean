import LedgerWire.Proofs.Json.NumberLiteral
import LedgerWire.Proofs.Text.Digits

/-!
The smallest parts of a JSON text read back as they are written: strings with their escapes, and
whole numbers. What is found in a text shows in its first byte that is no blank.
-/

namespace LedgerWire.Json

theorem skipBlanks_skipBlanks (bytes : Bytes) : skipBlanks (skipBlanks bytes) = skipBlanks bytes := by
  induction bytes with
  | nil => rfl
  | cons byte rest ih =>
      by_cases blank : isBlank byte = true
      · have skipped : skipBlanks (byte :: rest) = skipBlanks rest := by simp [skipBlanks, blank]
        rw [skipped, ih]
      · have kept := skipBlanks_of_head byte rest (by simpa using blank)
        rw [kept, kept]

theorem readFound_skipBlanks (bytes : Bytes) : readFound (skipBlanks bytes) = readFound bytes := by
  unfold readFound
  rw [skipBlanks_skipBlanks]

/-! Strings. -/

theorem unitValue?_control (byte : UInt8) :
    unitValue? 0x30 0x30 (Hex.digit (byte / 16)) (Hex.digit (byte % 16)) = some byte.toNat := by
  obtain ⟨high, low, _⟩ := Hex.halves byte
  have zero : hexValue? 0x30 = some 0 := rfl
  have first : hexValue? (Hex.digit (byte / 16)) = some (byte.toNat / 16) := by
    simp [hexValue?, Hex.digitValue?_digit _ high]
  have second : hexValue? (Hex.digit (byte % 16)) = some (byte.toNat % 16) := by
    simp [hexValue?, Hex.digitValue?_digit _ low]
  simp only [unitValue?, zero, first, second, Option.bind_eq_bind, Option.bind_some,
    Option.some.injEq]
  omega

theorem readContent_escape (letter value : UInt8) (rest : Bytes) (notUnit : letter ≠ 0x75)
    (escape : escapeValue? letter = some value) :
    readContent none (backslash :: letter :: rest) = withFront [value] (readContent none rest) := by
  rw [readContent.eq_def]
  simp only [if_true, notUnit, if_false, escape]

theorem readContent_unit (a b c d : UInt8) (unit : Nat) (rest : Bytes)
    (value : unitValue? a b c d = some unit) (notLow : isLowUnit unit = false)
    (notHigh : isHighUnit unit = false) :
    readContent none (backslash :: 0x75 :: a :: b :: c :: d :: rest) =
      withFront (Utf8.encodeChar (Char.ofNat unit)) (readContent none rest) := by
  rw [readContent.eq_def]
  simp only [if_true, value, notLow, notHigh, Bool.false_eq_true, if_false]

theorem readContent_plain (byte : UInt8) (rest : Bytes) (notQuote : byte ≠ quote)
    (notBackslash : byte ≠ backslash) (shown : ¬ byte < 0x20) :
    readContent none (byte :: rest) = withFront [byte] (readContent none rest) := by
  rw [readContent.eq_def]
  simp only [notBackslash, if_false, Option.isSome_none, Bool.false_eq_true, notQuote, shown]

theorem readContent_escapeByte (byte : UInt8) (rest : Bytes) :
    readContent none (escapeByte byte ++ rest) = withFront [byte] (readContent none rest) := by
  unfold escapeByte
  by_cases isQuote : byte = quote
  · rw [if_pos isQuote, isQuote]
    exact readContent_escape quote quote rest (by decide) rfl
  rw [if_neg isQuote]
  by_cases isBackslash : byte = backslash
  · rw [if_pos isBackslash, isBackslash]
    exact readContent_escape backslash backslash rest (by decide) rfl
  rw [if_neg isBackslash]
  by_cases backspace : byte = 0x08
  · rw [if_pos backspace, backspace]
    exact readContent_escape 0x62 0x08 rest (by decide) rfl
  rw [if_neg backspace]
  by_cases formFeed : byte = 0x0C
  · rw [if_pos formFeed, formFeed]
    exact readContent_escape 0x66 0x0C rest (by decide) rfl
  rw [if_neg formFeed]
  by_cases lineFeed : byte = 0x0A
  · rw [if_pos lineFeed, lineFeed]
    exact readContent_escape 0x6E 0x0A rest (by decide) rfl
  rw [if_neg lineFeed]
  by_cases carriageReturn : byte = 0x0D
  · rw [if_pos carriageReturn, carriageReturn]
    exact readContent_escape 0x72 0x0D rest (by decide) rfl
  rw [if_neg carriageReturn]
  by_cases tab : byte = 0x09
  · rw [if_pos tab, tab]
    exact readContent_escape 0x74 0x09 rest (by decide) rfl
  rw [if_neg tab]
  by_cases control : byte < 0x20
  · have small : byte.toNat < 0x20 := control
    have notLow : isLowUnit byte.toNat = false := by
      simp only [isLowUnit, Bool.and_eq_false_iff, decide_eq_false_iff_not]
      omega
    have notHigh : isHighUnit byte.toNat = false := by
      simp only [isHighUnit, Bool.and_eq_false_iff, decide_eq_false_iff_not]
      omega
    rw [if_pos control, ← Utf8.encodeChar_ofNat byte (by omega)]
    exact readContent_unit _ _ _ _ byte.toNat rest (unitValue?_control byte) notLow notHigh
  · rw [if_neg control]
    exact readContent_plain byte rest isQuote isBackslash control

theorem readContent_escaped (content rest : Bytes) :
    readContent none (content.flatMap escapeByte ++ quote :: rest) = .ok (content, rest) := by
  induction content with
  | nil =>
      rw [List.flatMap_nil, List.nil_append, readContent.eq_def]
      simp [quote, backslash]
  | cons byte tail ih =>
      rw [List.flatMap_cons, List.append_assoc, readContent_escapeByte, ih]
      rfl

theorem readString_stringText (text : String) (rest : Bytes) :
    ∃ body, stringText text ++ rest = quote :: body ∧ readString body = .ok (text, rest) := by
  refine ⟨(Utf8.encode text).flatMap escapeByte ++ quote :: rest, ?_, ?_⟩
  · simp [stringText]
  · simp only [readString, readContent_escaped, ok_bind, Utf8.decode_encode]

/-! Numbers. -/

theorem isDigit_bounds (digit : Char) (plain : digit.isDigit = true) :
    48 ≤ digit.toNat ∧ digit.toNat ≤ 57 := by
  simp only [Char.isDigit, Bool.and_eq_true, decide_eq_true_eq, UInt32.le_iff_toNat_le] at plain
  exact plain

theorem isDigit_bytes {digits : List Char} (areDigits : ∀ digit ∈ digits, digit.isDigit = true) :
    ∀ byte ∈ Ascii.bytes digits, isDigit byte = true := by
  intro byte member
  obtain ⟨digit, inside, same⟩ := List.mem_map.1 member
  have bounds := isDigit_bounds digit (areDigits digit inside)
  simp only [isDigit, Bool.and_eq_true, decide_eq_true_eq, UInt8.le_iff_toNat_le, UInt8.reduceToNat,
    ← same]
  rw [Utf8.toNat_toUInt8 (by omega)]
  exact bounds

theorem chars_of_digits {bytes : Bytes} (areDigits : ∀ byte ∈ bytes, isDigit byte = true) :
    ∃ digits, bytes = Ascii.bytes digits ∧ ∀ digit ∈ digits, digit.isDigit = true := by
  refine ⟨bytes.map fun byte => Char.ofNat byte.toNat, ?_, ?_⟩
  · rw [Ascii.bytes, List.map_map]
    refine (List.map_id'' ?_ bytes).symm
    intro byte
    simp [Ascii.toNat_ofNat]
  · intro digit member
    obtain ⟨byte, inside, rfl⟩ := List.mem_map.1 member
    have bounds := areDigits byte inside
    simp only [isDigit, Bool.and_eq_true, decide_eq_true_eq, UInt8.le_iff_toNat_le,
      UInt8.reduceToNat] at bounds
    simp only [Char.isDigit, Bool.and_eq_true, decide_eq_true_eq, UInt32.le_iff_toNat_le]
    have code := Ascii.toNat_ofNat byte
    rw [Char.toNat] at code
    rw [code]
    exact bounds

theorem wholeDigits_bytes {digits : List Char} (areDigits : ∀ digit ∈ digits, digit.isDigit = true) :
    WholeDigits (Ascii.bytes digits) ↔
      digits ≠ [] ∧ (digits.head? = some '0' → digits.length = 1) := by
  have zero : (Ascii.bytes digits).head? = some 0x30 ↔ digits.head? = some '0' := by
    cases digits with
    | nil => simp [Ascii.bytes]
    | cons digit rest =>
        have bounds := isDigit_bounds digit (areDigits digit List.mem_cons_self)
        simp only [Ascii.bytes, List.map_cons, List.head?_cons, Option.some.injEq, ← UInt8.toNat_inj,
          ← Char.toNat_inj, UInt8.reduceToNat]
        rw [Utf8.toNat_toUInt8 (by omega)]
        rfl
  have length : (Ascii.bytes digits).length = digits.length := List.length_map _
  rw [WholeDigits, Digits, zero, length]
  constructor
  · rintro ⟨⟨someDigits, _⟩, alone⟩
    exact ⟨fun none => someDigits (by rw [none]; rfl), alone⟩
  · rintro ⟨someDigits, alone⟩
    exact ⟨⟨fun none => someDigits (List.map_eq_nil_iff.1 none), isDigit_bytes areDigits⟩, alone⟩

theorem digitsValue_from (digits : List Char) (plain : ∀ digit ∈ digits, digit.isDigit = true) :
    ∀ start, (Ascii.bytes digits).foldl (fun value digit => value * 10 + digitValue digit) start =
      Nat.ofDigitChars 10 digits start := by
  induction digits with
  | nil => intro start; rfl
  | cons digit rest ih =>
      intro start
      have bounds := isDigit_bounds digit (plain digit List.mem_cons_self)
      have code : digit.toNat.toUInt8.toNat = digit.toNat := Utf8.toNat_toUInt8 (by omega)
      have tail := ih (fun other member => plain other (List.mem_cons_of_mem _ member))
      simp only [Ascii.bytes, List.map_cons, List.foldl_cons, Nat.ofDigitChars_cons] at tail ⊢
      rw [tail, digitValue, code, Nat.mul_comm]
      rfl

theorem digitsValue_naturalBytes (value : Nat) : digitsValue (naturalBytes value) = value := by
  rw [digitsValue, naturalBytes,
    digitsValue_from _ (fun _ member => Nat.isDigit_of_mem_toDigits (by decide) (by decide) member)]
  exact Nat.ofDigitChars_ten_toDigits

theorem toDigits_head (value : Nat) : 0 < value → (Nat.toDigits 10 value).head? ≠ some '0' := by
  induction value using Nat.strongRecOn with
  | ind value ih =>
      intro positive
      by_cases single : value < 10
      · simp only [Nat.toDigits_of_lt_base single, List.head?_cons, ne_eq, Option.some.injEq,
          Nat.digitChar_eq_zero]
        omega
      · have leading := ih (value / 10) (by omega) (by omega)
        rw [Nat.toDigits_of_base_le (by decide) (by omega), List.head?_append]
        cases found : (Nat.toDigits 10 (value / 10)).head? with
        | none => simp [Nat.toDigits_ne_nil] at found
        | some first => simpa [found] using leading

theorem wholeDigits_naturalBytes (value : Nat) : WholeDigits (naturalBytes value) := by
  refine (wholeDigits_bytes fun _ member =>
    Nat.isDigit_of_mem_toDigits (by decide) (by decide) member).2 ⟨Nat.toDigits_ne_nil, ?_⟩
  intro zero
  by_cases positive : 0 < value
  · exact absurd zero (toDigits_head value positive)
  · obtain rfl : value = 0 := by omega
    rfl

theorem literalText_whole (negative : Bool) (value : Nat) :
    LiteralText (minusText negative ++ naturalBytes value)
      ⟨negative, naturalBytes value, none, none⟩ :=
  ⟨[], [], by simp, wholeDigits_naturalBytes value, .missing, .missing⟩

theorem foldl_digits_le (digits : Bytes) : ∀ start,
    start ≤ digits.foldl (fun value digit => value * 10 + digitValue digit) start := by
  induction digits with
  | nil => intro start; exact Nat.le_refl _
  | cons digit rest ih =>
      intro start
      have later := ih (start * 10 + digitValue digit)
      rw [List.foldl_cons]
      omega

theorem takeDigits_fits (digits : Bytes) : ∀ start,
    digits.foldl (fun value digit => value * 10 + digitValue digit) start < 0x10000000000000000 →
      (takeDigits start digits).2 = [] := by
  induction digits with
  | nil => intro start _; rfl
  | cons digit rest ih =>
      intro start small
      rw [List.foldl_cons] at small
      have first := foldl_digits_le rest (start * 10 + digitValue digit)
      have fits : start * 10 + digitValue digit < 0x10000000000000000 := by omega
      rw [takeDigits, if_pos fits]
      exact ih _ small

theorem Literal.number?_cases {literal : Literal} {found : Number}
    (numbered : literal.number? = some found) :
    (∃ fits, found = .whole (digitsValue literal.whole) fits ∧ literal.negative = false ∧
      literal.isWhole = true) ∨
    (∃ value fits, found = .whole value fits ∧ value < 0) ∨ ∃ value, found = .float value := by
  rcases literal with ⟨negative, whole, fraction, exponent⟩
  cases negative with
  | false =>
      simp only [Literal.number?, Bool.false_eq_true, if_false, false_and, not_false_eq_true,
        true_and] at numbered
      split at numbered
      · rename_i fits
        exact Or.inl ⟨fits.2, (Option.some.inj numbered).symm, rfl, fits.1⟩
      · split at numbered
        · exact Or.inr (Or.inr ⟨_, (Option.some.inj numbered).symm⟩)
        · simp at numbered
  | true =>
      simp only [Literal.number?, if_true, true_and] at numbered
      split at numbered
      · rename_i fits
        exact Or.inr (Or.inl ⟨_, fits.2.2, (Option.some.inj numbered).symm, by omega⟩)
      · split at numbered
        · exact Or.inr (Or.inr ⟨_, (Option.some.inj numbered).symm⟩)
        · simp at numbered

theorem Literal.number?_digits {whole : Bytes} (small : digitsValue whole < 0x10000000000000000) :
    (Literal.mk false whole none none).number? =
      some (.whole (digitsValue whole) ⟨by omega, by omega⟩) := by
  have taken := takeDigits_fits whole 0 small
  have isWhole : (Literal.mk false whole none none).isWhole = true := by
    simp [Literal.isWhole, taken]
  simp only [Literal.number?, isWhole, Bool.false_eq_true, if_false, false_and, not_false_eq_true,
    true_and]
  rw [dif_pos ⟨by omega, by omega⟩]

theorem number?_whole (value : Int) (fits : -0x8000000000000000 ≤ value ∧ value < 0x10000000000000000) :
    (Literal.mk (decide (value < 0)) (naturalBytes value.natAbs) none none).number? =
      some (.whole value fits) := by
  have small : value.natAbs < 0x10000000000000000 := by omega
  have whole : (Literal.mk (decide (value < 0)) (naturalBytes value.natAbs) none none).isWhole =
      true := by
    have taken := takeDigits_fits (naturalBytes value.natAbs) 0
      (by rw [← digitsValue, digitsValue_naturalBytes]; exact small)
    simp [Literal.isWhole, taken]
  have signed : (if decide (value < 0) = true then -(value.natAbs : Int) else (value.natAbs : Int)) =
      value := by
    by_cases below : value < 0
    · rw [if_pos (by simpa using below)]
      omega
    · rw [if_neg (by simpa using below)]
      omega
  have positive : ¬ (decide (value < 0) = true ∧ value.natAbs = 0) := by
    simp only [decide_eq_true_eq]
    omega
  simp only [Literal.number?, digitsValue_naturalBytes, signed, whole, true_and]
  rw [dif_pos ⟨positive, fits⟩]

theorem bytes_whole (value : Int) (fits : -0x8000000000000000 ≤ value ∧ value < 0x10000000000000000) :
    (Number.whole value fits).bytes =
      minusText (decide (value < 0)) ++ naturalBytes value.natAbs := by
  simp only [Number.bytes, minusText, decide_eq_true_eq]
  split <;> rfl

theorem readNumber_whole (value : Int) (fits : -0x8000000000000000 ≤ value ∧ value < 0x10000000000000000) (rest : Bytes)
    (stops : Delimits rest) :
    readNumber ((Number.whole value fits).bytes ++ rest) = .ok (.whole value fits, rest) := by
  have literal := readLiteral_text (literalText_whole (decide (value < 0)) value.natAbs) stops
  rw [bytes_whole]
  simp only [readNumber, literal, ok_bind, number?_whole value fits]

theorem bytes_whole_head (value : Int) (fits : -0x8000000000000000 ≤ value ∧ value < 0x10000000000000000) :
    ∃ first tail, (Number.whole value fits).bytes = first :: tail ∧
      (first = 0x2D || isDigit first) = true := by
  rw [bytes_whole]
  exact (literalText_whole (decide (value < 0)) value.natAbs).begins

/-! What is found where a text goes on. -/

/-- How a text goes on from its first byte that is no blank, where something is found in it. -/
inductive Opens : Found → UInt8 → Bytes → Bytes → Prop
  | null {tail rest : Bytes} (word : readWord nullTail tail = .ok ((), rest)) :
      Opens .null 0x6E tail rest
  | yes {tail rest : Bytes} (word : readWord trueTail tail = .ok ((), rest)) :
      Opens (.boolean true) 0x74 tail rest
  | no {tail rest : Bytes} (word : readWord falseTail tail = .ok ((), rest)) :
      Opens (.boolean false) 0x66 tail rest
  | number {number : Number} {byte : UInt8} {tail rest : Bytes}
      (numeric : (byte = 0x2D || isDigit byte) = true)
      (read : readNumber (byte :: tail) = .ok (number, rest)) : Opens (.number number) byte tail rest
  | text {content : String} {tail rest : Bytes} (read : readString tail = .ok (content, rest)) :
      Opens (.text content) quote tail rest
  | list {rest : Bytes} : Opens .list openList rest rest
  | record {rest : Bytes} : Opens .record openRecord rest rest

theorem readFound_eq_ok {bytes rest : Bytes} {found : Found} :
    readFound bytes = .ok (found, rest) ↔
      ∃ byte tail, skipBlanks bytes = byte :: tail ∧ Opens found byte tail rest := by
  constructor
  · intro read
    unfold readFound at read
    cases shape : skipBlanks bytes with
    | nil => simp [shape] at read
    | cons byte tail =>
        rw [shape] at read
        dsimp only at read
        refine ⟨byte, tail, rfl, ?_⟩
        split at read
        · rename_i isNull
          obtain ⟨⟨_, after⟩, word, same⟩ := bind_eq_ok.1 read
          obtain ⟨rfl, rfl⟩ := ok_pair_inj same
          rw [isNull]
          exact .null word
        split at read
        · rename_i isTrue
          obtain ⟨⟨_, after⟩, word, same⟩ := bind_eq_ok.1 read
          obtain ⟨rfl, rfl⟩ := ok_pair_inj same
          rw [isTrue]
          exact .yes word
        split at read
        · rename_i isFalse
          obtain ⟨⟨_, after⟩, word, same⟩ := bind_eq_ok.1 read
          obtain ⟨rfl, rfl⟩ := ok_pair_inj same
          rw [isFalse]
          exact .no word
        split at read
        · rename_i numeric
          obtain ⟨⟨number, after⟩, numberRead, same⟩ := bind_eq_ok.1 read
          obtain ⟨rfl, rfl⟩ := ok_pair_inj same
          exact .number numeric numberRead
        split at read
        · rename_i isText
          obtain ⟨⟨content, after⟩, contentRead, same⟩ := bind_eq_ok.1 read
          obtain ⟨rfl, rfl⟩ := ok_pair_inj same
          rw [isText]
          exact .text contentRead
        split at read
        · rename_i isList
          obtain ⟨rfl, rfl⟩ := ok_pair_inj read
          rw [isList]
          exact .list
        split at read
        · rename_i isRecord
          obtain ⟨rfl, rfl⟩ := ok_pair_inj read
          rw [isRecord]
          exact .record
        · simp at read
  · rintro ⟨byte, tail, shape, opens⟩
    rw [← readFound_skipBlanks, shape]
    cases opens with
    | null word | yes word | no word => simp [readFound, skipBlanks_of_head, isBlank, word]
    | number numeric read => rw [readFound_numeric numeric, read, ok_map]
    | text read => simp [readFound, skipBlanks_of_head, isBlank, isDigit, quote, read]
    | list | record =>
        simp [readFound, skipBlanks_of_head, isBlank, isDigit, quote, openList, openRecord]

end LedgerWire.Json

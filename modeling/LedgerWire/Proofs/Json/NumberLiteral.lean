import Mathlib.Data.List.TakeWhile
import LedgerWire.Json.Document
import LedgerWire.Proofs.Outcome

/-!
Number literals: how a number may be written. What is read as a literal is written as one, and a
literal is read to its end before anything that does not go on with it.
-/

namespace LedgerWire.Json

/-- What follows a number does not go on with it. -/
def Delimits (rest : Bytes) : Prop :=
  ∀ byte tail, rest = byte :: tail →
    isDigit byte = false ∧ byte ≠ 0x2E ∧ byte ≠ 0x65 ∧ byte ≠ 0x45

theorem delimits_nil : Delimits [] := by
  intro byte tail found
  simp at found

theorem delimits_cons (byte : UInt8) (tail : Bytes)
    (fits : isDigit byte = false ∧ byte ≠ 0x2E ∧ byte ≠ 0x65 ∧ byte ≠ 0x45) :
    Delimits (byte :: tail) := by
  intro other rest found
  simp only [List.cons.injEq] at found
  rw [← found.1]
  exact fits

def Digits (digits : Bytes) : Prop := digits ≠ [] ∧ ∀ digit ∈ digits, isDigit digit = true

def DigitsEnd (rest : Bytes) : Prop := ∀ byte tail, rest = byte :: tail → isDigit byte = false

def WholeDigits (digits : Bytes) : Prop :=
  Digits digits ∧ (digits.head? = some 0x30 → digits.length = 1)

inductive FractionText : Bytes → Option Bytes → Prop
  | missing : FractionText [] none
  | point {digits : Bytes} (areDigits : Digits digits) : FractionText (0x2E :: digits) (some digits)

inductive SignText : Bytes → Bool → Prop
  | missing : SignText [] false
  | plus : SignText [0x2B] false
  | minus : SignText [0x2D] true

inductive ExponentText : Bytes → Option (Bool × Bytes) → Prop
  | missing : ExponentText [] none
  | power {letter : UInt8} {sign digits : Bytes} {below : Bool} (isLetter : letter = 0x65 ∨ letter = 0x45)
      (signed : SignText sign below) (areDigits : Digits digits) :
      ExponentText (letter :: (sign ++ digits)) (some (below, digits))

def minusText (negative : Bool) : Bytes := if negative then [0x2D] else []

def LiteralText (text : Bytes) (literal : Literal) : Prop :=
  ∃ fraction exponent,
    text = minusText literal.negative ++ (literal.whole ++ (fraction ++ exponent)) ∧
      WholeDigits literal.whole ∧ FractionText fraction literal.fraction ∧
      ExponentText exponent literal.exponent

theorem Delimits.digitsEnd {rest : Bytes} (stops : Delimits rest) : DigitsEnd rest :=
  fun byte tail shape => (stops byte tail shape).1

theorem Delimits.noPoint {rest : Bytes} (stops : Delimits rest) : rest.head? ≠ some 0x2E := by
  cases rest with
  | nil => simp
  | cons byte tail => simpa using (stops byte tail rfl).2.1

theorem digitsEnd_cons {byte : UInt8} (tail : Bytes) (notDigit : isDigit byte = false) :
    DigitsEnd (byte :: tail) := by
  intro other rest shape
  rw [← (List.cons.inj shape).1]
  exact notDigit

theorem readDigits_eq_ok {bytes digits rest : Bytes} :
    readDigits bytes = .ok (digits, rest) ↔
      bytes = digits ++ rest ∧ Digits digits ∧ DigitsEnd rest := by
  constructor
  · intro read
    cases bytes with
    | nil => simp [readDigits] at read
    | cons byte tail =>
        simp only [readDigits] at read
        split at read
        · rename_i isFirst
          obtain ⟨sameDigits, sameRest⟩ := ok_pair_inj read
          rw [← sameDigits, ← sameRest]
          refine ⟨(List.takeWhile_append_dropWhile).symm, ⟨by simp [isFirst], ?_⟩, ?_⟩
          · intro digit member
            exact List.mem_takeWhile_imp member
          · intro other others shape
            have stopped := List.head?_dropWhile_not isDigit (byte :: tail)
            rw [shape] at stopped
            simpa using stopped
        · simp at read
  · rintro ⟨rfl, ⟨someDigits, areDigits⟩, ends⟩
    have taken : rest.takeWhile isDigit = [] := by
      cases rest with
      | nil => rfl
      | cons byte tail => simp [ends byte tail rfl]
    have dropped : rest.dropWhile isDigit = rest := by
      cases rest with
      | nil => rfl
      | cons byte tail => simp [ends byte tail rfl]
    cases digits with
    | nil => exact absurd rfl someDigits
    | cons first digits =>
        have isFirst := areDigits first List.mem_cons_self
        have whole : (first :: (digits ++ rest)).takeWhile isDigit = first :: digits := by
          rw [← List.cons_append, List.takeWhile_append_of_pos areDigits, taken, List.append_nil]
        have behind : (first :: (digits ++ rest)).dropWhile isDigit = rest := by
          rw [← List.cons_append, List.dropWhile_append_of_pos areDigits, dropped]
        simp only [List.cons_append, readDigits, isFirst, if_true, whole, behind]

theorem readWhole_eq_ok {bytes digits rest : Bytes} :
    readWhole bytes = .ok (digits, rest) ↔
      bytes = digits ++ rest ∧ WholeDigits digits ∧ DigitsEnd rest := by
  simp only [readWhole, bind_eq_ok, Prod.exists, readDigits_eq_ok, WholeDigits]
  constructor
  · rintro ⟨found, after, ⟨same, areDigits, ends⟩, later⟩
    split at later
    · simp at later
    · rename_i alone
      obtain ⟨sameDigits, sameRest⟩ := ok_pair_inj later
      rw [← sameDigits, ← sameRest]
      refine ⟨same, ⟨areDigits, ?_⟩, ends⟩
      intro isZero
      simpa [isZero] using alone
  · rintro ⟨same, ⟨areDigits, alone⟩, ends⟩
    refine ⟨digits, rest, ⟨same, areDigits, ends⟩, ?_⟩
    split
    · rename_i leading
      simp only [Bool.and_eq_true, decide_eq_true_eq] at leading
      exact absurd (alone leading.1) leading.2
    · rfl

theorem readFraction_eq_ok {bytes rest : Bytes} {fraction : Option Bytes}
    (read : readFraction bytes = .ok (fraction, rest)) :
    ∃ text, bytes = text ++ rest ∧ FractionText text fraction := by
  unfold readFraction at read
  split at read
  · rename_i tail
    obtain ⟨⟨digits, after⟩, digitsRead, later⟩ := bind_eq_ok.1 read
    obtain ⟨sameFraction, sameRest⟩ := ok_pair_inj later
    obtain ⟨same, areDigits, _⟩ := readDigits_eq_ok.1 digitsRead
    rw [← sameFraction, ← sameRest]
    exact ⟨0x2E :: digits, by rw [same]; rfl, .point areDigits⟩
  · obtain ⟨sameFraction, sameRest⟩ := ok_pair_inj read
    rw [← sameFraction, sameRest]
    exact ⟨[], rfl, .missing⟩

theorem readFraction_text {text rest : Bytes} {fraction : Option Bytes}
    (written : FractionText text fraction) (ends : DigitsEnd rest) (noPoint : rest.head? ≠ some 0x2E) :
    readFraction (text ++ rest) = .ok (fraction, rest) := by
  cases written with
  | missing =>
      unfold readFraction
      split
      · rename_i tail same
        exact absurd (congrArg List.head? same) noPoint
      · rfl
  | @point digits areDigits =>
      have read := readDigits_eq_ok.2 ⟨rfl, areDigits, ends⟩
      simp only [List.cons_append, readFraction, read, ok_bind]

theorem readSign_split (bytes : Bytes) :
    ∃ text, bytes = text ++ (readSign bytes).2 ∧ SignText text (readSign bytes).1 := by
  unfold readSign
  split
  · exact ⟨[0x2B], rfl, .plus⟩
  · exact ⟨[0x2D], rfl, .minus⟩
  · exact ⟨[], rfl, .missing⟩

theorem readSign_text {text digits : Bytes} {below : Bool} (written : SignText text below)
    (areDigits : Digits digits) (rest : Bytes) :
    readSign (text ++ (digits ++ rest)) = (below, digits ++ rest) := by
  cases written with
  | plus | minus => rfl
  | missing =>
      cases digits with
      | nil => exact absurd rfl areDigits.1
      | cons first digits =>
          have isFirst := areDigits.2 first List.mem_cons_self
          unfold readSign
          split
          · rename_i tail same
            rw [(List.cons.inj same).1] at isFirst
            exact absurd isFirst (by decide)
          · rename_i tail same
            rw [(List.cons.inj same).1] at isFirst
            exact absurd isFirst (by decide)
          · rfl

theorem readExponent_eq_ok {bytes rest : Bytes} {exponent : Option (Bool × Bytes)}
    (read : readExponent bytes = .ok (exponent, rest)) :
    ∃ text, bytes = text ++ rest ∧ ExponentText text exponent := by
  unfold readExponent at read
  split at read
  · rename_i letter tail
    split at read
    · rename_i isLetter
      obtain ⟨sign, sameTail, signed⟩ := readSign_split tail
      generalize readSign tail = found at read sameTail signed
      rcases found with ⟨below, afterSign⟩
      obtain ⟨⟨digits, after⟩, digitsRead, later⟩ := bind_eq_ok.1 read
      obtain ⟨sameExponent, sameRest⟩ := ok_pair_inj later
      obtain ⟨same, areDigits, _⟩ := readDigits_eq_ok.1 digitsRead
      rw [← sameExponent, ← sameRest, sameTail, same]
      simp only [Bool.or_eq_true, decide_eq_true_eq] at isLetter
      exact ⟨letter :: (sign ++ digits), by simp, .power isLetter signed areDigits⟩
    · obtain ⟨sameExponent, sameRest⟩ := ok_pair_inj read
      rw [← sameExponent, sameRest]
      exact ⟨[], rfl, .missing⟩
  · obtain ⟨sameExponent, sameRest⟩ := ok_pair_inj read
    rw [← sameExponent, ← sameRest]
    exact ⟨[], rfl, .missing⟩

theorem readExponent_text {text rest : Bytes} {exponent : Option (Bool × Bytes)}
    (written : ExponentText text exponent) (stops : Delimits rest) :
    readExponent (text ++ rest) = .ok (exponent, rest) := by
  cases written with
  | missing =>
      cases rest with
      | nil => rfl
      | cons byte tail =>
          obtain ⟨_, _, small, large⟩ := stops byte tail rfl
          simp [readExponent, small, large]
  | @power letter sign digits below isLetter signed areDigits =>
      have read := readDigits_eq_ok.2 ⟨rfl, areDigits, stops.digitsEnd⟩
      have letterTest : (decide (letter = 0x65) || decide (letter = 0x45)) = true := by
        simpa using isLetter
      simp only [List.cons_append, List.append_assoc, readExponent, letterTest, if_true,
        readSign_text signed areDigits, read, ok_bind]

theorem readMinus_split (bytes : Bytes) :
    bytes = minusText (readMinus bytes).1 ++ (readMinus bytes).2 := by
  unfold readMinus
  split <;> rfl

theorem readMinus_text (negative : Bool) {digits : Bytes} (areDigits : Digits digits) (rest : Bytes) :
    readMinus (minusText negative ++ (digits ++ rest)) = (negative, digits ++ rest) := by
  cases negative with
  | true => rfl
  | false =>
      cases digits with
      | nil => exact absurd rfl areDigits.1
      | cons first digits =>
          have isFirst := areDigits.2 first List.mem_cons_self
          unfold readMinus
          split
          · rename_i tail same
            rw [(List.cons.inj same).1] at isFirst
            exact absurd isFirst (by decide)
          · rfl

theorem literalText_of_readLiteral {bytes rest : Bytes} {literal : Literal}
    (read : readLiteral bytes = .ok (literal, rest)) :
    ∃ text, bytes = text ++ rest ∧ LiteralText text literal := by
  simp only [readLiteral, bind_eq_ok, Prod.exists] at read
  rcases read with ⟨whole, afterWhole, wholeRead, fraction, afterFraction, fractionRead, exponent,
    afterExponent, exponentRead, later⟩
  obtain ⟨sameLiteral, sameRest⟩ := ok_pair_inj later
  obtain ⟨sameWhole, wholeDigits, _⟩ := readWhole_eq_ok.1 wholeRead
  obtain ⟨fractionText, sameFraction, fractionWritten⟩ := readFraction_eq_ok fractionRead
  obtain ⟨exponentText, sameExponent, exponentWritten⟩ := readExponent_eq_ok exponentRead
  rw [← sameLiteral, ← sameRest]
  refine ⟨minusText (readMinus bytes).1 ++ (whole ++ (fractionText ++ exponentText)), ?_,
    fractionText, exponentText, rfl, wholeDigits, fractionWritten, exponentWritten⟩
  rw [List.append_assoc, List.append_assoc, List.append_assoc, ← sameExponent, ← sameFraction,
    ← sameWhole]
  exact readMinus_split bytes

theorem readLiteral_text {text rest : Bytes} {literal : Literal} (written : LiteralText text literal)
    (stops : Delimits rest) : readLiteral (text ++ rest) = .ok (literal, rest) := by
  rcases literal with ⟨negative, whole, fractionDigits, exponentDigits⟩
  obtain ⟨fraction, exponent, rfl, wholeDigits, fractionWritten, exponentWritten⟩ := written
  have behindFraction : DigitsEnd (exponent ++ rest) ∧ (exponent ++ rest).head? ≠ some 0x2E := by
    cases exponentWritten with
    | missing => exact ⟨stops.digitsEnd, stops.noPoint⟩
    | power isLetter _ _ =>
        rcases isLetter with rfl | rfl
        · exact ⟨digitsEnd_cons _ (by decide), by simp⟩
        · exact ⟨digitsEnd_cons _ (by decide), by simp⟩
  have behindWhole : DigitsEnd (fraction ++ (exponent ++ rest)) := by
    cases fractionWritten with
    | missing => exact behindFraction.1
    | point => exact digitsEnd_cons _ (by decide)
  have minus := readMinus_text negative wholeDigits.1 (fraction ++ (exponent ++ rest))
  have wholeRead := readWhole_eq_ok.2 ⟨rfl, wholeDigits, behindWhole⟩
  have fractionRead := readFraction_text fractionWritten behindFraction.1 behindFraction.2
  simp only [List.append_assoc, readLiteral, minus, wholeRead, ok_bind, fractionRead,
    readExponent_text exponentWritten stops]

/-! What a number begins with. -/

theorem LiteralText.begins {text : Bytes} {literal : Literal} (written : LiteralText text literal) :
    ∃ byte tail, text = byte :: tail ∧ (byte = 0x2D || isDigit byte) = true := by
  rcases literal with ⟨negative, whole, fractionDigits, exponentDigits⟩
  obtain ⟨fraction, exponent, rfl, wholeDigits, _, _⟩ := written
  cases negative with
  | true => exact ⟨0x2D, _, rfl, rfl⟩
  | false =>
      cases whole with
      | nil => exact absurd rfl wholeDigits.1.1
      | cons first digits =>
          exact ⟨first, _, rfl, by simp [wholeDigits.1.2 first List.mem_cons_self]⟩

theorem numeric_apart {byte : UInt8} (numeric : (byte = 0x2D || isDigit byte) = true) :
    isBlank byte = false ∧ byte ≠ 0x6E ∧ byte ≠ 0x74 ∧ byte ≠ 0x66 ∧ byte ≠ closeList ∧
      byte ≠ closeRecord ∧ byte ≠ openList ∧ byte ≠ openRecord := by
  simp only [isDigit, Bool.or_eq_true, Bool.and_eq_true, decide_eq_true_eq, ← UInt8.toNat_inj,
    UInt8.le_iff_toNat_le, UInt8.reduceToNat] at numeric
  simp only [isBlank, Bool.or_eq_false_iff, decide_eq_false_iff_not, ne_eq, closeList, closeRecord,
    openList, openRecord, ← UInt8.toNat_inj, UInt8.reduceToNat]
  omega

theorem skipBlanks_of_head (byte : UInt8) (rest : Bytes) (notBlank : isBlank byte = false) :
    skipBlanks (byte :: rest) = byte :: rest := by
  simp [skipBlanks, notBlank]

theorem readFound_numeric {byte : UInt8} (numeric : (byte = 0x2D || isDigit byte) = true)
    (tail : Bytes) : readFound (byte :: tail) =
      (readNumber (byte :: tail)).map fun taken => (.number taken.1, taken.2) := by
  obtain ⟨notBlank, notNull, notTrue, notFalse, _⟩ := numeric_apart numeric
  rw [readFound, skipBlanks_of_head _ _ notBlank]
  simp only [notNull, notTrue, notFalse, if_false, numeric, if_true]
  cases readNumber (byte :: tail) <;> rfl

end LedgerWire.Json

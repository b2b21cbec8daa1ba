import LedgerWire.Proofs.Json.Lexeme

/-!
Doubles are written as literals: the digits of the shortest decimal begin with no zero, wherever the
point is put among them, and an exponent may follow. An infinity and a NaN are written as null.
-/

namespace LedgerWire

namespace Decimal

theorem Interval.search_digits {interval : Interval} {tries : Nat} : ∀ {power : Int} {decimal : Scaled},
    interval.search power tries = some decimal → decimal.digits ≠ 0 := by
  induction tries with
  | zero =>
      intro power decimal found
      simp [Interval.search] at found
  | succ tries ih =>
      intro power decimal found
      rw [Interval.search] at found
      split at found
      · rw [← Option.some.inj found]
        exact Nat.succ_ne_zero _
      · exact ih found

theorem stripZeros_digits (fuel : Nat) : ∀ {decimal : Scaled},
    decimal.digits ≠ 0 → (stripZeros fuel decimal).digits ≠ 0 := by
  induction fuel with
  | zero => exact id
  | succ fuel ih =>
      intro decimal notZero
      rw [stripZeros]
      split
      · rename_i multiple
        simp only [Bool.and_eq_true, decide_eq_true_eq] at multiple
        refine ih ?_
        dsimp only
        omega
      · exact notZero

theorem shortest_digits {binary : Binary} (notZero : binary.significand ≠ 0) :
    (shortest binary).digits ≠ 0 := by
  unfold shortest
  dsimp only
  split
  · rename_i found
    exact stripZeros_digits 20 (Interval.search_digits found)
  · exact notZero

end Decimal

namespace Json

def Magnitude (text : Bytes) : Prop :=
  ∃ whole fraction exponent fractionDigits exponentDigits, text = whole ++ (fraction ++ exponent) ∧
    WholeDigits whole ∧ FractionText fraction fractionDigits ∧ ExponentText exponent exponentDigits

theorem Magnitude.signed {text : Bytes} (magnitude : Magnitude text) (negative : Bool) :
    ∃ literal, LiteralText (minusText negative ++ text) literal := by
  obtain ⟨whole, fraction, exponent, fractionDigits, exponentDigits, rfl, isWhole, isFraction,
    isExponent⟩ := magnitude
  exact ⟨⟨negative, whole, fractionDigits, exponentDigits⟩, fraction, exponent, rfl, isWhole, isFraction,
    isExponent⟩

structure Leading (digits : List Char) : Prop where
  areDigits : ∀ digit ∈ digits, digit.isDigit = true
  someDigits : digits ≠ []
  noZero : digits.head? ≠ some '0'

theorem leading_toDigits {value : Nat} (notZero : value ≠ 0) : Leading (Nat.toDigits 10 value) where
  areDigits _ member := Nat.isDigit_of_mem_toDigits (by decide) (by decide) member
  someDigits := Nat.toDigits_ne_nil
  noZero := toDigits_head value (Nat.pos_of_ne_zero notZero)

theorem Leading.wholeDigits {digits : List Char} (leading : Leading digits) :
    WholeDigits (Ascii.bytes digits) :=
  (wholeDigits_bytes leading.areDigits).2
    ⟨leading.someDigits, fun zero => absurd zero leading.noZero⟩

theorem Leading.append {digits : List Char} (leading : Leading digits) {others : List Char}
    (areDigits : ∀ digit ∈ others, digit.isDigit = true) : Leading (digits ++ others) where
  areDigits digit member := (List.mem_append.1 member).elim (leading.areDigits digit) (areDigits digit)
  someDigits := List.append_ne_nil_of_left_ne_nil leading.someDigits others
  noZero := by
    rw [List.head?_append_of_ne_nil digits leading.someDigits]
    exact leading.noZero

theorem Leading.take {digits : List Char} (leading : Leading digits) {count : Nat} (positive : 0 < count) :
    Leading (digits.take count) where
  areDigits digit member := leading.areDigits digit (List.mem_of_mem_take member)
  someDigits := by
    rw [ne_eq, List.take_eq_nil_iff, not_or]
    exact ⟨Nat.ne_of_gt positive, leading.someDigits⟩
  noZero := by
    rw [List.head?_take, if_neg (Nat.ne_of_gt positive)]
    exact leading.noZero

theorem isDigit_zeros (count : Nat) : ∀ digit ∈ Decimal.zeros count, digit.isDigit = true := by
  intro digit member
  rw [List.eq_of_mem_replicate member]
  rfl

theorem zeroAlone : WholeDigits (Ascii.bytes ['0']) := (wholeDigits_bytes (by simp)).2 (by simp)

theorem digits_bytes {digits : List Char} (areDigits : ∀ digit ∈ digits, digit.isDigit = true)
    (someDigits : digits ≠ []) : Digits (Ascii.bytes digits) :=
  ⟨fun none => someDigits (List.map_eq_nil_iff.1 none), isDigit_bytes areDigits⟩

theorem bytes_append (front back : List Char) :
    Ascii.bytes (front ++ back) = Ascii.bytes front ++ Ascii.bytes back :=
  List.map_append

theorem magnitude_positional {whole fraction : List Char} (isWhole : WholeDigits (Ascii.bytes whole))
    (areDigits : ∀ digit ∈ fraction, digit.isDigit = true) (someDigits : fraction ≠ []) :
    Magnitude (Ascii.bytes (whole ++ '.' :: fraction)) :=
  ⟨_, _, [], _, none, by rw [bytes_append, List.append_nil]; rfl, isWhole,
    .point (digits_bytes areDigits someDigits), .missing⟩

theorem exponentText_power (power : Int) : ∃ exponentDigits,
    ExponentText (Ascii.bytes (numberNotation.exponentText power)) exponentDigits := by
  have areDigits : Digits (Ascii.bytes (Nat.toDigits 10 power.natAbs)) :=
    digits_bytes (fun _ member => Nat.isDigit_of_mem_toDigits (by decide) (by decide) member)
      Nat.toDigits_ne_nil
  by_cases below : power < 0
  · rw [Decimal.Notation.exponentText, if_pos below]
    exact ⟨_, .power (Or.inl rfl) .minus areDigits⟩
  · rw [Decimal.Notation.exponentText, if_neg below]
    exact ⟨_, .power (Or.inl rfl) .plus areDigits⟩

theorem magnitude_layOut {decimal : Decimal.Scaled} (notZero : decimal.digits ≠ 0) :
    Magnitude (Ascii.bytes (numberNotation.layOut decimal)) := by
  have leading := leading_toDigits notZero
  unfold Decimal.Notation.layOut
  generalize Nat.toDigits 10 decimal.digits = digits at leading
  dsimp only
  generalize decimal.power + (digits.length : Int) - 1 = power
  obtain ⟨exponentDigits, isExponent⟩ := exponentText_power power
  split
  -- A zero in front of the point, zeros behind the digits, or the point among them.
  · split
    · refine magnitude_positional zeroAlone ?_ (List.append_ne_nil_of_right_ne_nil _ leading.someDigits)
      intro digit member
      exact (List.mem_append.1 member).elim (isDigit_zeros _ digit) (leading.areDigits digit)
    · split
      · exact magnitude_positional (leading.append (isDigit_zeros _)).wholeDigits (by simp) (by simp)
      · rename_i longer
        refine magnitude_positional (leading.take (Nat.succ_pos _)).wholeDigits ?_ ?_
        · exact fun digit member => leading.areDigits digit (List.mem_of_mem_drop member)
        · rw [ne_eq, List.drop_eq_nil_iff]
          exact longer
  -- An exponent behind the only digit, or behind the fraction that the others are.
  · split
    · exact ⟨_, [], _, none, exponentDigits, rfl, leading.wholeDigits, .missing, isExponent⟩
    · rename_i first rest notSingle
      have isFirst : WholeDigits (Ascii.bytes [first]) := (leading.take Nat.one_pos).wholeDigits
      have areDigits : Digits (Ascii.bytes rest) :=
        digits_bytes (fun digit member => leading.areDigits digit (List.mem_cons_of_mem _ member))
          notSingle
      refine ⟨_, _, _, _, exponentDigits, ?_, isFirst, .point areDigits, isExponent⟩
      rw [← List.singleton_append, bytes_append, bytes_append, List.append_assoc]
      rfl
    · exact absurd rfl leading.someDigits

/-- A finite double is written as a literal. -/
theorem literalText_float (value : Float) :
    ∃ literal, LiteralText (Ascii.bytes (numberNotation.write value)) literal := by
  have magnitude : Magnitude (Ascii.bytes
      (if (Decimal.Binary.ofBits value.toBits).significand = 0 then ['0', '.', '0']
        else numberNotation.layOut (Decimal.shortest (Decimal.Binary.ofBits value.toBits)))) := by
    split
    · exact magnitude_positional zeroAlone (by simp) (by simp)
    · rename_i notZero
      exact magnitude_layOut (Decimal.shortest_digits notZero)
  unfold Decimal.Notation.write
  dsimp only
  split
  · exact magnitude.signed true
  · exact magnitude.signed false

end Json

end LedgerWire

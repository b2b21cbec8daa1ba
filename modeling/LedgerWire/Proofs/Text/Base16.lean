import LedgerWire.Proofs.Text.Digits
import Mathlib.Data.Nat.Digits.Lemmas

/-!
Base-16 text and bytes as numbers. Pairs of digits are decoded exactly where all of them are digits,
the bytes stand for the number that the digits write, and otherwise the first that is no digit is
reported.
-/

namespace LedgerWire

theorem ofDigits_reverse_cons (base first : Nat) (rest : List Nat) :
    Nat.ofDigits base (first :: rest).reverse =
      first * base ^ rest.length + Nat.ofDigits base rest.reverse := by
  rw [List.reverse_cons, Nat.ofDigits_append, Nat.ofDigits_singleton, List.length_reverse]
  ring

/-- The number that bytes stand for, the first of them counting most. -/
def bigEndian (bytes : Bytes) : Nat := Nat.ofDigits 256 (bytes.map UInt8.toNat).reverse

theorem bigEndian_cons (byte : UInt8) (rest : Bytes) :
    bigEndian (byte :: rest) = byte.toNat * 256 ^ rest.length + bigEndian rest := by
  rw [bigEndian, List.map_cons, ofDigits_reverse_cons, List.length_map, bigEndian]

theorem bigEndian_zeros (count : Nat) (bytes : Bytes) :
    bigEndian (List.replicate count 0 ++ bytes) = bigEndian bytes := by
  induction count with
  | zero => rfl
  | succ count ih =>
      rw [List.replicate_succ, List.cons_append, bigEndian_cons, ih]
      simp

theorem bigEndian_inj {left right : Bytes} (sameLength : left.length = right.length) :
    bigEndian left = bigEndian right ↔ left = right := by
  constructor
  · intro same
    have small : ∀ bytes : Bytes, ∀ value ∈ (bytes.map UInt8.toNat).reverse, value < 256 := by
      intro bytes value member
      obtain ⟨byte, _, isByte⟩ := List.mem_map.1 (List.mem_reverse.1 member)
      rw [← isByte]
      exact byte.toNat_lt
    have reversed : (left.map UInt8.toNat).reverse = (right.map UInt8.toNat).reverse :=
      Nat.ofDigits_inj_of_len_eq (by decide) (by simpa using sameLength) (small left) (small right) same
    exact List.map_injective_iff.2 (fun _ _ => UInt8.toNat_inj.1) (List.reverse_inj.1 reversed)
  · exact congrArg bigEndian

namespace Hex

def IsDigit (byte : UInt8) : Prop :=
  0x30 ≤ byte ∧ byte ≤ 0x39 ∨ 0x41 ≤ byte ∧ byte ≤ 0x46 ∨ 0x61 ≤ byte ∧ byte ≤ 0x66

instance (byte : UInt8) : Decidable (IsDigit byte) := inferInstanceAs (Decidable (_ ∨ _))

def digitNumber (byte : UInt8) : Nat :=
  if byte ≤ 0x39 then byte.toNat - 0x30
  else if byte ≤ 0x46 then byte.toNat - 0x37
  else byte.toNat - 0x57

/-- The number that digits write, the first of them counting most. -/
def number (digits : Bytes) : Nat := Nat.ofDigits 16 (digits.map digitNumber).reverse

theorem number_cons (digit : UInt8) (rest : Bytes) :
    number (digit :: rest) = digitNumber digit * 16 ^ rest.length + number rest := by
  rw [number, List.map_cons, ofDigits_reverse_cons, List.length_map, number]

theorem number_zero (digits : Bytes) : number (0x30 :: digits) = number digits := by
  have isZero : digitNumber 0x30 = 0 := rfl
  rw [number_cons, isZero, Nat.zero_mul, Nat.zero_add]

theorem number_dropZeros (digits : Bytes) : number (digits.dropWhile (· = 0x30)) = number digits := by
  induction digits with
  | nil => rfl
  | cons digit rest ih =>
      by_cases isZero : digit = 0x30
      · rw [isZero, List.dropWhile_cons_of_pos (by simp), ih, number_zero]
      · rw [List.dropWhile_cons_of_neg (by simpa using isZero)]

theorem digitNumber_lt {byte : UInt8} (isDigit : IsDigit byte) : digitNumber byte < 16 := by
  simp only [IsDigit, digitNumber, UInt8.le_iff_toNat_le, UInt8.reduceToNat] at *
  split
  · omega
  · split <;> omega

theorem digitValue?_of_isDigit {byte : UInt8} (isDigit : IsDigit byte) :
    ∃ value, digitValue? byte = some value ∧ value.toNat = digitNumber byte := by
  have bound := byte.toNat_lt
  simp only [IsDigit, digitValue?, digitNumber, UInt8.le_iff_toNat_le, UInt8.reduceToNat,
    Bool.and_eq_true, decide_eq_true_eq] at *
  rcases isDigit with decimal | upper | lower
  · rw [if_pos decimal, if_pos decimal.2]
    refine ⟨_, rfl, ?_⟩
    simp only [UInt8.toNat_sub, UInt8.reduceToNat]
    omega
  · rw [if_neg (by omega), if_pos upper, if_neg (by omega), if_pos upper.2]
    refine ⟨_, rfl, ?_⟩
    simp only [UInt8.toNat_sub, UInt8.reduceToNat]
    omega
  · rw [if_neg (by omega), if_neg (by omega), if_pos lower, if_neg (by omega), if_neg (by omega)]
    refine ⟨_, rfl, ?_⟩
    simp only [UInt8.toNat_sub, UInt8.reduceToNat]
    omega

theorem digitValue?_of_not_isDigit {byte : UInt8} (noDigit : ¬ IsDigit byte) :
    digitValue? byte = none := by
  simp only [IsDigit, digitValue?, UInt8.le_iff_toNat_le, UInt8.reduceToNat, Bool.and_eq_true,
    decide_eq_true_eq] at *
  rw [if_neg (by omega), if_neg (by omega), if_neg (by omega)]

theorem toNat_pair {high low : UInt8} (highSmall : high.toNat < 16) (lowSmall : low.toNat < 16) :
    (high * 16 + low).toNat = high.toNat * 16 + low.toNat := by
  simp only [UInt8.toNat_add, UInt8.toNat_mul, UInt8.reduceToNat]
  omega

theorem decodeFrom_digits (pairs : Nat) : ∀ (digits : Bytes) (position : Nat),
    digits.length = 2 * pairs → (∀ digit ∈ digits, IsDigit digit) →
      ∃ bytes, decodeFrom position digits = .ok bytes ∧ bytes.length = pairs ∧
        bigEndian bytes = number digits := by
  induction pairs with
  | zero =>
      intro digits position isEmpty _
      rw [List.eq_nil_of_length_eq_zero isEmpty]
      exact ⟨[], rfl, rfl, rfl⟩
  | succ pairs ih =>
      intro digits position isLong areDigits
      match digits, isLong, areDigits with
      | high :: low :: rest, isLong, areDigits =>
          have restLength : rest.length = 2 * pairs := by
            simp only [List.length_cons] at isLong
            omega
          obtain ⟨bytes, decoded, length, same⟩ := ih rest (position + 2) restLength
            fun digit member => areDigits digit (by simp [member])
          have highDigit := areDigits high (by simp)
          have lowDigit := areDigits low (by simp)
          obtain ⟨highValue, highRead, highNumber⟩ := digitValue?_of_isDigit highDigit
          obtain ⟨lowValue, lowRead, lowNumber⟩ := digitValue?_of_isDigit lowDigit
          have joined : (highValue * 16 + lowValue).toNat = digitNumber high * 16 + digitNumber low := by
            rw [toNat_pair, highNumber, lowNumber]
            · rw [highNumber]
              exact digitNumber_lt highDigit
            · rw [lowNumber]
              exact digitNumber_lt lowDigit
          refine ⟨(highValue * 16 + lowValue) :: bytes, ?_, by rw [List.length_cons, length], ?_⟩
          · rw [decodeFrom, highRead]
            dsimp only
            rw [lowRead, decoded]
          · rw [bigEndian_cons, number_cons, number_cons, joined, same, length, List.length_cons,
              restLength, Nat.pow_succ, Nat.pow_mul]
            ring

theorem decodeFrom_noDigit {bad : UInt8} (noDigit : ¬ IsDigit bad) (pairs : Nat) :
    ∀ (front behind : Bytes) (position : Nat), (front ++ bad :: behind).length = 2 * pairs →
      (∀ digit ∈ front, IsDigit digit) →
        decodeFrom position (front ++ bad :: behind) = .error ⟨bad, position + front.length⟩ := by
  have unread := digitValue?_of_not_isDigit noDigit
  induction pairs with
  | zero =>
      intro front behind position isEmpty _
      simp at isEmpty
  | succ pairs ih =>
      intro front behind position isLong areDigits
      match front, behind, isLong, areDigits with
      | [], [], isLong, _ =>
          simp only [List.nil_append, List.length_cons, List.length_nil] at isLong
          omega
      | [], next :: behind, _, _ =>
          simp [decodeFrom, unread]
      | [high], behind, _, areDigits =>
          obtain ⟨_, highRead, _⟩ := digitValue?_of_isDigit (areDigits high (by simp))
          simp [decodeFrom, highRead, unread]
      | high :: low :: front, behind, isLong, areDigits =>
          have later := ih front behind (position + 2)
            (by simp only [List.cons_append, List.length_cons] at isLong ⊢; omega)
            fun digit member => areDigits digit (by simp [member])
          obtain ⟨_, highRead, _⟩ := digitValue?_of_isDigit (areDigits high (by simp))
          obtain ⟨_, lowRead, _⟩ := digitValue?_of_isDigit (areDigits low (by simp))
          simp only [List.cons_append, decodeFrom, highRead, lowRead, later, List.length_cons]
          congr 2
          omega

theorem all_digits_or_first (bytes : Bytes) :
    (∀ byte ∈ bytes, IsDigit byte) ∨
      ∃ front bad behind, bytes = front ++ bad :: behind ∧ (∀ byte ∈ front, IsDigit byte) ∧
        ¬ IsDigit bad := by
  induction bytes with
  | nil => exact Or.inl (by simp)
  | cons byte rest ih =>
      by_cases isDigit : IsDigit byte
      · rcases ih with all | ⟨front, bad, behind, same, areDigits, noDigit⟩
        · exact Or.inl (by simpa using ⟨isDigit, all⟩)
        · refine Or.inr ⟨byte :: front, bad, behind, by rw [same]; rfl, ?_, noDigit⟩
          simpa using ⟨isDigit, areDigits⟩
      · exact Or.inr ⟨[], byte, rest, rfl, by simp, isDigit⟩

theorem decode_digits {digits : Bytes} (even : digits.length % 2 = 0)
    (areDigits : ∀ digit ∈ digits, IsDigit digit) :
    ∃ bytes, decode digits = .ok bytes ∧ bytes.length = digits.length / 2 ∧
      bigEndian bytes = number digits :=
  decodeFrom_digits _ digits 0 (by omega) areDigits

theorem decode_noDigit {bad : UInt8} (noDigit : ¬ IsDigit bad) {front behind : Bytes}
    (even : (front ++ bad :: behind).length % 2 = 0) (areDigits : ∀ digit ∈ front, IsDigit digit) :
    decode (front ++ bad :: behind) = .error ⟨bad, front.length⟩ := by
  have pairs : (front ++ bad :: behind).length = 2 * ((front ++ bad :: behind).length / 2) := by omega
  rw [decode, decodeFrom_noDigit noDigit _ front behind 0 pairs areDigits, Nat.zero_add]

theorem decode_eq_ok {digits bytes : Bytes} (even : digits.length % 2 = 0) :
    decode digits = .ok bytes ↔
      (∀ digit ∈ digits, IsDigit digit) ∧ bytes.length = digits.length / 2 ∧
        bigEndian bytes = number digits := by
  rcases all_digits_or_first digits with all | ⟨front, bad, behind, rfl, areDigits, noDigit⟩
  · obtain ⟨others, decoded, length, value⟩ := decode_digits even all
    rw [decoded, Except.ok.injEq]
    constructor
    · intro same
      rw [← same]
      exact ⟨all, length, value⟩
    · rintro ⟨_, sameLength, sameValue⟩
      exact (bigEndian_inj (length.trans sameLength.symm)).1 (value.trans sameValue.symm)
  · rw [decode_noDigit noDigit even areDigits]
    refine ⟨fun impossible => by simp at impossible, ?_⟩
    rintro ⟨all, _⟩
    exact absurd (all bad (by simp)) noDigit

theorem decode_eq_error {digits : Bytes} {fault : Fault} (even : digits.length % 2 = 0) :
    decode digits = .error fault ↔
      ∃ front behind, digits = front ++ fault.byte :: behind ∧ (∀ digit ∈ front, IsDigit digit) ∧
        ¬ IsDigit fault.byte ∧ fault.position = front.length := by
  constructor
  · intro refused
    rcases all_digits_or_first digits with all | ⟨front, bad, behind, rfl, areDigits, noDigit⟩
    · obtain ⟨bytes, decoded, _⟩ := decode_digits even all
      rw [decoded] at refused
      simp at refused
    · rw [decode_noDigit noDigit even areDigits] at refused
      rw [← Except.error.inj refused]
      exact ⟨front, behind, rfl, areDigits, noDigit, rfl⟩
  · rintro ⟨front, behind, rfl, areDigits, noDigit, place⟩
    rw [decode_noDigit noDigit even areDigits, ← place]

/-! Digits in either case. -/

def lower (digit : UInt8) : UInt8 := if 0x41 ≤ digit ∧ digit ≤ 0x46 then digit + 0x20 else digit

def upper (digit : UInt8) : UInt8 := if 0x61 ≤ digit ∧ digit ≤ 0x66 then digit - 0x20 else digit

theorem isDigit_of_digitValue? {byte value : UInt8} (read : digitValue? byte = some value) :
    IsDigit byte ∧ value.toNat = digitNumber byte := by
  have isDigit : IsDigit byte := by
    by_contra noDigit
    rw [digitValue?_of_not_isDigit noDigit] at read
    simp at read
  obtain ⟨other, otherRead, same⟩ := digitValue?_of_isDigit isDigit
  rw [read] at otherRead
  rw [Option.some.inj otherRead]
  exact ⟨isDigit, same⟩

theorem digit_of_digitValue? {byte value : UInt8} (read : digitValue? byte = some value) :
    digit value = lower byte := by
  obtain ⟨isDigit, same⟩ := isDigit_of_digitValue? read
  have small : value.toNat < 16 := by
    rw [same]
    exact digitNumber_lt isDigit
  have written := toNat_digit value small
  simp only [IsDigit, digitNumber, lower, UInt8.le_iff_toNat_le, UInt8.reduceToNat] at *
  rw [← UInt8.toNat_inj, written]
  rcases isDigit with decimal | capital | small
  · rw [if_pos decimal.2] at same
    rw [if_pos (by omega), if_neg (by omega)]
    omega
  · rw [if_neg (by omega), if_pos capital.2] at same
    rw [if_neg (by omega), if_pos capital]
    simp only [UInt8.toNat_add, UInt8.reduceToNat]
    omega
  · rw [if_neg (by omega), if_neg (by omega)] at same
    rw [if_neg (by omega), if_neg (by omega)]
    omega

theorem encode_of_decodeFrom (digits : Bytes) : ∀ {position : Nat} {bytes : Bytes},
    decodeFrom position digits = .ok bytes → encode bytes = digits.map lower := by
  induction digits using List.twoStepInduction with
  | nil =>
      intro position bytes decoded
      rw [← Except.ok.inj decoded]
      rfl
  | singleton last =>
      intro position bytes decoded
      simp [decodeFrom] at decoded
  | cons_cons high low rest ih _ =>
      intro position bytes decoded
      rw [decodeFrom] at decoded
      split at decoded
      · simp at decoded
      · rename_i highValue highRead
        split at decoded
        · simp at decoded
        · rename_i lowValue lowRead
          split at decoded
          · simp at decoded
          · rename_i others restDecoded
            obtain ⟨highDigit, highNumber⟩ := isDigit_of_digitValue? highRead
            obtain ⟨lowDigit, lowNumber⟩ := isDigit_of_digitValue? lowRead
            have highSmall : highValue.toNat < 16 := highNumber ▸ digitNumber_lt highDigit
            have lowSmall : lowValue.toNat < 16 := lowNumber ▸ digitNumber_lt lowDigit
            have highHalf : (highValue * 16 + lowValue) / 16 = highValue := by
              simp only [← UInt8.toNat_inj, UInt8.toNat_div, toNat_pair highSmall lowSmall,
                UInt8.reduceToNat]
              omega
            have lowHalf : (highValue * 16 + lowValue) % 16 = lowValue := by
              simp only [← UInt8.toNat_inj, UInt8.toNat_mod, toNat_pair highSmall lowSmall,
                UInt8.reduceToNat]
              omega
            rw [← Except.ok.inj decoded, encode_cons, highHalf, lowHalf,
              digit_of_digitValue? highRead, digit_of_digitValue? lowRead, ih restDecoded]
            rfl

theorem isDigit_upper {digit : UInt8} (isDigit : IsDigit digit) :
    IsDigit (upper digit) ∧ digitNumber (upper digit) = digitNumber digit := by
  have bound := digit.toNat_lt
  unfold upper
  split
  · rename_i small
    simp only [IsDigit, digitNumber, UInt8.le_iff_toNat_le, UInt8.toNat_sub, UInt8.reduceToNat] at *
    refine ⟨Or.inr (Or.inl ⟨by omega, by omega⟩), ?_⟩
    rw [if_neg (by omega), if_pos (by omega), if_neg (by omega), if_neg (by omega)]
    omega
  · exact ⟨isDigit, rfl⟩

theorem number_map_upper {digits : Bytes} (areDigits : ∀ digit ∈ digits, IsDigit digit) :
    number (digits.map upper) = number digits := by
  rw [number, number, List.map_map]
  congr 2
  exact List.map_congr_left fun digit member => (isDigit_upper (areDigits digit member)).2

theorem isDigit_digit {value : UInt8} (small : value.toNat < 16) : IsDigit (digit value) :=
  (isDigit_of_digitValue? (digitValue?_digit value small)).1

theorem isDigit_encode (bytes : Bytes) : ∀ digit ∈ encode bytes, IsDigit digit := by
  intro digit member
  obtain ⟨byte, _, isHalf⟩ := List.mem_flatMap.1 member
  obtain ⟨high, low, _⟩ := halves byte
  rcases List.mem_cons.1 isHalf with isHigh | isLow
  · rw [isHigh]
    exact isDigit_digit high
  · rw [List.mem_singleton.1 isLow]
    exact isDigit_digit low

theorem number_encode (bytes : Bytes) : number (encode bytes) = bigEndian bytes := by
  have even : (encode bytes).length % 2 = 0 := by
    rw [length_encode]
    omega
  exact ((decode_eq_ok even).1 (decodeFrom_encode bytes 0)).2.2.symm

end Hex

end LedgerWire

import LedgerWire.Proofs.Text.Utf8
import LedgerWire.Text.Base64
import Mathlib.Algebra.Group.Nat.Defs

/-!
Base-64 text as six-bit values and as bits. Bytes are read from their own letters alone, with as much
of the padding as one likes, and the bits of the letters are those of the bytes and zeros behind them.
-/

namespace LedgerWire.Base64

def sextets : Bytes → List Nat
  | [] => []
  | [a] => [a.toNat / 4, a.toNat % 4 * 16]
  | [a, b] => [a.toNat / 4, a.toNat % 4 * 16 + b.toNat / 16, b.toNat % 16 * 4]
  | a :: b :: c :: rest =>
    a.toNat / 4 :: (a.toNat % 4 * 16 + b.toNat / 16) :: (b.toNat % 16 * 4 + c.toNat / 64) ::
      c.toNat % 64 :: sextets rest

def letters (bytes : Bytes) : Bytes := (sextets bytes).map letter

def missing (count : Nat) : Nat := (4 - count % 4) % 4

theorem length_letters (bytes : Bytes) : (letters bytes).length = (sextets bytes).length :=
  List.length_map ..

theorem encode_eq (bytes : Bytes) :
    encode bytes = letters bytes ++ List.replicate (missing (letters bytes).length) pad := by
  rw [length_letters]
  fun_induction encode bytes with
  | case1 => rfl
  | case2 a => rfl
  | case3 a b => rfl
  | case4 a b c rest ih =>
      have group : missing (sextets (a :: b :: c :: rest)).length = missing (sextets rest).length := by
        simp only [missing, sextets, List.length_cons]
        omega
      rw [group, ih]
      rfl

theorem length_letters_mod (bytes : Bytes) : (letters bytes).length % 4 ≠ 1 := by
  rw [length_letters]
  fun_induction sextets bytes with
  | case1 => simp
  | case2 a => simp
  | case3 a b => simp
  | case4 a b c rest ih =>
      simp only [List.length_cons]
      omega

theorem sextets_small (bytes : Bytes) : ∀ value ∈ sextets bytes, value < 64 := by
  fun_induction sextets bytes with
  | case1 => simp
  | case2 a =>
      have := a.toNat_lt
      intro value member
      simp only [List.mem_cons, List.not_mem_nil, or_false] at member
      omega
  | case3 a b =>
      have := a.toNat_lt
      have := b.toNat_lt
      intro value member
      simp only [List.mem_cons, List.not_mem_nil, or_false] at member
      omega
  | case4 a b c rest ih =>
      have := a.toNat_lt
      have := b.toNat_lt
      have := c.toNat_lt
      intro value member
      simp only [List.mem_cons] at member
      rcases member with first | second | third | fourth | later
      · omega
      · omega
      · omega
      · omega
      · exact ih value later

theorem toUInt8_eq {code : Nat} {byte : UInt8} (same : code = byte.toNat) : code.toUInt8 = byte := by
  rw [same]
  exact UInt8.ofNat_toNat

theorem pack_sextets (bytes : Bytes) : pack (sextets bytes) = (bytes, true) := by
  fun_induction sextets bytes with
  | case1 => rfl
  | case2 a =>
      have first : (a.toNat / 4 * 4 + a.toNat % 4 * 16 / 16).toUInt8 = a := toUInt8_eq (by omega)
      have clean : a.toNat % 4 * 16 % 16 = 0 := by omega
      simp only [pack, first, clean, decide_true]
  | case3 a b =>
      have := b.toNat_lt
      have first : (a.toNat / 4 * 4 + (a.toNat % 4 * 16 + b.toNat / 16) / 16).toUInt8 = a :=
        toUInt8_eq (by omega)
      have second : ((a.toNat % 4 * 16 + b.toNat / 16) % 16 * 16 + b.toNat % 16 * 4 / 4).toUInt8 = b :=
        toUInt8_eq (by omega)
      have clean : b.toNat % 16 * 4 % 4 = 0 := by omega
      simp only [pack, first, second, clean, decide_true]
  | case4 a b c rest ih =>
      have := b.toNat_lt
      have := c.toNat_lt
      have first : (a.toNat / 4 * 4 + (a.toNat % 4 * 16 + b.toNat / 16) / 16).toUInt8 = a :=
        toUInt8_eq (by omega)
      have second : ((a.toNat % 4 * 16 + b.toNat / 16) % 16 * 16 +
          (b.toNat % 16 * 4 + c.toNat / 64) / 4).toUInt8 = b := toUInt8_eq (by omega)
      have third : ((b.toNat % 16 * 4 + c.toNat / 64) % 4 * 64 + c.toNat % 64).toUInt8 = c :=
        toUInt8_eq (by omega)
      simp only [pack, ih, first, second, third]

theorem sextets_pack {values : List Nat} (small : ∀ value ∈ values, value < 64)
    (whole : values.length % 4 ≠ 1) (clean : (pack values).2 = true) :
    sextets (pack values).1 = values := by
  fun_induction pack values with
  | case1 a b c d rest bytes clean packed ih =>
      simp only [List.mem_cons, forall_eq_or_imp] at small
      obtain ⟨smallA, smallB, smallC, smallD, smallRest⟩ := small
      simp only [List.length_cons] at whole
      have later := ih smallRest (by omega) (by simpa [packed] using clean)
      rw [packed] at later
      simp only [sextets, later, Utf8.toNat_toUInt8 (show a * 4 + b / 16 < 256 by omega),
        Utf8.toNat_toUInt8 (show b % 16 * 16 + c / 4 < 256 by omega),
        Utf8.toNat_toUInt8 (show c % 4 * 64 + d < 256 by omega), List.cons.injEq, and_true]
      omega
  | case2 a b c =>
      simp only [List.mem_cons, forall_eq_or_imp, List.not_mem_nil, false_implies, implies_true,
        and_true] at small
      simp only [decide_eq_true_eq] at clean
      simp only [sextets, Utf8.toNat_toUInt8 (show a * 4 + b / 16 < 256 by omega),
        Utf8.toNat_toUInt8 (show b % 16 * 16 + c / 4 < 256 by omega), List.cons.injEq, and_true]
      omega
  | case3 a b =>
      simp only [List.mem_cons, forall_eq_or_imp, List.not_mem_nil, false_implies, implies_true,
        and_true] at small
      simp only [decide_eq_true_eq] at clean
      simp only [sextets, Utf8.toNat_toUInt8 (show a * 4 + b / 16 < 256 by omega), List.cons.injEq,
        and_true]
      omega
  | case4 a => simp at whole
  | case5 => rfl

theorem toNat_letter (value : Nat) (small : value < 64) :
    (letter value).toNat =
      if value < 26 then 0x41 + value
      else if value < 52 then 0x61 + (value - 26)
      else if value < 62 then 0x30 + (value - 52)
      else if value = 62 then 0x2B
      else 0x2F := by
  unfold letter
  repeat' split
  all_goals first
    | rfl
    | exact Utf8.toNat_toUInt8 (by omega)

theorem letterValue?_letter (value : Nat) (small : value < 64) :
    letterValue? (letter value) = some value := by
  have code := toNat_letter value small
  simp only [letterValue?, UInt8.le_iff_toNat_le, ← UInt8.toNat_inj, UInt8.reduceToNat,
    Bool.and_eq_true, decide_eq_true_eq, code]
  repeat' split
  all_goals first
    | omega
    | (simp only [Option.some.injEq]; omega)

theorem isLetter_letter (value : Nat) (small : value < 64) : isLetter (letter value) = true := by
  simp [isLetter, letterValue?_letter value small]

theorem letter_of_letterValue? {byte : UInt8} {value : Nat} (found : letterValue? byte = some value) :
    value < 64 ∧ letter value = byte := by
  have small : value < 64 := by
    simp only [letterValue?, UInt8.le_iff_toNat_le, UInt8.reduceToNat, Bool.and_eq_true,
      decide_eq_true_eq] at found
    repeat' split at found
    all_goals simp only [Option.some.injEq, reduceCtorEq] at found
    all_goals omega
  refine ⟨small, ?_⟩
  rw [← UInt8.toNat_inj, toNat_letter value small]
  simp only [letterValue?, UInt8.le_iff_toNat_le, ← UInt8.toNat_inj, UInt8.reduceToNat,
    Bool.and_eq_true, decide_eq_true_eq] at found
  repeat' split at found
  all_goals simp only [Option.some.injEq, reduceCtorEq] at found
  all_goals
    repeat' split
    all_goals omega

theorem isLetter_letters (bytes : Bytes) : ∀ byte ∈ letters bytes, isLetter byte = true := by
  intro byte member
  obtain ⟨value, inside, same⟩ := List.mem_map.1 member
  rw [← same]
  exact isLetter_letter value (sextets_small bytes value inside)

theorem letterValues_letters (bytes : Bytes) :
    (letters bytes).filterMap letterValue? = sextets bytes := by
  have small := sextets_small bytes
  rw [letters]
  generalize sextets bytes = values at small ⊢
  induction values with
  | nil => rfl
  | cons first rest ih =>
      rw [List.map_cons, List.filterMap_cons, letterValue?_letter first (small first (by simp)),
        ih fun value member => small value (List.mem_cons_of_mem _ member)]

theorem letters_of_values {text : Bytes} (areLetters : ∀ byte ∈ text, isLetter byte = true) :
    (text.filterMap letterValue?).map letter = text ∧
      ∀ value ∈ text.filterMap letterValue?, value < 64 := by
  induction text with
  | nil => simp
  | cons first rest ih =>
      obtain ⟨value, found⟩ := Option.isSome_iff_exists.1 (areLetters first List.mem_cons_self)
      obtain ⟨small, isFirst⟩ := letter_of_letterValue? found
      obtain ⟨written, smallRest⟩ := ih fun byte member => areLetters byte (List.mem_cons_of_mem _ member)
      simp only [List.filterMap_cons, found, List.map_cons, isFirst, written, List.mem_cons,
        forall_eq_or_imp]
      exact ⟨trivial, small, smallRest⟩

theorem paddingFits_iff {count : Nat} {rest : Bytes} (whole : count % 4 ≠ 1) :
    paddingFits count rest = true ↔ ∃ pads, pads ≤ missing count ∧ rest = List.replicate pads pad := by
  simp only [paddingFits, missing, Bool.or_eq_true, List.isEmpty_iff, Bool.and_eq_true,
    decide_eq_true_eq, List.all_eq_true]
  constructor
  · rintro (none | ⟨⟨atLeast, fits⟩, allPads⟩)
    · exact ⟨0, by omega, none⟩
    · exact ⟨rest.length, by omega, List.eq_replicate_iff.2 ⟨rfl, allPads⟩⟩
  · rintro ⟨pads, fits, isRest⟩
    rw [isRest]
    by_cases none : pads = 0
    · exact Or.inl (by rw [none]; rfl)
    · refine Or.inr ⟨⟨by omega, ?_⟩, fun byte member => List.eq_of_mem_replicate member⟩
      rw [List.length_replicate]
      omega

theorem takeWhile_pads (pads : Nat) : (List.replicate pads pad).takeWhile isLetter = [] := by
  cases pads with
  | zero => rfl
  | succ pads => rfl

theorem letters_of_decode {text bytes : Bytes} (decoded : decode text = .ok bytes) :
    ∃ pads, pads ≤ missing (letters bytes).length ∧ text = letters bytes ++ List.replicate pads pad := by
  have parts := List.takeWhile_append_dropWhile (p := isLetter) (l := text)
  obtain ⟨written, small⟩ :=
    letters_of_values (List.all_eq_true.1 (List.all_takeWhile (p := isLetter) (l := text)))
  have count : ((text.takeWhile isLetter).filterMap letterValue?).length =
      (text.takeWhile isLetter).length := by
    rw [← List.length_map, written]
  simp only [decode] at decoded
  generalize text.takeWhile isLetter = front at *
  generalize text.dropWhile isLetter = rest at *
  split at decoded
  · split at decoded
    · split at decoded <;> simp at decoded
    · simp at decoded
  rename_i notOne
  split at decoded
  · rename_i fits
    have whole : front.length % 4 ≠ 1 := by
      intro one
      have none : rest = [] := by
        simpa [paddingFits, one] using fits
      rw [← parts, none, List.append_nil] at notOne
      exact notOne one
    split at decoded
    · rename_i clean
      obtain ⟨pads, few, isRest⟩ := (paddingFits_iff whole).1 fits
      have values := sextets_pack small (by rw [count]; exact whole) clean
      rw [Except.ok.inj decoded] at values
      have isFront : letters bytes = front := by rw [letters, values, written]
      exact ⟨pads, by rw [isFront]; exact few, by rw [isFront, ← isRest, parts]⟩
    · simp at decoded
  · simp at decoded

theorem decode_letters (bytes : Bytes) {pads : Nat} (few : pads ≤ missing (letters bytes).length) :
    decode (letters bytes ++ List.replicate pads pad) = .ok bytes := by
  have whole := length_letters_mod bytes
  have front : (letters bytes ++ List.replicate pads pad).takeWhile isLetter = letters bytes := by
    rw [List.takeWhile_append_of_pos (isLetter_letters bytes), takeWhile_pads, List.append_nil]
  have rest : (letters bytes ++ List.replicate pads pad).dropWhile isLetter =
      List.replicate pads pad := by
    have parts := List.takeWhile_append_dropWhile (p := isLetter)
      (l := letters bytes ++ List.replicate pads pad)
    rw [front] at parts
    exact List.append_cancel_left parts
  have notOne : (letters bytes ++ List.replicate pads pad).length % 4 ≠ 1 := by
    rw [List.length_append, List.length_replicate]
    rw [missing] at few
    omega
  have fits := (paddingFits_iff whole).2 ⟨pads, few, rfl⟩
  simp only [decode, notOne, if_false, front, rest, fits, if_true, letterValues_letters, pack_sextets]

/-- Bytes are read from the letters they are written in, with all of the padding, a part or none. -/
theorem decode_eq_ok {text bytes : Bytes} :
    decode text = .ok bytes ↔ ∃ pads, pads ≤ missing (letters bytes).length ∧
      text = letters bytes ++ List.replicate pads pad := by
  constructor
  · exact letters_of_decode
  · rintro ⟨pads, few, rfl⟩
    exact decode_letters bytes few

theorem decode_encode (bytes : Bytes) : decode (encode bytes) = .ok bytes :=
  decode_eq_ok.2 ⟨_, Nat.le_refl _, encode_eq bytes⟩

theorem letters_plain (bytes : Bytes) : ∀ byte ∈ letters bytes, byte.toNat < 0x80 := by
  intro byte member
  obtain ⟨value, inside, same⟩ := List.mem_map.1 member
  have small := sextets_small bytes value inside
  rw [← same, toNat_letter value small]
  repeat' split
  all_goals omega

theorem padded_plain (bytes : Bytes) (pads : Nat) :
    ∀ byte ∈ letters bytes ++ List.replicate pads pad, byte.toNat < 0x80 := by
  intro byte member
  rcases List.mem_append.1 member with isLetter | isPad
  · exact letters_plain bytes byte isLetter
  · rw [List.eq_of_mem_replicate isPad]
    decide

def bits (width value : Nat) : List Bool := (List.range width).reverse.map value.testBit

theorem length_bits (width value : Nat) : (bits width value).length = width := by
  simp [bits]

theorem bits_zero (width : Nat) : bits width 0 = List.replicate width false := by
  refine List.eq_replicate_iff.2 ⟨length_bits width 0, fun bit member => ?_⟩
  obtain ⟨place, _, same⟩ := List.mem_map.1 member
  rw [← same, Nat.zero_testBit]

theorem bits_join (high low : Nat) {joined upper lower : Nat} (fits : lower < 2 ^ low)
    (same : joined = upper * 2 ^ low + lower) :
    bits (high + low) joined = bits high upper ++ bits low lower := by
  have above : joined / 2 ^ low = upper := by
    rw [same, Nat.mul_comm, Nat.mul_add_div (Nat.two_pow_pos low), Nat.div_eq_of_lt fits, Nat.add_zero]
  have below : joined % 2 ^ low = lower := by
    rw [same, Nat.mul_comm, Nat.mul_add_mod, Nat.mod_eq_of_lt fits]
  have upperBits : (List.range high).reverse.map (joined.testBit ∘ (low + ·)) = bits high upper := by
    refine List.map_congr_left fun place _ => ?_
    rw [Function.comp_apply, Nat.add_comm low place, ← Nat.testBit_div_two_pow, above]
  have lowerBits : (List.range low).reverse.map joined.testBit = bits low lower := by
    refine List.map_congr_left fun place member => ?_
    have inside : place < low := List.mem_range.1 (List.mem_reverse.1 member)
    have shown := Nat.testBit_mod_two_pow joined low place
    rw [below, decide_eq_true inside, Bool.true_and] at shown
    exact shown.symm
  rw [bits, Nat.add_comm high low, List.range_add, List.reverse_append, List.map_append,
    ← List.map_reverse, List.map_map, upperBits, lowerBits]

def byteBits (bytes : Bytes) : List Bool := bytes.flatMap fun byte => bits 8 byte.toNat

def letterBits (text : Bytes) : List Bool := (text.filterMap letterValue?).flatMap (bits 6)

/-- The bits behind the last whole byte. -/
def spareBits (text : Bytes) : List Bool :=
  (letterBits text).drop ((letterBits text).length / 8 * 8)

theorem bits_byte (byte : UInt8) :
    bits 8 byte.toNat = bits 6 (byte.toNat / 4) ++ bits 2 (byte.toNat % 4) ∧
      bits 8 byte.toNat = bits 4 (byte.toNat / 16) ++ bits 4 (byte.toNat % 16) ∧
      bits 8 byte.toNat = bits 2 (byte.toNat / 64) ++ bits 6 (byte.toNat % 64) :=
  ⟨bits_join 6 2 (by omega) (by omega), bits_join 4 4 (by omega) (by omega),
    bits_join 2 6 (by omega) (by omega)⟩

theorem bits_sextets (bytes : Bytes) :
    (sextets bytes).flatMap (bits 6) =
      byteBits bytes ++ List.replicate (2 * missing (sextets bytes).length) false := by
  fun_induction sextets bytes with
  | case1 => rfl
  | case2 a =>
      have last : bits 6 (a.toNat % 4 * 16) = bits 2 (a.toNat % 4) ++ bits 4 0 :=
        bits_join 2 4 (by decide) (by omega)
      simp only [List.flatMap_cons, List.flatMap_nil, byteBits, last, (bits_byte a).1, bits_zero,
        List.append_assoc, List.append_nil, missing, List.length_cons, List.length_nil,
        Nat.reduceAdd, Nat.reduceMod, Nat.reduceSub, Nat.reduceMul]
  | case3 a b =>
      have := b.toNat_lt
      have middle : bits 6 (a.toNat % 4 * 16 + b.toNat / 16) =
          bits 2 (a.toNat % 4) ++ bits 4 (b.toNat / 16) := bits_join 2 4 (by omega) (by omega)
      have last : bits 6 (b.toNat % 16 * 4) = bits 4 (b.toNat % 16) ++ bits 2 0 :=
        bits_join 4 2 (by decide) (by omega)
      simp only [List.flatMap_cons, List.flatMap_nil, byteBits, middle, last, (bits_byte a).1,
        (bits_byte b).2.1, bits_zero, List.append_assoc, List.append_nil, missing,
        List.length_cons, List.length_nil, Nat.reduceAdd, Nat.reduceMod, Nat.reduceSub,
        Nat.reduceMul]
  | case4 a b c rest ih =>
      have := b.toNat_lt
      have := c.toNat_lt
      have second : bits 6 (a.toNat % 4 * 16 + b.toNat / 16) =
          bits 2 (a.toNat % 4) ++ bits 4 (b.toNat / 16) := bits_join 2 4 (by omega) (by omega)
      have third : bits 6 (b.toNat % 16 * 4 + c.toNat / 64) =
          bits 4 (b.toNat % 16) ++ bits 2 (c.toNat / 64) := bits_join 4 2 (by omega) (by omega)
      have group : missing ((sextets rest).length + 1 + 1 + 1 + 1) = missing (sextets rest).length := by
        simp only [missing]
        omega
      simp only [byteBits] at ih
      simp only [List.flatMap_cons, byteBits, second, third, (bits_byte a).1, (bits_byte b).2.1,
        (bits_byte c).2.2, ih, List.length_cons, List.append_assoc, group]

/-- The letters that bytes are read from have the bits of the bytes, and zeros behind them. -/
theorem letterBits_decoded {text bytes : Bytes} (decoded : decode text = .ok bytes) :
    letterBits text = byteBits bytes ++ List.replicate (2 * missing (letters bytes).length) false := by
  obtain ⟨pads, _, isText⟩ := letters_of_decode decoded
  have noValue : (List.replicate pads pad).filterMap letterValue? = [] := by
    rw [List.filterMap_eq_nil_iff]
    intro byte member
    rw [List.eq_of_mem_replicate member]
    rfl
  rw [letterBits, isText, List.filterMap_append, noValue, List.append_nil, letterValues_letters,
    bits_sextets, length_letters]

theorem length_byteBits (bytes : Bytes) : (byteBits bytes).length = bytes.length * 8 := by
  simp [byteBits, List.length_flatMap, length_bits, List.map_const']

theorem spareBits_decoded {text bytes : Bytes} (decoded : decode text = .ok bytes) :
    ∀ bit ∈ spareBits text, bit = false := by
  have bits := letterBits_decoded decoded
  have few : missing (letters bytes).length < 4 := Nat.mod_lt _ (by decide)
  have notThree : missing (letters bytes).length ≠ 3 := by
    have whole := length_letters_mod bytes
    rw [missing]
    omega
  have whole : (letterBits text).length / 8 * 8 = (byteBits bytes).length := by
    rw [bits, List.length_append, List.length_replicate, length_byteBits]
    omega
  intro bit member
  rw [spareBits, whole, bits, List.drop_left] at member
  exact List.eq_of_mem_replicate member

end LedgerWire.Base64

import LedgerWire.Identifier
import LedgerWire.Proofs.Text.Utf8

/-!
Bytes read back from the base-16 text they are written as, and with them identifiers from their full
texts.
-/

namespace LedgerWire

theorem Ascii.toNat_ofNat (byte : UInt8) : (Char.ofNat byte.toNat).toNat = byte.toNat := by
  have bound := byte.toNat_lt
  exact Utf8.toNat_ofNat (by omega)

theorem Utf8.encodeChar_ofNat (byte : UInt8) (small : byte.toNat < 0x80) :
    Utf8.encodeChar (Char.ofNat byte.toNat) = [byte] := by
  simp [Utf8.encodeChar, Ascii.toNat_ofNat, small]

theorem Ascii.encode_text (bytes : Bytes) (plain : ∀ byte ∈ bytes, byte.toNat < 0x80) :
    Utf8.encode (Ascii.text bytes) = bytes := by
  simp only [Utf8.encode, Utf8.encodeChars, Ascii.text, String.toList_ofList]
  induction bytes with
  | nil => rfl
  | cons byte rest ih =>
      rw [List.map_cons, List.flatMap_cons, Utf8.encodeChar_ofNat byte (plain byte List.mem_cons_self),
        ih fun other member => plain other (List.mem_cons_of_mem _ member)]
      rfl

theorem Ascii.text_encode {text : String} (plain : ∀ byte ∈ Utf8.encode text, byte.toNat < 0x80) :
    Ascii.text (Utf8.encode text) = text := by
  rw [Ascii.text, Utf8.encode, Utf8.encodeChars_plain plain, String.ofList_toList]

namespace Hex

theorem toNat_digit (value : UInt8) (small : value.toNat < 16) :
    (digit value).toNat = if value.toNat < 10 then 0x30 + value.toNat else 0x57 + value.toNat := by
  unfold digit
  simp only [UInt8.lt_iff_toNat_lt, UInt8.reduceToNat]
  split
  · simp only [UInt8.toNat_add, UInt8.reduceToNat]
    omega
  · simp only [UInt8.toNat_add, UInt8.reduceToNat]
    omega

theorem digitValue?_digit (value : UInt8) (small : value.toNat < 16) :
    digitValue? (digit value) = some value := by
  have code := toNat_digit value small
  simp only [digitValue?, UInt8.le_iff_toNat_le, UInt8.reduceToNat, Bool.and_eq_true,
    decide_eq_true_eq]
  by_cases decimal : value.toNat < 10
  · rw [if_pos decimal] at code
    rw [if_pos (by omega)]
    simp only [Option.some.injEq, ← UInt8.toNat_inj, UInt8.toNat_sub, UInt8.reduceToNat, code]
    omega
  · rw [if_neg decimal] at code
    rw [if_neg (by omega), if_neg (by omega), if_pos (by omega)]
    simp only [Option.some.injEq, ← UInt8.toNat_inj, UInt8.toNat_sub, UInt8.reduceToNat, code]
    omega

theorem halves (byte : UInt8) :
    (byte / 16).toNat < 16 ∧ (byte % 16).toNat < 16 ∧ byte / 16 * 16 + byte % 16 = byte := by
  have bound := byte.toNat_lt
  refine ⟨?_, ?_, ?_⟩
  · simp only [UInt8.toNat_div, UInt8.reduceToNat]
    omega
  · simp only [UInt8.toNat_mod, UInt8.reduceToNat]
    omega
  · simp only [← UInt8.toNat_inj, UInt8.toNat_add, UInt8.toNat_mul, UInt8.toNat_div,
      UInt8.toNat_mod, UInt8.reduceToNat]
    omega

theorem encode_cons (byte : UInt8) (rest : Bytes) :
    encode (byte :: rest) = digit (byte / 16) :: digit (byte % 16) :: encode rest := rfl

theorem decodeFrom_encode (bytes : Bytes) : ∀ position,
    decodeFrom position (encode bytes) = .ok bytes := by
  induction bytes with
  | nil => intro position; rfl
  | cons byte rest ih =>
      intro position
      obtain ⟨high, low, joined⟩ := halves byte
      rw [encode_cons, decodeFrom]
      simp only [digitValue?_digit _ high, digitValue?_digit _ low, ih, joined]

theorem length_encode (bytes : Bytes) : (encode bytes).length = 2 * bytes.length := by
  induction bytes with
  | nil => rfl
  | cons byte rest ih =>
      rw [encode_cons]
      simp only [List.length_cons, ih]
      omega

theorem encode_plain (bytes : Bytes) : ∀ byte ∈ encode bytes, byte.toNat < 0x80 := by
  induction bytes with
  | nil =>
      intro byte member
      simp [encode] at member
  | cons first rest ih =>
      intro byte member
      obtain ⟨high, low, _⟩ := halves first
      rw [encode_cons] at member
      rcases List.mem_cons.1 member with isHigh | later
      · rw [isHigh, toNat_digit _ high]
        split <;> omega
      rcases List.mem_cons.1 later with isLow | inRest
      · rw [isLow, toNat_digit _ low]
        split <;> omega
      · exact ih byte inRest

end Hex

namespace Identifier

variable {width : Nat}

theorem ofBytes?_bytes (identifier : Identifier width) :
    ofBytes? identifier.bytes = some identifier := by
  have fits : identifier.bytes.length ≤ width := Nat.le_of_eq identifier.length_eq
  simp only [ofBytes?, fits, ↓reduceDIte, Option.some.injEq]
  cases identifier
  simp_all

theorem pairedDigits_fullText (identifier : Identifier width) :
    pairedDigits identifier.fullText = identifier.digits := by
  have plain : Utf8.encode (Ascii.text identifier.digits) = identifier.digits :=
    Ascii.encode_text _ (Hex.encode_plain _)
  have text : Utf8.encode identifier.fullText = 0x30 :: 0x78 :: identifier.digits := by
    simp only [Utf8.encode, Utf8.encodeChars] at plain
    simp only [fullText, Utf8.encode, Utf8.encodeChars, String.toList_append, List.flatMap_append,
      plain]
    rfl
  have even : identifier.digits.length % 2 = 0 := by
    rw [Identifier.digits, Hex.length_encode]
    omega
  simp [pairedDigits, text, withoutPrefix, even]

theorem ofHex_fullText (identifier : Identifier width) : ofHex identifier.fullText = .ok identifier := by
  have bytes : Hex.decode identifier.digits = .ok identifier.bytes :=
    Hex.decodeFrom_encode identifier.bytes 0
  simp only [ofHex, pairedDigits_fullText, bytes, ofBytes?_bytes]

end Identifier

end LedgerWire

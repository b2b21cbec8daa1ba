import LedgerWire.Proofs.Text.Base16

/-!
Identifiers and the hex texts that denote them. A text denotes the number that its digits write, in
either case and after one prefix or none; it is refused only for a character that is no digit or for
its length. The texts that an identifier is shown as are spellings of it, and the short one is the
same for all its spellings.
-/

namespace LedgerWire

namespace Identifier

variable {width : Nat}

def number (identifier : Identifier width) : Nat := bigEndian identifier.bytes

theorem number_inj {left right : Identifier width} : left.number = right.number ↔ left = right := by
  rw [number, number, bigEndian_inj (left.length_eq.trans right.length_eq.symm)]
  constructor
  · intro same
    cases left
    cases right
    simpa using same
  · exact congrArg Identifier.bytes

def bareText (text : String) : String :=
  match text.toList with
  | '0' :: 'x' :: rest => String.ofList rest
  | '0' :: 'X' :: rest => String.ofList rest
  | _ => text

theorem encode_bareText (text : String) : withoutPrefix (Utf8.encode text) = Utf8.encode (bareText text) := by
  have written : ∀ second rest, Utf8.encode (String.ofList ('0' :: second :: rest)) =
      0x30 :: (Utf8.encodeChar second ++ Utf8.encode (String.ofList rest)) := by
    intro second rest
    simp only [Utf8.encode, Utf8.encodeChars, String.toList_ofList, List.flatMap_cons]
    rfl
  unfold bareText
  split
  · rename_i rest shape
    rw [← String.ofList_toList (s := text), shape, written]
    rfl
  · rename_i rest shape
    rw [← String.ofList_toList (s := text), shape, written]
    rfl
  · rename_i noSmall noLarge
    unfold withoutPrefix
    split
    · rename_i digits shape
      obtain ⟨rest, isZero, others⟩ := Utf8.encodeChars_eq_cons (by decide) shape
      obtain ⟨rest, isMark, _⟩ := Utf8.encodeChars_eq_cons (by decide) others
      rw [isMark] at isZero
      exact absurd isZero (noSmall rest)
    · rename_i digits shape
      obtain ⟨rest, isZero, others⟩ := Utf8.encodeChars_eq_cons (by decide) shape
      obtain ⟨rest, isMark, _⟩ := Utf8.encodeChars_eq_cons (by decide) others
      rw [isMark] at isZero
      exact absurd isZero (noLarge rest)
    · rfl

def padded (digits : Bytes) : Bytes := if digits.length % 2 = 1 then 0x30 :: digits else digits

theorem padded_even (digits : Bytes) : (padded digits).length % 2 = 0 := by
  unfold padded
  split
  · rw [List.length_cons]
    omega
  · omega

theorem padded_half (digits : Bytes) : (padded digits).length / 2 = (digits.length + 1) / 2 := by
  unfold padded
  split
  · rw [List.length_cons]
  · omega

theorem number_padded (digits : Bytes) : Hex.number (padded digits) = Hex.number digits := by
  unfold padded
  split
  · exact Hex.number_zero digits
  · rfl

theorem isDigit_padded {digits : Bytes} :
    (∀ digit ∈ padded digits, Hex.IsDigit digit) ↔ ∀ digit ∈ digits, Hex.IsDigit digit := by
  have zero : Hex.IsDigit 0x30 := by decide
  unfold padded
  split
  · simp [zero]
  · rfl

theorem pairedDigits_eq (text : String) : pairedDigits text = padded (Utf8.encode (bareText text)) := by
  rw [pairedDigits, encode_bareText]
  rfl

theorem ofBytes?_eq_some {bytes : Bytes} {identifier : Identifier width} :
    ofBytes? bytes = some identifier ↔
      bytes.length ≤ width ∧ identifier.bytes = List.replicate (width - bytes.length) 0 ++ bytes := by
  unfold ofBytes?
  split
  · rename_i fits
    rw [Option.some.injEq]
    constructor
    · intro same
      rw [← same]
      exact ⟨fits, rfl⟩
    · rintro ⟨_, same⟩
      cases identifier
      simpa using same.symm
  · rename_i tooLong
    simp [tooLong]

theorem ofHex_eq_ok {text : String} {identifier : Identifier width} :
    ofHex text = .ok identifier ↔
      ∃ bytes, Hex.decode (pairedDigits text) = .ok bytes ∧ ofBytes? bytes = some identifier := by
  unfold ofHex
  cases Hex.decode (pairedDigits text) with
  | error fault => simp
  | ok bytes =>
      simp only [Except.ok.injEq, exists_eq_left']
      cases (ofBytes? bytes : Option (Identifier width)) with
      | none => simp
      | some other => simp

theorem exists_ofBytes? {bytes : Bytes} (fits : bytes.length ≤ width) :
    ∃ identifier : Identifier width, ofBytes? bytes = some identifier := by
  refine ⟨⟨List.replicate (width - bytes.length) 0 ++ bytes, ?_⟩, ofBytes?_eq_some.2 ⟨fits, rfl⟩⟩
  rw [List.length_append, List.length_replicate]
  omega

theorem number_of_ofBytes? {bytes : Bytes} {identifier : Identifier width}
    (placed : ofBytes? bytes = some identifier) : identifier.number = bigEndian bytes := by
  rw [number, (ofBytes?_eq_some.1 placed).2, bigEndian_zeros]

theorem pairedDigits_even (text : String) : (pairedDigits text).length % 2 = 0 := by
  rw [pairedDigits_eq]
  exact padded_even _

theorem exists_ofHex {text : String} (areDigits : ∀ digit ∈ pairedDigits text, Hex.IsDigit digit)
    (fits : (pairedDigits text).length / 2 ≤ width) :
    ∃ identifier : Identifier width, ofHex text = .ok identifier ∧
      identifier.number = Hex.number (pairedDigits text) := by
  obtain ⟨bytes, decoded, length, value⟩ := Hex.decode_digits (pairedDigits_even text) areDigits
  rw [← length] at fits
  obtain ⟨identifier, placed⟩ := exists_ofBytes? fits
  exact ⟨identifier, ofHex_eq_ok.2 ⟨bytes, decoded, placed⟩, (number_of_ofBytes? placed).trans value⟩

theorem ofHex_iff_digits {text : String} {identifier : Identifier width} :
    ofHex text = .ok identifier ↔
      (∀ digit ∈ pairedDigits text, Hex.IsDigit digit) ∧ (pairedDigits text).length / 2 ≤ width ∧
        identifier.number = Hex.number (pairedDigits text) := by
  constructor
  · intro accepted
    obtain ⟨bytes, decoded, placed⟩ := ofHex_eq_ok.1 accepted
    obtain ⟨areDigits, length, value⟩ := (Hex.decode_eq_ok (pairedDigits_even text)).1 decoded
    exact ⟨areDigits, length ▸ (ofBytes?_eq_some.1 placed).1, (number_of_ofBytes? placed).trans value⟩
  · rintro ⟨areDigits, fits, same⟩
    obtain ⟨other, accepted, otherNumber⟩ := exists_ofHex areDigits fits
    rw [accepted, number_inj.1 (otherNumber.trans same.symm)]

theorem ofHex_iff_number {text : String} {identifier : Identifier width} :
    ofHex text = .ok identifier ↔
      (∀ digit ∈ Utf8.encode (bareText text), Hex.IsDigit digit) ∧
        ((Utf8.encode (bareText text)).length + 1) / 2 ≤ width ∧
        identifier.number = Hex.number (Utf8.encode (bareText text)) := by
  rw [ofHex_iff_digits, pairedDigits_eq, isDigit_padded, padded_half, number_padded]

theorem ofHex_eq_error {text : String} {fault : Fault} :
    (ofHex text : Except Fault (Identifier width)) = .error fault ↔
      (∃ cause, Hex.decode (pairedDigits text) = .error cause ∧ fault = .notHex text cause) ∨
        ∃ bytes, Hex.decode (pairedDigits text) = .ok bytes ∧ width < bytes.length ∧
          fault = .tooLong width bytes.length := by
  unfold ofHex
  cases Hex.decode (pairedDigits text) with
  | error cause => simp [eq_comm]
  | ok bytes =>
      simp only [reduceCtorEq, false_and, exists_false, false_or, Except.ok.injEq, exists_eq_left']
      cases placed : (ofBytes? bytes : Option (Identifier width)) with
      | some identifier =>
          have fits := (ofBytes?_eq_some.1 placed).1
          simp only [reduceCtorEq, false_iff, not_and]
          omega
      | none =>
          have tooLong : width < bytes.length := by
            by_contra fits
            obtain ⟨identifier, found⟩ := exists_ofBytes? (Nat.le_of_not_lt fits)
            rw [placed] at found
            simp at found
          simp [tooLong, eq_comm]

theorem ofHex_refused_iff {text : String} {fault : Fault} :
    (ofHex text : Except Fault (Identifier width)) = .error fault ↔
      ((∀ digit ∈ pairedDigits text, Hex.IsDigit digit) ∧ width < (pairedDigits text).length / 2 ∧
        fault = .tooLong width ((pairedDigits text).length / 2)) ∨
      ∃ front bad behind, pairedDigits text = front ++ bad :: behind ∧
        (∀ digit ∈ front, Hex.IsDigit digit) ∧ ¬ Hex.IsDigit bad ∧
          fault = .notHex text ⟨bad, front.length⟩ := by
  have even := pairedDigits_even text
  rw [ofHex_eq_error]
  constructor
  · rintro (⟨cause, refused, same⟩ | ⟨bytes, decoded, tooLong, same⟩)
    · obtain ⟨front, behind, shape, areDigits, noDigit, place⟩ := (Hex.decode_eq_error even).1 refused
      rw [same]
      exact Or.inr ⟨front, cause.byte, behind, shape, areDigits, noDigit, by rw [← place]⟩
    · obtain ⟨areDigits, length, _⟩ := (Hex.decode_eq_ok even).1 decoded
      rw [length] at tooLong same
      exact Or.inl ⟨areDigits, tooLong, same⟩
  · rintro (⟨areDigits, tooLong, same⟩ | ⟨front, bad, behind, shape, areDigits, noDigit, same⟩)
    · obtain ⟨bytes, decoded, length, _⟩ := Hex.decode_digits even areDigits
      exact Or.inr ⟨bytes, decoded, by omega, by rw [same, length]⟩
    · have refused : Hex.decode (pairedDigits text) = .error ⟨bad, front.length⟩ :=
        (Hex.decode_eq_error even).2 ⟨front, behind, shape, areDigits, noDigit, rfl⟩
      exact Or.inl ⟨_, refused, same⟩

/-- Which texts denote an identifier of some width, which one it is, and why the others are refused.
The digits are looked at without prefix, and with a zero before them where their number is odd. -/
theorem ofHex_grammar (width : Nat) (text : String) :
    let bare := Utf8.encode (bareText text)
    let digits := if bare.length % 2 = 1 then 0x30 :: bare else bare
    (∀ identifier : Identifier width, ofHex text = .ok identifier ↔
      (∀ digit ∈ digits, Hex.IsDigit digit) ∧ digits.length / 2 ≤ width ∧
        identifier.number = Hex.number digits) ∧
    ((∃ identifier : Identifier width, ofHex text = .ok identifier) ↔
      (∀ digit ∈ digits, Hex.IsDigit digit) ∧ digits.length / 2 ≤ width) ∧
    ∀ fault, (ofHex text : Except Fault (Identifier width)) = .error fault ↔
      ((∀ digit ∈ digits, Hex.IsDigit digit) ∧ width < digits.length / 2 ∧
        fault = .tooLong width (digits.length / 2)) ∨
      ∃ front bad behind, digits = front ++ bad :: behind ∧ (∀ digit ∈ front, Hex.IsDigit digit) ∧
        ¬ Hex.IsDigit bad ∧ fault = .notHex text ⟨bad, front.length⟩ := by
  intro bare digits
  have paired : pairedDigits text = digits := pairedDigits_eq text
  rw [← paired]
  refine ⟨fun _ => ofHex_iff_digits, ⟨?_, ?_⟩, fun _ => ofHex_refused_iff⟩
  · rintro ⟨identifier, accepted⟩
    obtain ⟨areDigits, fits, _⟩ := ofHex_iff_digits.1 accepted
    exact ⟨areDigits, fits⟩
  · rintro ⟨areDigits, fits⟩
    obtain ⟨identifier, accepted, _⟩ := exists_ofHex areDigits fits
    exact ⟨identifier, accepted⟩

/-! The texts that an identifier is shown as, and its digits in capitals. -/

def hexText (identifier : Identifier width) : String := Ascii.text identifier.digits

def upperCased (text : String) : String :=
  match text.toList with
  | '0' :: 'x' :: digits => "0x" ++ String.ofList (digits.map Char.toUpper)
  | digits => String.ofList (digits.map Char.toUpper)

/-- The digits of a text in lowercase, from the first on that is not zero. -/
def significant (text : String) : List Char :=
  ((bareText text).toList.map Char.toLower).dropWhile (· = '0')

theorem toNat_of_isDigit {digit : UInt8} (isDigit : Hex.IsDigit digit) : digit.toNat < 0x67 := by
  simp only [Hex.IsDigit, UInt8.le_iff_toNat_le, UInt8.reduceToNat] at isDigit
  omega

@[elab_as_elim]
theorem forall_digits {motive : UInt8 → Prop} {digit : UInt8} (isDigit : Hex.IsDigit digit)
    (table : ∀ code < 0x67, Hex.IsDigit (UInt8.ofNat code) → motive (UInt8.ofNat code)) :
    motive digit := by
  have known := table digit.toNat (toNat_of_isDigit isDigit)
  rw [UInt8.ofNat_toNat] at known
  exact known isDigit

theorem toUpper_digit {digit : UInt8} (isDigit : Hex.IsDigit digit) :
    (Char.ofNat digit.toNat).toUpper = Char.ofNat (Hex.upper digit).toNat := by
  refine forall_digits isDigit ?_
  decide

theorem toLower_digit {digit : UInt8} (isDigit : Hex.IsDigit digit) :
    (Char.ofNat digit.toNat).toLower = Char.ofNat (Hex.lower digit).toNat := by
  refine forall_digits isDigit ?_
  decide

theorem digit_ne_mark {digit : UInt8} (isDigit : Hex.IsDigit digit) :
    Char.ofNat digit.toNat ≠ 'x' ∧ Char.ofNat digit.toNat ≠ 'X' := by
  refine forall_digits isDigit ?_
  decide

theorem toList_text (bytes : Bytes) :
    (Ascii.text bytes).toList = bytes.map fun byte => Char.ofNat byte.toNat := String.toList_ofList

theorem encode_digits {digits : Bytes} (areDigits : ∀ digit ∈ digits, Hex.IsDigit digit) :
    Utf8.encode (Ascii.text digits) = digits := by
  refine Ascii.encode_text digits fun digit member => ?_
  have small := toNat_of_isDigit (areDigits digit member)
  omega

theorem bareText_marked (text : String) : bareText ("0x" ++ text) = text := by
  have shape : ("0x" ++ text).toList = '0' :: 'x' :: text.toList := by
    rw [String.toList_append]
    rfl
  rw [bareText, shape]
  exact String.ofList_toList

theorem no_mark {digits : Bytes} (areDigits : ∀ digit ∈ digits, Hex.IsDigit digit) (rest : List Char) :
    (Ascii.text digits).toList ≠ '0' :: 'x' :: rest ∧ (Ascii.text digits).toList ≠ '0' :: 'X' :: rest := by
  rw [toList_text]
  match digits, areDigits with
  | [], _ => simp
  | [_], _ => simp
  | _ :: second :: _, areDigits =>
      obtain ⟨notSmall, notLarge⟩ := digit_ne_mark (areDigits second (by simp))
      simp [notSmall, notLarge]

theorem bareText_digits {digits : Bytes} (areDigits : ∀ digit ∈ digits, Hex.IsDigit digit) :
    bareText (Ascii.text digits) = Ascii.text digits := by
  have noMark := no_mark areDigits
  unfold bareText
  split
  · rename_i rest shape
    exact absurd shape (noMark rest).1
  · rename_i rest shape
    exact absurd shape (noMark rest).2
  · rfl

theorem map_toUpper {digits : Bytes} (areDigits : ∀ digit ∈ digits, Hex.IsDigit digit) :
    String.ofList ((Ascii.text digits).toList.map Char.toUpper) = Ascii.text (digits.map Hex.upper) := by
  rw [toList_text, Ascii.text, List.map_map, List.map_map]
  congr 1
  exact List.map_congr_left fun digit member => toUpper_digit (areDigits digit member)

theorem upperCased_marked {digits : Bytes} (areDigits : ∀ digit ∈ digits, Hex.IsDigit digit) :
    upperCased ("0x" ++ Ascii.text digits) = "0x" ++ Ascii.text (digits.map Hex.upper) := by
  have shape : ("0x" ++ Ascii.text digits).toList = '0' :: 'x' :: (Ascii.text digits).toList := by
    rw [String.toList_append]
    rfl
  rw [upperCased, shape, ← map_toUpper areDigits]
  rfl

theorem upperCased_digits {digits : Bytes} (areDigits : ∀ digit ∈ digits, Hex.IsDigit digit) :
    upperCased (Ascii.text digits) = Ascii.text (digits.map Hex.upper) := by
  unfold upperCased
  split
  · rename_i rest shape
    exact absurd shape (no_mark areDigits rest).1
  · exact map_toUpper areDigits

theorem ofHex_spelling {digits : Bytes} {identifier : Identifier width}
    (areDigits : ∀ digit ∈ digits, Hex.IsDigit digit) (fits : (digits.length + 1) / 2 ≤ width)
    (same : Hex.number digits = identifier.number) {text : String}
    (spelled : text = "0x" ++ Ascii.text digits ∨ text = Ascii.text digits) :
    ofHex text = .ok identifier ∧ ofHex (upperCased text) = .ok identifier := by
  have read : ∀ {other : Bytes} {spelling : String}, bareText spelling = Ascii.text other →
      (∀ digit ∈ other, Hex.IsDigit digit) → other.length = digits.length →
        Hex.number other = Hex.number digits → ofHex spelling = .ok identifier := by
    intro other spelling bare otherDigits length value
    rw [ofHex_iff_number, bare, encode_digits otherDigits, length, value, same]
    exact ⟨otherDigits, fits, rfl⟩
  have capitals : ∀ digit ∈ digits.map Hex.upper, Hex.IsDigit digit := by
    intro digit member
    obtain ⟨original, isOriginal, isUpper⟩ := List.mem_map.1 member
    rw [← isUpper]
    exact (Hex.isDigit_upper (areDigits original isOriginal)).1
  have capitalLength : (digits.map Hex.upper).length = digits.length := List.length_map _
  have capitalNumber := Hex.number_map_upper areDigits
  rcases spelled with marked | bare
  · rw [marked, upperCased_marked areDigits]
    exact ⟨read (bareText_marked _) areDigits rfl rfl,
      read (bareText_marked _) capitals capitalLength capitalNumber⟩
  · rw [bare, upperCased_digits areDigits]
    exact ⟨read (bareText_digits areDigits) areDigits rfl rfl,
      read (bareText_digits capitals) capitals capitalLength capitalNumber⟩

theorem isDigit_digits (identifier : Identifier width) :
    ∀ digit ∈ identifier.digits, Hex.IsDigit digit := Hex.isDigit_encode identifier.bytes

theorem number_digits (identifier : Identifier width) :
    Hex.number identifier.digits = identifier.number := Hex.number_encode identifier.bytes

theorem length_digits (identifier : Identifier width) : identifier.digits.length = 2 * width := by
  rw [digits, Hex.length_encode, identifier.length_eq]

def shortDigits (identifier : Identifier width) : Bytes :=
  match identifier.digits.dropWhile (· = 0x30) with
  | [] => [0x30]
  | digits => digits

theorem shortText_eq (identifier : Identifier width) :
    identifier.shortText = "0x" ++ Ascii.text identifier.shortDigits := by
  unfold shortText shortDigits
  cases identifier.digits.dropWhile (· = 0x30) with
  | nil => rfl
  | cons first rest => rfl

theorem isDigit_shortDigits (identifier : Identifier width) :
    ∀ digit ∈ identifier.shortDigits, Hex.IsDigit digit := by
  intro digit member
  unfold shortDigits at member
  split at member
  · rw [List.mem_singleton.1 member]
    decide
  · exact isDigit_digits identifier digit ((List.dropWhile_sublist _).subset member)

theorem number_shortDigits (identifier : Identifier width) :
    Hex.number identifier.shortDigits = identifier.number := by
  rw [← number_digits, ← Hex.number_dropZeros identifier.digits]
  unfold shortDigits
  split
  · rename_i noDigits
    rw [noDigits, Hex.number_zero]
  · rfl

theorem length_shortDigits (identifier : Identifier width) (wide : 0 < width) :
    (identifier.shortDigits.length + 1) / 2 ≤ width := by
  have atMost := (List.dropWhile_sublist (l := identifier.digits) (· = 0x30)).length_le
  rw [length_digits] at atMost
  unfold shortDigits
  split
  · rw [List.length_singleton]
    omega
  · omega

theorem dropZeros_encode (count : Nat) (bytes : Bytes) :
    (Hex.encode (List.replicate count 0 ++ bytes)).dropWhile (· = 0x30) =
      (Hex.encode bytes).dropWhile (· = 0x30) := by
  induction count with
  | zero => rfl
  | succ count ih =>
      rw [List.replicate_succ, List.cons_append, Hex.encode_cons]
      exact ih

theorem dropZeros_padded (digits : Bytes) :
    ((padded digits).map Hex.lower).dropWhile (· = 0x30) =
      (digits.map Hex.lower).dropWhile (· = 0x30) := by
  unfold padded
  split
  · rfl
  · rfl

theorem dropZeros_digits {text : String} {identifier : Identifier width}
    (read : ofHex text = .ok identifier) :
    identifier.digits.dropWhile (· = 0x30) =
      ((Utf8.encode (bareText text)).map Hex.lower).dropWhile (· = 0x30) := by
  obtain ⟨bytes, decoded, placed⟩ := ofHex_eq_ok.1 read
  rw [pairedDigits_eq] at decoded
  rw [digits, (ofBytes?_eq_some.1 placed).2, dropZeros_encode, Hex.encode_of_decodeFrom _ decoded,
    dropZeros_padded]

theorem charOfNat_eq_zero (byte : UInt8) : Char.ofNat byte.toNat = '0' ↔ byte = 0x30 := by
  constructor
  · intro same
    rw [← UInt8.toNat_inj, ← Ascii.toNat_ofNat, same]
    rfl
  · intro same
    rw [same]
    rfl

theorem significant_eq {text : String}
    (areDigits : ∀ digit ∈ Utf8.encode (bareText text), Hex.IsDigit digit) :
    significant text =
      (((Utf8.encode (bareText text)).map Hex.lower).dropWhile (· = 0x30)).map
        fun byte => Char.ofNat byte.toNat := by
  have chars : (bareText text).toList =
      (Utf8.encode (bareText text)).map fun byte => Char.ofNat byte.toNat := by
    rw [← toList_text, Ascii.text_encode]
    intro byte member
    have small := toNat_of_isDigit (areDigits byte member)
    omega
  have lowered : (bareText text).toList.map Char.toLower =
      ((Utf8.encode (bareText text)).map Hex.lower).map fun byte => Char.ofNat byte.toNat := by
    rw [chars, List.map_map, List.map_map]
    exact List.map_congr_left fun digit member => toLower_digit (areDigits digit member)
  rw [significant, lowered, List.dropWhile_map]
  simp only [Function.comp_def, charOfNat_eq_zero]

theorem shortText_of_ofHex {text : String} {identifier : Identifier width}
    (read : ofHex text = .ok identifier) :
    identifier.shortText =
      "0x" ++ (if significant text = [] then "0" else String.ofList (significant text)) := by
  obtain ⟨areDigits, _, _⟩ := ofHex_iff_number.1 read
  rw [significant_eq areDigits, ← dropZeros_digits read, shortText]
  cases identifier.digits.dropWhile (· = 0x30) with
  | nil => rfl
  | cons first rest => rfl

theorem shortText_begins (identifier : Identifier width) :
    identifier.shortText = "0x0" ∨
      ∃ first rest, identifier.shortText = "0x" ++ String.ofList (first :: rest) ∧ first ≠ '0' := by
  unfold shortText
  split
  · exact Or.inl rfl
  · rename_i digits notNone
    cases shape : identifier.digits.dropWhile (· = 0x30) with
    | nil => exact absurd shape notNone
    | cons first rest =>
        have notZero : first ≠ 0x30 := by
          have head := List.head?_dropWhile_not (· = 0x30) identifier.digits
          rw [shape] at head
          simpa using head
        exact Or.inr ⟨_, _, rfl, (charOfNat_eq_zero first).not.2 notZero⟩

theorem ofHex_digits (identifier : Identifier width) {text : String}
    (shown : text = identifier.fullText ∨ text = identifier.hexText) :
    ofHex text = .ok identifier ∧ ofHex (upperCased text) = .ok identifier := by
  have fits : (identifier.digits.length + 1) / 2 ≤ width := by
    rw [length_digits]
    omega
  exact ofHex_spelling (isDigit_digits identifier) fits (number_digits identifier) shown

theorem ofHex_shortText (identifier : Identifier width) (wide : 0 < width) :
    ofHex identifier.shortText = .ok identifier ∧
      ofHex (upperCased identifier.shortText) = .ok identifier :=
  ofHex_spelling (isDigit_shortDigits identifier) (length_shortDigits identifier wide)
    (number_shortDigits identifier) (Or.inl (shortText_eq identifier))

theorem shortText_inj {left right : Identifier width} :
    left.shortText = right.shortText ↔ left = right := by
  constructor
  · intro same
    by_cases wide : 0 < width
    · have read := (ofHex_shortText left wide).1
      rw [same, (ofHex_shortText right wide).1] at read
      exact (Except.ok.inj read).symm
    · have noBytes : ∀ identifier : Identifier width, identifier.bytes = [] := by
        intro identifier
        have length := identifier.length_eq
        exact List.eq_nil_of_length_eq_zero (by omega)
      rw [← number_inj, number, number, noBytes, noBytes]
  · exact congrArg shortText

/-- The short form has the significant digits of every text that denotes the identifier, in lowercase,
and tells identifiers apart. All forms denote the identifier again, in capitals too, but for the short
form where there are no bytes. -/
theorem shown_forms (width : Nat) :
    (∀ (text : String) (identifier : Identifier width), ofHex text = .ok identifier →
      identifier.shortText =
        "0x" ++ (if significant text = [] then "0" else String.ofList (significant text))) ∧
    (∀ identifier : Identifier width, identifier.shortText = "0x0" ∨
      ∃ first rest, identifier.shortText = "0x" ++ String.ofList (first :: rest) ∧ first ≠ '0') ∧
    (∀ (text other : String) (left right : Identifier width), ofHex text = .ok left →
      ofHex other = .ok right → (left.shortText = right.shortText ↔ left = right)) ∧
    (∀ identifier : Identifier width, ∀ text ∈ [identifier.fullText, identifier.hexText],
      ofHex text = .ok identifier ∧ ofHex (upperCased text) = .ok identifier) ∧
    ∀ identifier : Identifier width,
      if 0 < width then
        ofHex identifier.shortText = .ok identifier ∧
          ofHex (upperCased identifier.shortText) = .ok identifier
      else (ofHex identifier.shortText : Except Fault (Identifier width)) = .error (.tooLong 0 1) := by
  refine ⟨?_, shortText_begins, ?_, ?_, ?_⟩
  · intro text identifier read
    exact shortText_of_ofHex read
  · intro text other left right _ _
    exact shortText_inj
  · intro identifier text shown
    exact ofHex_digits identifier (by simpa using shown)
  · intro identifier
    split
    · rename_i wide
      exact ofHex_shortText identifier wide
    · rename_i narrow
      obtain rfl : width = 0 := by omega
      have noBytes : identifier = ⟨[], rfl⟩ := by
        rw [← number_inj, number, List.eq_nil_of_length_eq_zero identifier.length_eq]
        rfl
      rw [noBytes]
      rfl

theorem shown_forms_two_bytes :
    ofHex "0X00aF" = .ok (⟨[0x00, 0xAF], rfl⟩ : Identifier 2) ∧
      Identifier.shortText (⟨[0x00, 0xAF], rfl⟩ : Identifier 2) = "0xaf" := by
  have read : ofHex "0X00aF" = .ok (⟨[0x00, 0xAF], rfl⟩ : Identifier 2) := by rfl
  have digits : significant "0X00aF" = ['a', 'f'] := by decide
  refine ⟨read, ?_⟩
  rw [(shown_forms 2).1 "0X00aF" _ read, digits]
  rfl

end Identifier

end LedgerWire

import LedgerWire.Proofs.Json.ReadBack

/-!
The lists and records that are open at once in a text, counted byte by byte. In the text of a value
they are as many as the value is high.
-/

namespace LedgerWire.Json

/-- How far a count of brackets has come: how many are open, the most that have been, and whether
the next byte stands in a string, or there behind a backslash. -/
structure Count where
  opened : Nat
  most : Nat
  quoted : Bool
  escaped : Bool

namespace Count

def start : Count := ⟨0, 0, false, false⟩

def next (count : Count) (byte : UInt8) : Count :=
  if count.quoted then
    if count.escaped then { count with escaped := false }
    else if byte = backslash then { count with escaped := true }
    else if byte = quote then { count with quoted := false }
    else count
  else if byte = quote then { count with quoted := true }
  else if byte = openList ∨ byte = openRecord then
    { count with opened := count.opened + 1, most := max count.most (count.opened + 1) }
  else if byte = closeList ∨ byte = closeRecord then { count with opened := count.opened - 1 }
  else count

end Count

/-- The most lists and records that are open at once in a text. -/
def openAtOnce (bytes : Bytes) : Nat := (bytes.foldl Count.next .start).most

def Raises (text : Bytes) (height : Nat) : Prop :=
  ∀ opened most, opened ≤ most →
    text.foldl Count.next ⟨opened, most, false, false⟩ =
      ⟨opened, max most (opened + height), false, false⟩

theorem raises_append {first second : Bytes} {low high : Nat} (firstRaises : Raises first low)
    (secondRaises : Raises second high) : Raises (first ++ second) (max low high) := by
  intro opened most below
  rw [List.foldl_append, firstRaises opened most below, secondRaises opened _ (by omega)]
  congr 1
  omega

def isPlain (byte : UInt8) : Bool :=
  byte ≠ quote && byte ≠ openList && byte ≠ openRecord && byte ≠ closeList && byte ≠ closeRecord

theorem raises_plain {text : Bytes} (plain : text.all isPlain = true) : Raises text 0 := by
  intro opened most below
  rw [List.all_eq_true] at plain
  have unchanged : ∀ byte ∈ text, Count.next ⟨opened, most, false, false⟩ byte =
      ⟨opened, most, false, false⟩ := by
    intro byte member
    have apart := plain byte member
    simp only [isPlain, ne_eq, Bool.and_eq_true, decide_eq_true_eq] at apart
    simp [Count.next, apart]
  rw [show max most (opened + 0) = most by omega]
  clear plain
  induction text with
  | nil => rfl
  | cons byte rest ih =>
      rw [List.foldl_cons, unchanged byte List.mem_cons_self]
      exact ih fun other member => unchanged other (List.mem_cons_of_mem _ member)

theorem raises_digits (value : Nat) : Raises (naturalBytes value) 0 := by
  refine raises_plain (List.all_eq_true.2 ?_)
  intro byte member
  have digit := (wholeDigits_naturalBytes value).1.2 byte member
  simp only [isDigit, Bool.and_eq_true, decide_eq_true_eq, UInt8.le_iff_toNat_le,
    UInt8.reduceToNat] at digit
  simp only [isPlain, quote, openList, openRecord, closeList, closeRecord, ne_eq, Bool.and_eq_true,
    decide_eq_true_eq, ← UInt8.toNat_inj, UInt8.reduceToNat]
  omega

theorem raises_whole (value : Int) (fits : -0x8000000000000000 ≤ value ∧ value < 0x10000000000000000) :
    Raises (Number.whole value fits).bytes 0 := by
  simp only [Number.bytes]
  split
  · have sign : Raises [0x2D] 0 := raises_plain rfl
    exact raises_append sign (raises_digits _)
  · exact raises_digits _

/-! Inside a string the count stays where it is. -/

theorem count_inside (opened most : Nat) {byte : UInt8} (notQuote : byte ≠ quote)
    (notBackslash : byte ≠ backslash) :
    Count.next ⟨opened, most, true, false⟩ byte = ⟨opened, most, true, false⟩ := by
  simp [Count.next, notQuote, notBackslash]

theorem count_escape (opened most : Nat) (letter : UInt8) :
    [backslash, letter].foldl Count.next ⟨opened, most, true, false⟩ = ⟨opened, most, true, false⟩ :=
  rfl

theorem digit_apart {value : UInt8} (small : value.toNat < 16) :
    Hex.digit value ≠ quote ∧ Hex.digit value ≠ backslash := by
  have code := Hex.toNat_digit value small
  simp only [backslash, quote, ne_eq, ← UInt8.toNat_inj, UInt8.reduceToNat, code]
  split <;> omega

theorem count_control (opened most : Nat) (byte : UInt8) :
    (backslash :: 0x75 :: 0x30 :: 0x30 :: Hex.encodeByte byte).foldl Count.next
      ⟨opened, most, true, false⟩ = ⟨opened, most, true, false⟩ := by
  obtain ⟨high, low, _⟩ := Hex.halves byte
  have zero : Count.next ⟨opened, most, true, false⟩ 0x30 = ⟨opened, most, true, false⟩ := rfl
  have escaped := count_escape opened most 0x75
  simp only [List.foldl_cons, List.foldl_nil] at escaped
  simp only [List.foldl_cons, List.foldl_nil, Hex.encodeByte, escaped, zero,
    count_inside opened most (digit_apart high).1 (digit_apart high).2,
    count_inside opened most (digit_apart low).1 (digit_apart low).2]

theorem count_escapeByte (opened most : Nat) (byte : UInt8) :
    (escapeByte byte).foldl Count.next ⟨opened, most, true, false⟩ = ⟨opened, most, true, false⟩ := by
  unfold escapeByte
  by_cases isQuote : byte = quote
  · rw [if_pos isQuote]
    exact count_escape opened most _
  by_cases isBackslash : byte = backslash
  · rw [if_neg isQuote, if_pos isBackslash]
    exact count_escape opened most _
  rw [if_neg isQuote, if_neg isBackslash]
  repeat' split
  all_goals first
    | exact count_escape opened most _
    | exact count_control opened most byte
    | exact count_inside opened most isQuote isBackslash

theorem raises_stringText (text : String) : Raises (stringText text) 0 := by
  intro opened most below
  have content : ∀ bytes : Bytes, (bytes.flatMap escapeByte).foldl Count.next
      ⟨opened, most, true, false⟩ = ⟨opened, most, true, false⟩ := by
    intro bytes
    induction bytes with
    | nil => rfl
    | cons byte rest ih => rw [List.flatMap_cons, List.foldl_append, count_escapeByte, ih]
  have opens : Count.next ⟨opened, most, false, false⟩ quote = ⟨opened, most, true, false⟩ := rfl
  have closes : Count.next ⟨opened, most, true, false⟩ quote = ⟨opened, most, false, false⟩ := rfl
  simp only [stringText, List.foldl_append, List.foldl_cons, List.foldl_nil, opens, content, closes]
  rw [show max most (opened + 0) = most by omega]

theorem raises_bracketed {text : Bytes} {height : Nat} (raises : Raises text height)
    {opening closing : UInt8} (opens : opening = openList ∨ opening = openRecord)
    (closes : closing = closeList ∨ closing = closeRecord) :
    Raises (opening :: text ++ [closing]) (height + 1) := by
  intro opened most below
  have entered : Count.next ⟨opened, most, false, false⟩ opening =
      ⟨opened + 1, max most (opened + 1), false, false⟩ := by
    rcases opens with same | same <;> rw [same] <;> rfl
  have left : ∀ high, Count.next ⟨opened + 1, high, false, false⟩ closing =
      ⟨opened, high, false, false⟩ := by
    intro high
    rcases closes with same | same <;> rw [same] <;> rfl
  simp only [List.foldl_append, List.foldl_cons, List.foldl_nil, entered]
  rw [raises (opened + 1) _ (by omega), left]
  congr 1
  omega

theorem raises_between {first : Bytes} {rest : List Bytes} {low high : Nat}
    (firstRaises : Raises first low) (restRaises : Raises (between comma rest) high) :
    Raises (between comma (first :: rest)) (max low high) := by
  cases rest with
  | nil =>
      have whole := raises_append firstRaises restRaises
      rw [between, List.append_nil] at whole
      exact whole
  | cons second more =>
      have separator : Raises [comma] 0 := raises_plain rfl
      have separated := raises_append separator restRaises
      rw [Nat.zero_max] at separated
      exact raises_append firstRaises separated

mutual

theorem raises_bytes : (value : Value) → value.Exact → Raises value.bytes value.height
  | .null, _ => raises_plain rfl
  | .boolean true, _ => raises_plain rfl
  | .boolean false, _ => raises_plain rfl
  | .number (.whole value fits), _ => raises_whole value fits
  | .number (.float _), exact => exact.elim
  | .text text, _ => raises_stringText text
  | .list items, exact => raises_bracketed (raises_items items exact) (Or.inl rfl) (Or.inl rfl)
  | .record members, exact =>
    raises_bracketed (raises_members members exact) (Or.inr rfl) (Or.inr rfl)

theorem raises_items : (items : List Value) → exactItems items →
    Raises (between comma (itemsBytes items)) (heightOfItems items)
  | [], _ => raises_plain rfl
  | item :: rest, exact => raises_between (raises_bytes item exact.1) (raises_items rest exact.2)

theorem raises_members : (members : Members) → exactMembers members →
    Raises (between comma (membersBytes members)) (heightOfMembers members)
  | [], _ => raises_plain rfl
  | (key, value) :: rest, exact => by
    have colonPlain : Raises [colon] 0 := raises_plain rfl
    have content := raises_append colonPlain (raises_bytes value exact.1)
    have member := raises_append (raises_stringText key) content
    rw [Nat.zero_max, Nat.zero_max] at member
    exact raises_between member (raises_members rest exact.2)

end

/-- What a value is written as has as many lists and records open at once as the value is high. -/
theorem openAtOnce_bytes {value : Value} (exact : value.Exact) :
    openAtOnce value.bytes = value.height := by
  rw [openAtOnce, Count.start, raises_bytes value exact 0 0 (Nat.le_refl 0)]
  simp

end LedgerWire.Json

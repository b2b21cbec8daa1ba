import Mathlib.Data.List.TakeWhile
import LedgerWire.Proofs.Identifier
import LedgerWire.Proofs.Json.Grammar
import LedgerWire.Proofs.Wire.OwnerShape

/-!
Addresses at the boundary, between quotes or bare. The bytes between the blanks at both ends are all
that counts, and they are the text of an address or a literal that denotes one.
-/

namespace LedgerWire

open Json

/-! The bytes between the blanks. -/

namespace Ascii

def Spaces (bytes : Bytes) : Prop := ∀ byte ∈ bytes, isSpace byte = true

def Starts (bytes : Bytes) : Prop := ∀ byte ∈ bytes.head?, isSpace byte = false

theorem Spaces.append {front back : Bytes} (spaces : Spaces front) (spacesToo : Spaces back) :
    Spaces (front ++ back) := by
  intro byte member
  exact (List.mem_append.1 member).elim (spaces byte) (spacesToo byte)

theorem findIdx_behind_spaces {front rest : Bytes} (spaces : Spaces front) (starts : Starts rest) :
    (front ++ rest).findIdx (fun byte => !isSpace byte) = front.length := by
  have none : front.findIdx (fun byte => !isSpace byte) = front.length :=
    List.findIdx_eq_length.2 fun byte member => by rw [spaces byte member, Bool.not_true]
  have here : rest.findIdx (fun byte => !isSpace byte) = 0 := by
    cases rest with
    | nil => rfl
    | cons byte tail =>
        have notSpace := starts byte rfl
        rw [List.findIdx_cons, notSpace]
        rfl
  rw [List.findIdx_append, none, if_neg (Nat.lt_irrefl _), here, Nat.zero_add]

theorem trim_spaces {bytes : Bytes} (spaces : Spaces bytes) : trim bytes = [] := by
  have start : trimStart bytes = bytes.length := by
    have whole := @findIdx_behind_spaces bytes [] spaces fun byte member => by simp at member
    rwa [List.append_nil] at whole
  have stop : trimStop bytes = bytes.length := by
    have none : bytes.reverse.findIdx? (fun byte => !isSpace byte) = none :=
      List.findIdx?_eq_none_iff.2 fun byte member => by
        rw [spaces byte (List.mem_reverse.1 member), Bool.not_true]
    rw [trimStop, none]
    exact start
  simp only [trim, slice, start, stop, List.take_length, List.drop_length]

theorem Starts.append {body : Bytes} (starts : Starts body) (some : body ≠ []) (rest : Bytes) :
    Starts (body ++ rest) := by
  rw [Starts, List.head?_append_of_ne_nil body some]
  exact starts

theorem trim_between {front body back : Bytes} (spaces : Spaces front) (spacesToo : Spaces back)
    (starts : Starts body) (ends : Starts body.reverse) : trim (front ++ (body ++ back)) = body := by
  by_cases empty : body = []
  · rw [empty]
    exact trim_spaces (spaces.append spacesToo)
  · have start : trimStart (front ++ (body ++ back)) = front.length :=
      findIdx_behind_spaces spaces (starts.append empty back)
    have stop : trimStop (front ++ (body ++ back)) = front.length + body.length := by
      -- The end is looked for from behind, which is a search from the front of the reversed bytes.
      have backwards : Spaces back.reverse := fun byte member => spacesToo byte (List.mem_reverse.1 member)
      have found := findIdx_behind_spaces backwards
        (ends.append (List.reverse_ne_nil_iff.2 empty) front.reverse)
      have positive := List.length_pos_iff.2 empty
      have blanks : (front ++ (body ++ back)).reverse.findIdx? (fun byte => !isSpace byte) =
          some back.length := by
        rw [List.findIdx?_eq_some_iff_findIdx_eq, List.reverse_append, List.reverse_append,
          List.append_assoc, found]
        simp only [List.length_append, List.length_reverse, and_true]
        omega
      rw [trimStop, blanks]
      simp only [List.length_append]
      omega
    rw [trim, slice, start, stop, ← List.append_assoc, ← List.length_append, List.take_left,
      List.drop_left]

theorem trim_split (bytes : Bytes) :
    ∃ front back, bytes = front ++ (trim bytes ++ back) ∧ Spaces front ∧ Spaces back := by
  obtain ⟨ordered, _⟩ := trim_inRange bytes
  have shorter : (bytes.take (trimStop bytes)).take (trimStart bytes) = bytes.take (trimStart bytes) := by
    rw [List.take_take, Nat.min_eq_left ordered]
  refine ⟨bytes.take (trimStart bytes), bytes.drop (trimStop bytes), ?_, ?_, ?_⟩
  · rw [← List.append_assoc, trim, slice, ← shorter, List.take_append_drop, List.take_append_drop]
  · intro byte member
    rw [trimStart, ← List.takeWhile_eq_take_findIdx_not] at member
    exact List.mem_takeWhile_imp member
  · intro byte member
    unfold trimStop at member
    split at member
    · rename_i blanks found
      have behind := (List.findIdx?_eq_some_iff_findIdx_eq.1 found).2
      have reversed : byte ∈ bytes.reverse.take blanks := by
        rw [List.take_reverse]
        exact List.mem_reverse.2 member
      rw [← behind, ← List.takeWhile_eq_take_findIdx_not] at reversed
      exact List.mem_takeWhile_imp reversed
    · rename_i none
      have inside := List.mem_reverse.2 (List.mem_of_mem_drop member)
      simpa using List.findIdx?_eq_none_iff.1 none byte inside

end Ascii

/-! What an address is spelled with. -/

namespace Identifier

variable {width : Nat}

theorem encode_cases {text : String} {identifier : Identifier width}
    (accepted : ofHex text = .ok identifier) :
    ∀ byte ∈ Utf8.encode text, Hex.IsDigit byte ∨ byte = 0x78 ∨ byte = 0x58 := by
  obtain ⟨digits, _, _⟩ := ofHex_iff_number.1 accepted
  rw [← encode_bareText] at digits
  have zero : Hex.IsDigit 0x30 := by decide
  intro byte member
  unfold withoutPrefix at digits
  split at digits
  · rename_i rest shape
    rw [shape, List.mem_cons, List.mem_cons] at member
    rcases member with rfl | rfl | inside
    · exact Or.inl zero
    · exact Or.inr (Or.inl rfl)
    · exact Or.inl (digits byte inside)
  · rename_i rest shape
    rw [shape, List.mem_cons, List.mem_cons] at member
    rcases member with rfl | rfl | inside
    · exact Or.inl zero
    · exact Or.inr (Or.inr rfl)
    · exact Or.inl (digits byte inside)
  · exact Or.inl (digits byte member)

theorem encode_apart {text : String} {identifier : Identifier width}
    (accepted : ofHex text = .ok identifier) :
    ∀ byte ∈ Utf8.encode text, Ascii.isSpace byte = false ∧ byte ≠ quote := by
  intro byte member
  rcases encode_cases accepted byte member with isDigit | rfl | rfl
  · exact forall_digits isDigit (by decide)
  · decide
  · decide

end Identifier

theorem decode_string_denotes {payload : Bytes} {text : String} :
    Codec.string.decode payload = .ok text ↔
      ∃ gap literal space, payload = gap ++ (literal ++ space) ∧ Blank gap ∧ Blank space ∧
        Denotes literal text := by
  simp only [Owner.decode_string_iff, readFound_text_iff, readString_iff]
  constructor
  · rintro ⟨rest, ⟨_, shape, body, rfl, spells⟩, ended⟩
    obtain ⟨gap, blank, split⟩ := skipBlanks_split payload
    refine ⟨gap, quote :: (body ++ [quote]), rest, ?_, blank, skipBlanks_eq_nil.1 ended, body, rfl,
      spells⟩
    rw [split, shape]
    simp
  · rintro ⟨gap, literal, space, rfl, blank, blankToo, body, rfl, spells⟩
    refine ⟨space, ⟨body ++ quote :: space, ?_, body, rfl, spells⟩, skipBlanks_eq_nil.2 blankToo⟩
    rw [skipBlanks_blank blank, List.cons_append, List.append_assoc]
    exact skipBlanks_of_head quote _ (by decide)

theorem Address.decode_iff {payload : Bytes} {address : Address} :
    Address.codec.decode payload = .ok address ↔
      ∃ text, Codec.string.decode payload = .ok text ∧ Identifier.ofHex text = .ok address := by
  rw [codec, Identifier.codec, Codec.decode_eq_ok]
  simp only [Owner.decode_string_iff, Codec.ofString, Codec.scalar_ofText_iff]
  constructor
  · rintro ⟨rest, ⟨found, read, visited⟩, ended⟩
    cases found with
    | text content =>
        refine ⟨content, ⟨rest, read, ended⟩, ?_⟩
        cases parsed : (Identifier.ofHex content : Except Identifier.Fault Address) with
        | error fault => simp [parsed, Except.mapError, Codec.refuse] at visited
        | ok value => simpa [parsed, Except.mapError] using visited
    | null | boolean | number | list | record => simp [wrongType] at visited
  · rintro ⟨text, ⟨rest, read, ended⟩, accepted⟩
    exact ⟨rest, ⟨.text text, read, by simp [accepted, Except.mapError]⟩, ended⟩

theorem Blank.spaces {bytes : Bytes} (blank : Blank bytes) : Ascii.Spaces bytes :=
  fun byte member => isSpace_of_isBlank (blank byte member)

namespace Boundary

theorem addressOfBytes_quoted {payload : Bytes} {address : Address}
    (quoted : (Ascii.trim payload).head? = some quote) :
    addressOfBytes payload = .ok address ↔
      ∃ text, Codec.string.decode (Ascii.trim payload) = .ok text ∧
        Identifier.ofHex text = .ok address := by
  simp only [addressOfBytes, quoted, if_true, bind_eq_ok, asDecoded, mapError_eq_ok]

theorem addressOfBytes_bare {payload : Bytes} {address : Address}
    (bare : (Ascii.trim payload).head? ≠ some quote) :
    addressOfBytes payload = .ok address ↔
      ∃ text, Ascii.trim payload = Utf8.encode text ∧ Identifier.ofHex text = .ok address := by
  simp only [addressOfBytes, bare, if_false, ← Utf8.decode_eq_ok]
  cases Utf8.decode (Ascii.trim payload) with
  | error fault => simp
  | ok text => simp [mapError_eq_ok]

theorem addressOfBytes_eq_ok {payload : Bytes} {address : Address} :
    addressOfBytes payload = .ok address ↔
      ∃ front body back, payload = front ++ (body ++ back) ∧ Ascii.Spaces front ∧
        Ascii.Spaces back ∧ ∃ text, Identifier.ofHex text = .ok address ∧
          (body = Utf8.encode text ∨ Denotes body text) := by
  constructor
  · intro decoded
    obtain ⟨front, back, split, spaces, spacesToo⟩ := Ascii.trim_split payload
    by_cases quoted : (Ascii.trim payload).head? = some quote
    · obtain ⟨text, read, accepted⟩ := (addressOfBytes_quoted quoted).1 decoded
      obtain ⟨gap, literal, space, same, blank, blankToo, denotes⟩ := decode_string_denotes.1 read
      refine ⟨front ++ gap, literal, space ++ back, ?_, spaces.append (Blank.spaces blank),
        (Blank.spaces blankToo).append spacesToo, text, accepted, Or.inr denotes⟩
      rw [split, same]
      simp
    · obtain ⟨text, same, accepted⟩ := (addressOfBytes_bare quoted).1 decoded
      exact ⟨front, _, back, split, spaces, spacesToo, text, accepted, Or.inl same⟩
  · rintro ⟨front, body, back, rfl, spaces, spacesToo, text, accepted, rfl | denotes⟩
    · have apart := Identifier.encode_apart accepted
      have trimmed : Ascii.trim (front ++ (Utf8.encode text ++ back)) = Utf8.encode text := by
        refine Ascii.trim_between spaces spacesToo ?_ ?_
        · exact fun byte first => (apart byte (List.mem_of_head? first)).1
        · exact fun byte last => (apart byte (List.mem_reverse.1 (List.mem_of_head? last))).1
      have bare : (Ascii.trim (front ++ (Utf8.encode text ++ back))).head? ≠ some quote := by
        rw [trimmed]
        exact fun first => (apart quote (List.mem_of_head? first)).2 rfl
      exact (addressOfBytes_bare bare).2 ⟨text, trimmed, accepted⟩
    · have trimmed : Ascii.trim (front ++ (body ++ back)) = body := by
        obtain ⟨inner, rfl, _⟩ := denotes
        refine Ascii.trim_between spaces spacesToo ?_ ?_
        · intro byte first
          obtain rfl := Option.some.inj first
          decide
        · intro byte last
          simp only [List.reverse_cons, List.reverse_append] at last
          obtain rfl := Option.some.inj last
          decide
      have quoted : (Ascii.trim (front ++ (body ++ back))).head? = some quote := by
        obtain ⟨inner, rfl, _⟩ := denotes
        rw [trimmed]
        rfl
      refine (addressOfBytes_quoted quoted).2 ⟨text, ?_, accepted⟩
      rw [trimmed]
      exact decode_string_denotes.2
        ⟨[], body, [], (List.append_nil _).symm, blank_nil, blank_nil, denotes⟩

/-- An address is decoded from the text of one and from a literal that denotes such a text, with
blanks around them, and from nothing else; so it is where the payload alone is read as an address.
What is trimmed off lies within the payload. -/
theorem address_forms :
    (∀ payload address, (decodeAddress payload).outcome = .ok address ↔
      ∃ front body back, payload = front ++ (body ++ back) ∧ Ascii.Spaces front ∧
        Ascii.Spaces back ∧ ∃ text, Identifier.ofHex text = .ok address ∧
          (body = Utf8.encode text ∨ Denotes body text)) ∧
    (∀ payload address, (decode Address.codec payload).outcome = .ok address →
      (decodeAddress payload).outcome = .ok address) ∧
    ∀ payload, (Ascii.trimStart payload ≤ Ascii.trimStop payload ∧
      Ascii.trimStop payload ≤ payload.length) ∧
      Ascii.trim payload = (payload.take (Ascii.trimStop payload)).drop (Ascii.trimStart payload) := by
  have forms : ∀ payload address, (decodeAddress payload).outcome = .ok address ↔
      ∃ front body back, payload = front ++ (body ++ back) ∧ Ascii.Spaces front ∧
        Ascii.Spaces back ∧ ∃ text, Identifier.ofHex text = .ok address ∧
          (body = Utf8.encode text ∨ Denotes body text) :=
    fun _ _ => logged_eq_ok.trans addressOfBytes_eq_ok
  refine ⟨forms, ?_, fun payload => ⟨Ascii.trim_inRange payload, rfl⟩⟩
  intro payload address decoded
  obtain ⟨text, read, accepted⟩ := Address.decode_iff.1 (decode_eq_ok.1 decoded)
  obtain ⟨gap, literal, space, same, blank, blankToo, denotes⟩ := decode_string_denotes.1 read
  exact (forms payload address).2 ⟨gap, literal, space, same, Blank.spaces blank,
    Blank.spaces blankToo, text, accepted, Or.inr denotes⟩

theorem zero_address_forms :
    (decodeAddress (0x0C :: stringText "0x0")).outcome = .ok (Identifier.zero addressWidth) ∧
      (decodeAddress (stringText "0x0")).outcome = .ok (Identifier.zero addressWidth) ∧
      (decodeAddress []).outcome = .ok (Identifier.zero addressWidth) := by
  obtain ⟨forms, decodedToo, _⟩ := address_forms
  have none : Ascii.Spaces [] := Blank.spaces blank_nil
  have formFeed : Ascii.Spaces [0x0C] := by simp [Ascii.Spaces, Ascii.isSpace]
  have short : Identifier.ofHex "0x0" = .ok (Identifier.zero addressWidth) := by decide
  have empty : Identifier.ofHex "" = .ok (Identifier.zero addressWidth) := by decide
  have denotes := denotes_stringText "0x0"
  refine ⟨?_, ?_, ?_⟩
  · exact (forms _ _).2 ⟨[0x0C], stringText "0x0", [], by rw [List.append_nil]; rfl, formFeed,
      none, "0x0", short, Or.inr denotes⟩
  · refine decodedToo _ _ (decode_eq_ok.2 (Address.decode_iff.2 ⟨"0x0", ?_, short⟩))
    exact decode_string_denotes.2
      ⟨[], stringText "0x0", [], (List.append_nil _).symm, blank_nil, blank_nil, denotes⟩
  · exact (forms _ _).2 ⟨[], [], [], rfl, none, none, "", empty, Or.inl rfl⟩

end Boundary

end LedgerWire

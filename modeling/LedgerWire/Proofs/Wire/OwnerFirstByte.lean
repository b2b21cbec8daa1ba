import LedgerWire.Proofs.Text.Lenient
import LedgerWire.Proofs.Wire.AddressForms

/-!
The first byte of an owner that is no blank tells its shape. What is wrong behind that byte is a fault
of the text; where the byte tells no shape, the beginning of the payload is shown.
-/

namespace LedgerWire

open Json

namespace Json

def Fills (text payload : Bytes) : Prop :=
  ∃ gap space, payload = gap ++ (text ++ space) ∧ Blank gap ∧ Blank space

/-- The text of one complete value that is neither a string nor a record. -/
inductive OtherShape : Bytes → Prop
  | word {text : Bytes} (known : text ∈ [nullText, trueText, falseText]) : OtherShape text
  | number {text : Bytes} {literal : Literal} (written : LiteralText text literal) : OtherShape text
  | list {items : List Bytes} {text : Bytes} (each : ∀ item ∈ items, ValueText item)
      (sequence : Sequence closeList true items text) : OtherShape (openList :: text)

theorem OtherShape.begins {text : Bytes} (other : OtherShape text) :
    ∃ byte tail, text = byte :: tail ∧ Ascii.isSpace byte = false ∧ byte ≠ quote ∧
      byte ≠ openRecord := by
  cases other with
  | word known =>
      simp only [List.mem_cons, List.not_mem_nil, or_false] at known
      rcases known with rfl | rfl | rfl
      all_goals exact ⟨_, _, rfl, by decide, by decide, by decide⟩
  | number written =>
      obtain ⟨byte, tail, shape, numeric⟩ := written.begins
      refine ⟨byte, tail, shape, ?_⟩
      simp only [isDigit, Bool.or_eq_true, Bool.and_eq_true, decide_eq_true_eq, ← UInt8.toNat_inj,
        UInt8.le_iff_toNat_le, UInt8.reduceToNat] at numeric
      simp only [Ascii.isSpace, Bool.or_eq_false_iff, decide_eq_false_iff_not, ne_eq, quote,
        openRecord, ← UInt8.toNat_inj, UInt8.reduceToNat]
      omega
  | list => exact ⟨_, _, rfl, by decide, by decide, by decide⟩

end Json

namespace Owner

/-- The first byte that is no blank. -/
def Leads (payload : Bytes) (byte : UInt8) : Prop :=
  ∃ front rest, payload = front ++ byte :: rest ∧ Ascii.Spaces front ∧ Ascii.isSpace byte = false

variable {payload : Bytes}

theorem leads_iff {byte : UInt8} :
    Leads payload byte ↔ (payload.find? fun byte => !Ascii.isSpace byte) = some byte := by
  rw [List.find?_eq_some_iff_append]
  simp only [Leads, Ascii.Spaces, Bool.not_eq_true', Bool.not_not]
  constructor
  · rintro ⟨front, rest, split, spaces, notSpace⟩
    exact ⟨notSpace, front, rest, split, fun other member => by simpa using spaces other member⟩
  · rintro ⟨notSpace, front, rest, split, spaces⟩
    exact ⟨front, rest, split, fun other member => by simpa using spaces other member, notSpace⟩

theorem ofBytes_quote (leads : Leads payload quote) :
    ofBytes payload = asDecoded ((Codec.string.decode payload).map .named) := by
  rw [ofBytes, leads_iff.1 leads]
  rfl

theorem ofBytes_openRecord (leads : Leads payload openRecord) :
    ofBytes payload = asDecoded ((OwnerRule.codec.decode payload).map .ruled) := by
  rw [ofBytes, leads_iff.1 leads]
  rfl

theorem ofBytes_other (notQuote : ¬ Leads payload quote) (notRecord : ¬ Leads payload openRecord) :
    ofBytes payload = .error (.unrecognizedShape (preview payload)) := by
  rw [leads_iff] at notQuote notRecord
  unfold ofBytes
  split
  · rename_i found
    exact absurd found notQuote
  · rename_i found
    exact absurd found notRecord
  · rfl

theorem preview_eq (payload : Bytes) :
    preview payload = Utf8.decodeLenient (payload.take (min 32 payload.length)) ++
      if 32 < payload.length then "..." else "" := by
  rw [preview, previewSize, List.take_eq_take_min]
  split
  · rfl
  · rw [String.append_empty]

theorem decode_string_fills {name : String} :
    Codec.string.decode payload = .ok name ↔
      ∃ literal, Denotes literal name ∧ Fills literal payload := by
  rw [decode_string_denotes]
  constructor
  · rintro ⟨gap, literal, space, split, blank, blankToo, denotes⟩
    exact ⟨literal, denotes, gap, space, split, blank, blankToo⟩
  · rintro ⟨literal, denotes, gap, space, split, blank, blankToo⟩
    exact ⟨gap, literal, space, split, blank, blankToo, denotes⟩

theorem Leads.unique {first second : UInt8} (leads : Leads payload first)
    (leadsToo : Leads payload second) : first = second :=
  Option.some.inj ((leads_iff.1 leads).symm.trans (leads_iff.1 leadsToo))

theorem leads_of_fills {text : Bytes} {byte : UInt8} {tail : Bytes} (fills : Fills text payload)
    (shape : text = byte :: tail) (notSpace : Ascii.isSpace byte = false) : Leads payload byte := by
  obtain ⟨gap, space, split, blank, _⟩ := fills
  exact ⟨gap, tail ++ space, by rw [split, shape, List.cons_append], Blank.spaces blank, notSpace⟩

theorem asDecoded_cases {α β : Type} (outcome : Except Fault α) (make : α → β) :
    (∃ value, asDecoded (outcome.map make) = .ok (make value)) ∨
      ∃ fault, asDecoded (outcome.map make) = .error (.json fault) := by
  cases outcome with
  | ok value => exact Or.inl ⟨value, rfl⟩
  | error fault => exact Or.inr ⟨fault, rfl⟩

theorem ofBytes_named_or (leads : Leads payload quote) :
    (∃ name, ofBytes payload = .ok (.named name)) ∨ ∃ fault, ofBytes payload = .error (.json fault) := by
  rw [ofBytes_quote leads]
  exact asDecoded_cases _ _

theorem ofBytes_ruled_or (leads : Leads payload openRecord) :
    (∃ rule, ofBytes payload = .ok (.ruled rule)) ∨ ∃ fault, ofBytes payload = .error (.json fault) := by
  rw [ofBytes_openRecord leads]
  exact asDecoded_cases _ _

theorem ofBytes_named_iff (leads : Leads payload quote) {name : String} :
    ofBytes payload = .ok (.named name) ↔ ∃ literal, Denotes literal name ∧ Fills literal payload := by
  rw [ofBytes_quote leads, ← decode_string_fills, asDecoded, mapError_eq_ok, map_eq_ok]
  constructor
  · rintro ⟨other, decoded, same⟩
    rw [← Owner.named.inj same, decoded]
  · intro decoded
    exact ⟨name, decoded, rfl⟩

theorem ofBytes_shown (notQuote : ¬ Leads payload quote) (notRecord : ¬ Leads payload openRecord) :
    ∃ shown, (∀ text, Utf8.Replaced (payload.take (min 32 payload.length)) text ↔ text = shown) ∧
      ofBytes payload = .error (.unrecognizedShape
        (String.ofList shown ++ if 32 < payload.length then "..." else "")) := by
  refine ⟨(Utf8.decodeLenient (payload.take (min 32 payload.length))).toList, fun text => ?_, ?_⟩
  · have replaced := @Utf8.replaced_iff (payload.take (min 32 payload.length)) (String.ofList text)
    rw [String.toList_ofList] at replaced
    rw [replaced, ← String.toList_inj, String.toList_ofList]
    exact eq_comm
  · rw [ofBytes_other notQuote notRecord, preview_eq, String.ofList_toList]

theorem ofBytes_fault_kinds {fault : DecodeFault} (failed : ofBytes payload = .error fault) :
    (∃ shown, fault = .unrecognizedShape shown) ∨ ∃ cause, fault = .json cause := by
  by_cases quoted : Leads payload quote
  · rcases ofBytes_named_or quoted with ⟨name, read⟩ | ⟨cause, read⟩
    · simp [failed] at read
    · exact Or.inr ⟨cause, Except.error.inj (failed.symm.trans read)⟩
  by_cases record : Leads payload openRecord
  · rcases ofBytes_ruled_or record with ⟨rule, read⟩ | ⟨cause, read⟩
    · simp [failed] at read
    · exact Or.inr ⟨cause, Except.error.inj (failed.symm.trans read)⟩
  · exact Or.inl ⟨_, Except.error.inj (failed.symm.trans (ofBytes_other quoted record))⟩

/-- The first byte that is no blank decides: a quote for a name, an opening bracket for a rule, and for
neither of them the first bytes are shown, so for every other value. Faults are of those two kinds. -/
theorem told_by_first_byte :
    (∀ payload, ¬ Leads payload quote → ¬ Leads payload openRecord →
      ∃ shown, (∀ text, Utf8.Replaced (payload.take (min 32 payload.length)) text ↔ text = shown) ∧
        ofBytes payload = .error (.unrecognizedShape
          (String.ofList shown ++ if 32 < payload.length then "..." else ""))) ∧
    (∀ payload, Leads payload quote →
      (∀ name, ofBytes payload = .ok (.named name) ↔
        ∃ literal, Denotes literal name ∧ Fills literal payload) ∧
      ((∃ name, ofBytes payload = .ok (.named name)) ∨ ∃ fault, ofBytes payload = .error (.json fault))) ∧
    (∀ payload, Leads payload openRecord →
      (∃ rule, ofBytes payload = .ok (.ruled rule)) ∨ ∃ fault, ofBytes payload = .error (.json fault)) ∧
    (∀ text payload, OtherShape text → Fills text payload →
      ∃ shown, ofBytes payload = .error (.unrecognizedShape shown)) ∧
    ∀ payload fault, ofBytes payload = .error fault →
      (∃ shown, fault = .unrecognizedShape shown) ∨ ∃ cause, fault = .json cause := by
  refine ⟨fun payload => ofBytes_shown, ?_, fun payload => ofBytes_ruled_or, ?_,
    fun payload fault => ofBytes_fault_kinds⟩
  · intro payload leads
    exact ⟨fun name => ofBytes_named_iff leads, ofBytes_named_or leads⟩
  · intro text payload other fills
    obtain ⟨byte, tail, shape, notSpace, notQuote, notRecord⟩ := other.begins
    have leads := leads_of_fills fills shape notSpace
    exact ⟨_, ofBytes_other (fun quoted => notQuote (leads.unique quoted))
      fun record => notRecord (leads.unique record)⟩

theorem first_bytes_told :
    ofBytes (List.replicate 31 0x78 ++ Utf8.encodeChar 'é') = .error (.unrecognizedShape
      (String.ofList (List.replicate 31 'x' ++ ['\uFFFD']) ++ "...")) ∧
    ofBytes (stringText immutableName) = .ok (.named immutableName) ∧
    (∃ fault, ofBytes (0x0C :: stringText immutableName) = .error (.json fault)) ∧
    (∃ fault, ofBytes (Value.record [("AddressOwner", .text "0xzz")]).bytes = .error (.json fault)) ∧
    (∃ shown, ofBytes [openList, closeList] = .error (.unrecognizedShape shown)) ∧
    ∀ fault, ofBytes [0xE2, 0x82] = .error fault →
      (∃ shown, fault = .unrecognizedShape shown) ∨ ∃ cause, fault = .json cause := by
  obtain ⟨shapeless, quoted, record, others, kinds⟩ := told_by_first_byte
  refine ⟨?_, ?_, ?_, ?_, ?_, kinds _⟩
  · obtain ⟨shown, only, same⟩ := shapeless (List.replicate 31 0x78 ++ Utf8.encodeChar 'é')
      (by rw [leads_iff]; decide) (by rw [leads_iff]; decide)
    have replaced : Utf8.Replaced ((List.replicate 31 0x78 ++ Utf8.encodeChar 'é').take 32)
        (String.ofList (List.replicate 31 'x' ++ ['\uFFFD'])).toList :=
      Utf8.replaced_iff.2 (by decide +kernel)
    rw [String.toList_ofList] at replaced
    rw [same, ← (only _).1 replaced]
    rfl
  · have leads : Leads (stringText immutableName) quote := leads_iff.2 (by decide +kernel)
    exact ((quoted _ leads).1 _).2 ⟨_, denotes_stringText _, [], [], by simp, blank_nil, blank_nil⟩
  · have leads : Leads (0x0C :: stringText immutableName) quote := leads_iff.2 (by decide +kernel)
    refine (quoted _ leads).2.resolve_left ?_
    rintro ⟨name, read⟩
    have refused : (ofBytes (0x0C :: stringText immutableName)).toOption = none := by decide +kernel
    simp [read, Except.toOption] at refused
  · have leads : Leads (Value.record [("AddressOwner", .text "0xzz")]).bytes openRecord :=
      leads_iff.2 (by decide +kernel)
    refine (record _ leads).resolve_left ?_
    rintro ⟨rule, read⟩
    have refused : (ofBytes (Value.record [("AddressOwner", .text "0xzz")]).bytes).toOption = none := by
      decide +kernel
    simp [read, Except.toOption] at refused
  · exact others [openList, closeList] _ (.list (by simp) (.finished blank_nil))
      ⟨[], [], by simp, blank_nil, blank_nil⟩

end Owner

end LedgerWire

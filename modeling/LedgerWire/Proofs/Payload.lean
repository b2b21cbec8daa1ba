import LedgerWire.Payload
import LedgerWire.Proofs.Text.Base64
import LedgerWire.Proofs.Text.Digits
import Mathlib.Data.List.DropRight

/-!
Payloads and the texts that are read as them. All texts of a payload differ in the padding at their
ends alone.
-/

namespace LedgerWire.Payload

/-- A text less the padding at its end. -/
def unpadded (text : String) : String := String.ofList (text.toList.rdropWhile (· = '='))

def padded (text : String) : String :=
  text ++ String.ofList (List.replicate (Base64.missing text.length) '=')

def bareText (payload : Payload) : String := Ascii.text (Base64.letters payload.bytes)

theorem length_bareText (payload : Payload) :
    payload.bareText.length = (Base64.letters payload.bytes).length := by
  rw [bareText, Ascii.text, String.length_ofList, List.length_map]

theorem text_append_pads (payload : Payload) (pads : Nat) :
    Ascii.text (Base64.letters payload.bytes ++ List.replicate pads Base64.pad) =
      payload.bareText ++ String.ofList (List.replicate pads '=') := by
  rw [bareText, Ascii.text, Ascii.text, List.map_append, List.map_replicate, String.ofList_append]
  rfl

theorem ofText_eq_ok {text : String} {payload : Payload} :
    ofText text = .ok payload ↔ ∃ pads, pads ≤ Base64.missing payload.bareText.length ∧
      text = payload.bareText ++ String.ofList (List.replicate pads '=') := by
  have decoded : ofText text = .ok payload ↔ Base64.decode (Utf8.encode text) = .ok payload.bytes := by
    cases read : Base64.decode (Utf8.encode text) with
    | error fault => simp [ofText, read, Except.map]
    | ok bytes =>
        cases payload
        simp [ofText, read, Except.map]
  rw [decoded, Base64.decode_eq_ok, length_bareText]
  refine exists_congr fun pads => and_congr_right fun _ => ?_
  have plain := Base64.padded_plain payload.bytes pads
  rw [← text_append_pads]
  constructor
  · intro encoded
    rw [← encoded, Ascii.text_encode (by rw [encoded]; exact plain)]
  · intro isText
    rw [isText, Ascii.encode_text _ plain]

theorem text_eq (payload : Payload) : payload.text = padded payload.bareText := by
  rw [text, Base64.encode_eq, text_append_pads, padded, length_bareText]

theorem ofText_text (payload : Payload) : ofText payload.text = .ok payload :=
  ofText_eq_ok.2 ⟨_, Nat.le_refl _, text_eq payload⟩

theorem letter_ne_pad {byte : UInt8} (isLetter : Base64.isLetter byte = true) :
    Char.ofNat byte.toNat ≠ '=' := by
  intro isPad
  have code := congrArg Char.toNat isPad
  rw [Ascii.toNat_ofNat] at code
  have same : byte = Base64.pad := UInt8.toNat_inj.1 code
  rw [same] at isLetter
  exact Bool.noConfusion isLetter

theorem unpadded_append (payload : Payload) (pads : Nat) :
    unpadded (payload.bareText ++ String.ofList (List.replicate pads '=')) = payload.bareText := by
  have ends : (payload.bareText.toList).rdropWhile (· = '=') = payload.bareText.toList := by
    rw [List.rdropWhile_eq_self_iff]
    intro some isPad
    have member := List.getLast_mem some
    rw [decide_eq_true_eq] at isPad
    rw [isPad, bareText, Ascii.text, String.toList_ofList, List.mem_map] at member
    obtain ⟨byte, inside, same⟩ := member
    exact letter_ne_pad (Base64.isLetter_letters payload.bytes byte inside) same
  rw [unpadded, String.toList_append, String.toList_ofList]
  induction pads with
  | zero => rw [List.replicate_zero, List.append_nil, ends, String.ofList_toList]
  | succ pads ih =>
      rw [List.replicate_succ', ← List.append_assoc, List.rdropWhile_concat_pos _ _ _ (by simp), ih]

theorem unpadded_of_ofText {text : String} {payload : Payload} (read : ofText text = .ok payload) :
    unpadded text = payload.bareText := by
  obtain ⟨pads, _, isText⟩ := ofText_eq_ok.1 read
  rw [isText, unpadded_append]

/-- A payload is read back from its text; every other text of it has less padding, and none has bits
that no byte takes. -/
theorem one_text_up_to_padding :
    (∀ payload, ofText payload.text = .ok payload) ∧
      (∀ text payload, ofText text = .ok payload → payload.text = padded (unpadded text)) ∧
      (∀ first second left right, ofText first = .ok left → ofText second = .ok right →
        (left = right ↔ unpadded first = unpadded second)) ∧
      ∀ text, true ∈ Base64.spareBits (Utf8.encode text) → ∃ fault, ofText text = .error fault := by
  have canonical : ∀ text payload, ofText text = .ok payload →
      payload.text = padded (unpadded text) := by
    intro text payload read
    rw [unpadded_of_ofText read, text_eq]
  refine ⟨ofText_text, canonical, ?_, ?_⟩
  · intro first second left right readFirst readSecond
    constructor
    · intro same
      rw [unpadded_of_ofText readFirst, unpadded_of_ofText readSecond, same]
    · intro same
      have sameText : left.text = right.text := by
        rw [canonical first left readFirst, canonical second right readSecond, same]
      have backLeft := ofText_text left
      rw [sameText, ofText_text] at backLeft
      exact (Except.ok.inj backLeft).symm
  · intro text spare
    cases read : Base64.decode (Utf8.encode text) with
    | error fault => exact ⟨fault, by rw [ofText, read]; rfl⟩
    | ok bytes => exact Bool.noConfusion (Base64.spareBits_decoded read true spare)

theorem padding_of_four_bytes :
    ofText "3q2+7w==" = .ok ⟨[0xDE, 0xAD, 0xBE, 0xEF]⟩ ∧
      ofText "3q2+7w=" = .ok ⟨[0xDE, 0xAD, 0xBE, 0xEF]⟩ ∧
      (⟨[0xDE, 0xAD, 0xBE, 0xEF]⟩ : Payload).text = padded (unpadded "3q2+7w=") ∧
      unpadded "3q2+7w==" = unpadded "3q2+7w=" ∧ ∃ fault, ofText "3q2+7x==" = .error fault := by
  have whole : ofText "3q2+7w==" = .ok ⟨[0xDE, 0xAD, 0xBE, 0xEF]⟩ := by decide +kernel
  have half : ofText "3q2+7w=" = .ok ⟨[0xDE, 0xAD, 0xBE, 0xEF]⟩ := by decide +kernel
  obtain ⟨_, canonical, onePayload, spare⟩ := one_text_up_to_padding
  exact ⟨whole, half, canonical _ _ half, (onePayload _ _ _ _ whole half).1 rfl,
    spare _ (by decide +kernel)⟩

end LedgerWire.Payload

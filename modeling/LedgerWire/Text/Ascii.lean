import LedgerWire.Text.Utf8

/-!
Texts and bytes of one byte a character, and the blanks among them.
-/

namespace LedgerWire.Ascii

def bytes (text : List Char) : Bytes := text.map fun value => value.toNat.toUInt8

def text (bytes : Bytes) : String := String.ofList (bytes.map fun byte => Char.ofNat byte.toNat)

def isSpace (byte : UInt8) : Bool :=
  byte = 0x20 || byte = 0x09 || byte = 0x0A || byte = 0x0C || byte = 0x0D

/-- The bytes from one position up to another. The positions come with what makes them a range. -/
def slice (bytes : Bytes) (start stop : Nat) (_inRange : start ≤ stop ∧ stop ≤ bytes.length) : Bytes :=
  (bytes.take stop).drop start

def trimStart (bytes : Bytes) : Nat := bytes.findIdx fun byte => !isSpace byte

def trimStop (bytes : Bytes) : Nat :=
  match bytes.reverse.findIdx? fun byte => !isSpace byte with
  | some blanks => bytes.length - blanks
  | none => trimStart bytes

theorem trim_inRange (bytes : Bytes) :
    trimStart bytes ≤ trimStop bytes ∧ trimStop bytes ≤ bytes.length := by
  have short : trimStart bytes ≤ bytes.length := List.findIdx_le_length
  unfold trimStop
  split
  · rename_i blanks found
    obtain ⟨within, kept, _⟩ := List.findIdx?_eq_some_iff_getElem.1 found
    rw [List.length_reverse] at within
    rw [List.getElem_reverse] at kept
    refine ⟨?_, by omega⟩
    by_cases before : bytes.length - 1 - blanks < trimStart bytes
    · rw [List.not_of_lt_findIdx before] at kept
      exact Bool.noConfusion kept
    · omega
  · exact ⟨Nat.le_refl _, short⟩

def trim (bytes : Bytes) : Bytes :=
  slice bytes (trimStart bytes) (trimStop bytes) (trim_inRange bytes)

end LedgerWire.Ascii

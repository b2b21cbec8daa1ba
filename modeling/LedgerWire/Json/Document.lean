import LedgerWire.Json.Lexeme

/-!
Whole JSON values: reading any value, passing over one, and writing one. A value that is passed
over may nest without limit and its strings are not decoded; elsewhere the number of lists and
records open at once is bounded.
-/

namespace LedgerWire.Json

inductive Next
  | finished (rest : Bytes)
  | entry (rest : Bytes)

def nextEntry (close : UInt8) (isFirst : Bool) (bytes : Bytes) : Except Fault Next :=
  match skipBlanks bytes with
  | [] => .error .endOfInput
  | byte :: rest =>
    if byte = close then .ok (.finished rest)
    else if isFirst then .ok (.entry (byte :: rest))
    else if byte = comma then
      match skipBlanks rest with
      | [] => .error .endOfInput
      | byte :: rest => if byte = close then .error .malformed else .ok (.entry (byte :: rest))
    else .error .malformed

/-- Runs `entry` on every entry up to the closing bracket. Each entry takes at least one byte, so
more bytes than `bound` cannot be met where `bound` is the length of the text. -/
def readEntries {σ : Type} (close : UInt8) (entry : σ → Reader σ) :
    (bound : Nat) → (isFirst : Bool) → σ → Reader σ
  | 0, _, _, _ => .error .endOfInput
  | bound + 1, isFirst, state, bytes => do
    match ← nextEntry close isFirst bytes with
    | .finished rest => .ok (state, rest)
    | .entry rest =>
      let (state, rest) ← entry state rest
      readEntries close entry bound false state rest

def readAll {σ : Type} (close : UInt8) (entry : σ → Reader σ) (start : σ) : Reader σ :=
  fun bytes => readEntries close entry (bytes.length + 1) true start bytes

def readKey : Reader String := fun bytes =>
  match bytes with
  | [] => .error .endOfInput
  | byte :: rest => if byte = quote then readString rest else .error .malformed

def readColon (bytes : Bytes) : Except Fault Bytes :=
  match skipBlanks bytes with
  | [] => .error .endOfInput
  | byte :: rest => if byte = colon then .ok rest else .error .malformed

def readItem {α : Type} (item : Reader α) (items : List α) : Reader (List α) := fun bytes => do
  let (value, rest) ← item bytes
  .ok (value :: items, rest)

def readMember (content : Reader Value) (members : Members) : Reader Members := fun bytes => do
  let (key, rest) ← readKey bytes
  let rest ← readColon rest
  let (value, rest) ← content rest
  .ok ((key, value) :: members, rest)

/-- Any value, with at most `depth` lists and records open at once. -/
def readValue : (depth : Nat) → Reader Value
  | depth, bytes => do
    let (found, rest) ← readFound bytes
    match found, depth with
    | .null, _ => .ok (.null, rest)
    | .boolean value, _ => .ok (.boolean value, rest)
    | .number value, _ => .ok (.number value, rest)
    | .text value, _ => .ok (.text value, rest)
    | .list, 0 | .record, 0 => .error .malformed
    | .list, depth + 1 => do
      let (items, rest) ← readAll closeList (readItem (readValue depth)) [] rest
      .ok (.list items.reverse, rest)
    | .record, depth + 1 => do
      let (members, rest) ← readAll closeRecord (readMember (readValue depth)) [] rest
      .ok (.record members.reverse, rest)

/-- The scalar or opening bracket at the front, passed over; a bracket is reported as what it
closes with. A number that ends too early is malformed here. -/
def skipScalar (bytes : Bytes) : Except Fault (Option UInt8 × Bytes) :=
  match skipBlanks bytes with
  | [] => .error .endOfInput
  | byte :: rest =>
    if byte = 0x6E then do
      let (_, rest) ← readWord nullTail rest
      .ok (none, rest)
    else if byte = 0x74 then do
      let (_, rest) ← readWord trueTail rest
      .ok (none, rest)
    else if byte = 0x66 then do
      let (_, rest) ← readWord falseTail rest
      .ok (none, rest)
    else if byte = 0x2D || isDigit byte then
      match readLiteral (byte :: rest) with
      | .ok (_, rest) => .ok (none, rest)
      | .error _ => .error .malformed
    else if byte = quote then do
      let rest ← skipString rest
      .ok (none, rest)
    else if byte = openList then .ok (some closeList, rest)
    else if byte = openRecord then .ok (some closeRecord, rest)
    else .error .malformed

def skipWithin : (bound : Nat) → Reader Unit
  | bound, bytes => do
    match ← skipScalar bytes, bound with
    | (none, rest), _ => .ok ((), rest)
    | (some _, _), 0 => .error .endOfInput
    | (some close, rest), bound + 1 =>
      let entry := fun () bytes =>
        if close = closeList then skipWithin bound bytes
        else
          match bytes with
          | [] => .error .endOfInput
          | byte :: rest =>
            if byte = quote then do
              let rest ← skipString rest
              let rest ← readColon rest
              skipWithin bound rest
            else .error .malformed
      readAll close entry () rest

def skipValue (bytes : Bytes) : Except Fault (Unit × Bytes) := skipWithin bytes.length bytes

def readDocument {α : Type} (reader : Reader α) (bytes : Bytes) : Except Fault α := do
  let (value, rest) ← reader bytes
  if (skipBlanks rest).isEmpty then .ok value else .error .malformed

def depthLimit : Nat := 127

def Value.ofBytes (bytes : Bytes) : Except Fault Value := readDocument (readValue depthLimit) bytes

def escapeByte (byte : UInt8) : Bytes :=
  if byte = quote then [backslash, quote]
  else if byte = backslash then [backslash, backslash]
  else if byte = 0x08 then [backslash, 0x62]
  else if byte = 0x0C then [backslash, 0x66]
  else if byte = 0x0A then [backslash, 0x6E]
  else if byte = 0x0D then [backslash, 0x72]
  else if byte = 0x09 then [backslash, 0x74]
  else if byte < 0x20 then backslash :: 0x75 :: 0x30 :: 0x30 :: Hex.encodeByte byte
  else [byte]

def stringText (text : String) : Bytes := quote :: (Utf8.encode text).flatMap escapeByte ++ [quote]

def between (separator : UInt8) : List Bytes → Bytes
  | [] => []
  | [only] => only
  | first :: rest => first ++ separator :: between separator rest

mutual

def Value.bytes : Value → Bytes
  | .null => 0x6E :: nullTail
  | .boolean true => 0x74 :: trueTail
  | .boolean false => 0x66 :: falseTail
  | .number value => value.bytes
  | .text value => stringText value
  | .list items => openList :: between comma (itemsBytes items) ++ [closeList]
  | .record members => openRecord :: between comma (membersBytes members) ++ [closeRecord]

def itemsBytes : List Value → List Bytes
  | [] => []
  | item :: rest => item.bytes :: itemsBytes rest

def membersBytes : Members → List Bytes
  | [] => []
  | (key, value) :: rest => (stringText key ++ colon :: value.bytes) :: membersBytes rest

end

end LedgerWire.Json

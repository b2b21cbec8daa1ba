import LedgerWire.Json.Document

/-!
Codecs: how a type is written as a JSON value, read from a text, and read from a value that has been
read before. Reading from a text reports the first problem in the order of the text; text of the
wrong type is read as far as its first scalar or bracket, so that malformed text stays malformed.
-/

namespace LedgerWire.Json

structure Codec (α : Type) where
  toValue : α → Value
  /-- Reads a value with at most so many lists and records open at once. -/
  ofText : Nat → Reader α
  ofValue : Value → Except Fault α

namespace Codec

variable {α β : Type}

def encode (codec : Codec α) (value : α) : Bytes := (codec.toValue value).bytes

def decode (codec : Codec α) (bytes : Bytes) : Except Fault α :=
  readDocument (codec.ofText depthLimit) bytes

end Codec

def Value.found : Value → Found
  | .null => .null
  | .boolean value => .boolean value
  | .number value => .number value
  | .text value => .text value
  | .list _ => .list
  | .record _ => .record

def wrongType {α : Type} (expected : String) (found : Found) : Except Fault α :=
  .error (.mismatch (.wrongType found expected))

namespace Codec

variable {α β : Type}

/-- A type whose values are single scalars. `visit` refuses brackets. -/
def scalar (toValue : α → Value) (visit : Found → Except Fault α) : Codec α where
  toValue := toValue
  ofText _ bytes := do
    let (found, rest) ← readFound bytes
    let value ← visit found
    .ok (value, rest)
  ofValue value := visit value.found

def refuse (reason : String) : Except Fault α := .error (.mismatch (.refused reason))

def ofString (expected : String) (print : α → String) (parse : String → Except String α) : Codec α :=
  scalar (fun value => .text (print value)) fun
    | .text text =>
      match parse text with
      | .ok value => .ok value
      | .error reason => refuse reason
    | found => wrongType expected found

def string : Codec String := ofString "a string" id .ok

def natural : Codec UInt64 :=
  scalar (fun value => .number (ofNatural value)) fun
    | .number (.whole value fits) =>
      if value < 0 then .error (.mismatch (.wrongValue (.number (.whole value fits)) "u64"))
      else .ok value.toNat.toUInt64
    | found => wrongType "u64" found

def nullable (item : Codec α) : Codec (Option α) where
  toValue
    | some value => item.toValue value
    | none => .null
  ofText depth bytes :=
    match skipBlanks bytes with
    | 0x6E :: rest => do
      let (_, rest) ← readWord nullTail rest
      .ok (none, rest)
    | rest => do
      let (value, rest) ← item.ofText depth rest
      .ok (some value, rest)
  ofValue
    | .null => .ok none
    | value => (item.ofValue value).map some

def valuesOfItems (item : Codec α) : List Value → Except Fault (List α)
  | [] => .ok []
  | value :: rest => do
    let value ← item.ofValue value
    let values ← valuesOfItems item rest
    .ok (value :: values)

def list (item : Codec α) : Codec (List α) where
  toValue values := .list (values.map item.toValue)
  ofText depth bytes := do
    let (found, rest) ← readFound bytes
    match found, depth with
    | .list, 0 => .error .malformed
    | .list, depth + 1 =>
      let (items, rest) ← readAll closeList (readItem (item.ofText depth)) [] rest
      .ok (items.reverse, rest)
    | found, _ => wrongType "a sequence" found
  ofValue
    | .list items => valuesOfItems item items
    | value => wrongType "a sequence" value.found

/-- A type that is a part of another one, whose remaining values are refused. -/
def refine (base : Codec α) (widen : β → α) (narrow : α → Except String β) : Codec β where
  toValue value := base.toValue (widen value)
  ofText depth bytes := do
    let (value, rest) ← base.ofText depth bytes
    match narrow value with
    | .ok value => .ok (value, rest)
    | .error reason => refuse reason
  ofValue value := do
    let value ← base.ofValue value
    match narrow value with
    | .ok value => .ok value
    | .error reason => refuse reason

def freeForm : Codec FreeForm where
  toValue form := form.value
  ofText depth bytes := do
    let (value, rest) ← readValue depth bytes
    .ok (.ofValue value, rest)
  ofValue value := .ok (.ofValue value)

def freeRecord : Codec FreeRecord where
  toValue form := .record form.members
  ofText depth bytes := do
    let (found, rest) ← readFound bytes
    match found, depth with
    | .record, 0 => .error .malformed
    | .record, depth + 1 =>
      let (members, rest) ← readAll closeRecord (readMember (readValue depth)) [] rest
      .ok (.ofMembers members.reverse, rest)
    | found, _ => wrongType "a map" found
  ofValue
    | .record members => .ok (.ofMembers members)
    | value => wrongType "a map" value.found

end Codec
end LedgerWire.Json

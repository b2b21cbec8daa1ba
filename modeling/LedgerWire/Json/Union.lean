import LedgerWire.Json.Record

/-!
Types with several named arms. An arm without content is written as its name alone; an arm with
content is written as a record of one member, keyed by the name.
-/

namespace LedgerWire.Json

/-- One arm: what it is when its name stands alone, and how its content is read. -/
structure Arm (α : Type) where
  name : String
  alone : Except Fault α
  contentOfText : Nat → Reader α
  contentOfValue : Value → Except Fault α

namespace Arm

variable {α β : Type}

/-- An arm without content; the member form holds null. -/
def plain (name : String) (value : α) : Arm α where
  name := name
  alone := .ok value
  contentOfText _ bytes := do
    match ← readFound bytes with
    | (.null, rest) => .ok (value, rest)
    | (found, _) => wrongType "unit" found
  contentOfValue
    | .null => .ok value
    | content => wrongType "unit" content.found

def withoutContent (expected : String) : Except Fault α :=
  .error (.mismatch (.withoutContent expected))

def holding (name : String) (codec : Codec β) (make : β → α) : Arm α where
  name := name
  alone := withoutContent "newtype variant"
  contentOfText depth bytes := do
    let (content, rest) ← codec.ofText depth bytes
    .ok (make content, rest)
  contentOfValue content := (codec.ofValue content).map make

def withFields (name expected : String) (fields : Fields β) (make : β → α) : Arm α where
  name := name
  alone := withoutContent "struct variant"
  contentOfText depth bytes := do
    let (content, rest) ← (Codec.record expected fields).ofText depth bytes
    .ok (make content, rest)
  contentOfValue
    | .record members => (fields.ofMembers members).map make
    | content => wrongType "struct variant" content.found

/-- The same as `withFields`, where a list of the fields in order will not do. -/
def withMembers (name expected : String) (fields : Fields β) (make : β → α) : Arm α where
  name := name
  alone := withoutContent "struct variant"
  contentOfText depth bytes := do
    let (found, rest) ← readFound bytes
    match found, depth with
    | .record, 0 => .error .malformed
    | .record, depth + 1 =>
      let (content, rest) ← fields.readMembers depth rest
      .ok (make content, rest)
    | found, _ => wrongType expected found
  contentOfValue
    | .record members => (fields.ofMembers members).map make
    | content => wrongType expected content.found

def named (arms : List (Arm α)) (name : String) : Except Fault (Arm α) :=
  match arms.find? fun arm => arm.name = name with
  | some arm => .ok arm
  | none => .error (.mismatch (.unknownName name (arms.map Arm.name)))

end Arm

def endOfRecord (bytes : Bytes) : Except Fault Bytes :=
  match skipBlanks bytes with
  | [] => .error .endOfInput
  | byte :: rest => if byte = closeRecord then .ok rest else .error .malformed

/-- The key of the one member is read as the keys of records are: what is no text there is malformed,
whatever type it has. -/
def Codec.union {α : Type} (toValue : α → Value) (arms : List (Arm α)) : Codec α where
  toValue := toValue
  ofText depth bytes :=
    match skipBlanks bytes with
    | [] => .error .endOfInput
    | byte :: rest =>
      if byte = quote then do
        let (name, rest) ← readString rest
        let arm ← Arm.named arms name
        let value ← arm.alone
        .ok (value, rest)
      else if byte = openRecord then
        match depth with
        | 0 => .error .malformed
        | depth + 1 => do
          let (name, rest) ← readKey (skipBlanks rest)
          let arm ← Arm.named arms name
          let rest ← readColon rest
          let (value, rest) ← arm.contentOfText depth rest
          let rest ← endOfRecord rest
          .ok (value, rest)
      else .error .malformed
  ofValue
    | .text name => do
      let arm ← Arm.named arms name
      arm.alone
    | .record [(name, content)] => do
      let arm ← Arm.named arms name
      arm.contentOfValue content
    | .record _ => .error (.mismatch (.wrongValue .record "map with a single key"))
    | value => wrongType "string or map" value.found

example {α : Type} (toValue : α → Value) (arms : List (Arm α)) :
    (Codec.union toValue arms).decode (Utf8.encode "\x7b1:2\x7d") = .error .malformed := rfl

def Codec.names {α : Type} (name : α → String) (values : List α) : Codec α :=
  .union (fun value => .text (name value)) (values.map fun value => .plain (name value) value)

end LedgerWire.Json

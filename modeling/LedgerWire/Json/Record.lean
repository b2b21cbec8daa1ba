import LedgerWire.Json.Codec

/-!
Records with named fields. A record is read from the members of a JSON record in any order, unknown
keys being passed over and a known key allowed once; or from a JSON list that holds the fields in
their order, optional ones possibly missing at the end.
-/

namespace LedgerWire.Json

/-- The fields of a record type: a place for each field while the record is being read, and the
record made from the places once all has been read. -/
structure Fields (α : Type) where
  Slots : Type
  blank : Slots
  /-- The keys in their order, each with whether it may be missing. -/
  keys : List (String × Bool)
  isFilled : String → Slots → Bool
  placeText : String → Slots → Nat → Reader Slots
  placeValue : String → Slots → Value → Except Fault Slots
  finish : Slots → Except Fault α
  members : α → Members

namespace Fields

variable {α β : Type}

def isKey (fields : Fields α) (key : String) : Bool := fields.keys.any fun known => known.1 = key

/-- A field whose value `missing` is used when the key is not there. -/
def single (key : String) (codec : Codec α) (optional : Bool) (missing : Except Fault α)
    (members : α → Members) : Fields α where
  Slots := Option α
  blank := none
  keys := [(key, optional)]
  isFilled _ slot := slot.isSome
  placeText _ _ depth bytes := do
    let (value, rest) ← codec.ofText depth bytes
    .ok (some value, rest)
  placeValue _ _ value := (codec.ofValue value).map some
  finish
    | some value => .ok value
    | none => missing
  members := members

def required (key : String) (codec : Codec α) : Fields α :=
  single key codec false (.error (.mismatch (.missingField key)))
    fun value => [(key, codec.toValue value)]

def withDefault (key : String) (codec : Codec α) (fallback : α) : Fields α :=
  single key codec true (.ok fallback) fun value => [(key, codec.toValue value)]

def optional (key : String) (codec : Codec α) : Fields (Option α) :=
  single key codec.nullable true (.ok none) fun
    | some value => [(key, codec.toValue value)]
    | none => []

def optionalList (key : String) (codec : Codec α) : Fields (List α) :=
  single key codec.list true (.ok []) fun
    | [] => []
    | values => [(key, codec.list.toValue values)]

def both (left : Fields α) (right : Fields β) : Fields (α × β) where
  Slots := left.Slots × right.Slots
  blank := (left.blank, right.blank)
  keys := left.keys ++ right.keys
  isFilled key slots :=
    if left.isKey key then left.isFilled key slots.1 else right.isFilled key slots.2
  placeText key slots depth bytes :=
    if left.isKey key then do
      let (slot, rest) ← left.placeText key slots.1 depth bytes
      .ok ((slot, slots.2), rest)
    else do
      let (slot, rest) ← right.placeText key slots.2 depth bytes
      .ok ((slots.1, slot), rest)
  placeValue key slots value :=
    if left.isKey key then do
      let slot ← left.placeValue key slots.1 value
      .ok (slot, slots.2)
    else do
      let slot ← right.placeValue key slots.2 value
      .ok (slots.1, slot)
  finish slots := do
    let first ← left.finish slots.1
    let second ← right.finish slots.2
    .ok (first, second)
  members value := left.members value.1 ++ right.members value.2

/-- The same fields of a type of its own. -/
def as (fields : Fields α) (make : α → β) (parts : β → α) : Fields β where
  Slots := fields.Slots
  blank := fields.blank
  keys := fields.keys
  isFilled := fields.isFilled
  placeText := fields.placeText
  placeValue := fields.placeValue
  finish slots := (fields.finish slots).map make
  members value := fields.members (parts value)

def toValue (fields : Fields α) (value : α) : Value := .record (fields.members value)

def sizeText (fields : Fields α) : String :=
  toString fields.keys.length ++ (if fields.keys.length = 1 then " element" else " elements")

def firstRequired (index : Nat) : List (String × Bool) → Option Nat
  | [] => none
  | (_, optional) :: rest => if optional then firstRequired (index + 1) rest else some index

def lengthFault (fields : Fields α) (expected : String) (index : Nat) : Fault :=
  .mismatch (.wrongLength index (expected ++ " with " ++ fields.sizeText))

def readMember (fields : Fields α) (depth : Nat) (slots : fields.Slots) : Reader fields.Slots :=
  fun bytes => do
    let (key, rest) ← readKey bytes
    if fields.isKey key then
      if fields.isFilled key slots then .error (.mismatch (.repeatedField key))
      else do
        let rest ← readColon rest
        fields.placeText key slots depth rest
    else do
      let rest ← readColon rest
      let (_, rest) ← skipValue rest
      .ok (slots, rest)

def readMembers (fields : Fields α) (depth : Nat) : Reader α := fun bytes => do
  let (slots, rest) ← readAll closeRecord (fields.readMember depth) fields.blank bytes
  let value ← fields.finish slots
  .ok (value, rest)

def endOfList (bytes : Bytes) : Except Fault Bytes :=
  match skipBlanks bytes with
  | [] => .error .endOfInput
  | byte :: rest => if byte = closeList then .ok rest else .error .malformed

def readInOrder (fields : Fields α) (expected : String) (depth : Nat) :
    (index : Nat) → List (String × Bool) → fields.Slots → Reader fields.Slots
  | _, [], slots, bytes => do
    let rest ← endOfList bytes
    .ok (slots, rest)
  | index, (key, optional) :: keys, slots, bytes => do
    match ← nextEntry closeList (index = 0) bytes with
    | .finished rest =>
      match firstRequired index ((key, optional) :: keys) with
      | some missing => .error (fields.lengthFault expected missing)
      | none => .ok (slots, rest)
    | .entry rest =>
      let (slots, rest) ← fields.placeText key slots depth rest
      readInOrder fields expected depth (index + 1) keys slots rest

def readList (fields : Fields α) (expected : String) (depth : Nat) : Reader α := fun bytes => do
  let (slots, rest) ← fields.readInOrder expected depth 0 fields.keys fields.blank bytes
  let value ← fields.finish slots
  .ok (value, rest)

def placeMember (fields : Fields α) (slots : fields.Slots) (member : String × Value) :
    Except Fault fields.Slots :=
  if fields.isKey member.1 then
    if fields.isFilled member.1 slots then .error (.mismatch (.repeatedField member.1))
    else fields.placeValue member.1 slots member.2
  else .ok slots

def ofMembers (fields : Fields α) (members : Members) : Except Fault α := do
  let slots ← members.foldlM fields.placeMember fields.blank
  fields.finish slots

def placeInOrder (fields : Fields α) (expected : String) :
    (index : Nat) → List (String × Bool) → fields.Slots → List Value →
      Except Fault (fields.Slots × Bool)
  | _, [], slots, items => .ok (slots, !items.isEmpty)
  | index, (key, optional) :: keys, slots, [] =>
    match firstRequired index ((key, optional) :: keys) with
    | some missing => .error (fields.lengthFault expected missing)
    | none => .ok (slots, false)
  | index, (key, _) :: keys, slots, item :: items => do
    let slots ← fields.placeValue key slots item
    placeInOrder fields expected (index + 1) keys slots items

def ofItems (fields : Fields α) (expected : String) (items : List Value) : Except Fault α := do
  let (slots, leftOver) ← fields.placeInOrder expected 0 fields.keys fields.blank items
  let value ← fields.finish slots
  if leftOver then .error (.mismatch (.wrongLength items.length "fewer elements in array"))
  else .ok value

end Fields

def Codec.record {α : Type} (expected : String) (fields : Fields α) : Codec α where
  toValue := fields.toValue
  ofText depth bytes := do
    let (found, rest) ← readFound bytes
    match found, depth with
    | .list, 0 | .record, 0 => .error .malformed
    | .list, depth + 1 => fields.readList expected depth rest
    | .record, depth + 1 => fields.readMembers depth rest
    | found, _ => wrongType expected found
  ofValue
    | .list items => fields.ofItems expected items
    | .record members => fields.ofMembers members
    | value => wrongType expected value.found

end LedgerWire.Json

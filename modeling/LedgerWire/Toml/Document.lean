import LedgerWire.Toml.Scalar

/-!
Whole TOML texts: values in brackets, keys, and lines.
-/

namespace LedgerWire.Toml

/-- Blanks, line breaks and comments. Each round takes something, so `bound` rounds are enough where
`bound` is the length of the text. -/
def skipFiller : (bound : Nat) → List Char → List Char
  | 0, text => text
  | bound + 1, text =>
    match skipSpace text with
    | '#' :: rest => skipFiller bound (rest.dropWhile isPlain)
    | rest => rest

def isBareKey (value : Char) : Bool :=
  value.isAlphanum || value = '-' || value = '_'

def scanKeyPart (text : List Char) : Option (String × List Char) :=
  match text with
  | '"' :: _ | '\'' :: _ => scanShortString text
  | _ =>
    match text.takeWhile isBareKey with
    | [] => none
    | part => some (String.ofList part, text.dropWhile isBareKey)

def scanKeyParts : (bound : Nat) → List Char → Option (List String × List Char)
  | 0, _ => none
  | bound + 1, text => do
    let (part, rest) ← scanKeyPart (skipBlanks text)
    match skipBlanks rest with
    | '.' :: rest =>
      let (parts, rest) ← scanKeyParts bound rest
      some (part :: parts, rest)
    | rest => some ([part], rest)

def nestingLimit : Nat := 79

def scanKey (text : List Char) : Option (List String × String × List Char) := do
  let (parts, rest) ← scanKeyParts (text.length + 1) text
  if nestingLimit < parts.length then none
  else some (parts.dropLast, ← parts.getLast?, rest)

def scanItems (item : Scanner Node) : (bound : Nat) → List Char → Option (List Node × List Char)
  | 0, _ => none
  | bound + 1, text =>
    match skipFiller text.length text with
    | ']' :: rest => some ([], rest)
    | text => do
      let (node, rest) ← item text
      match skipFiller rest.length rest with
      | ',' :: rest =>
        let (nodes, rest) ← scanItems item bound rest
        some (node :: nodes, rest)
      | ']' :: rest => some ([node], rest)
      | _ => none

def scanBraced (value : Scanner Node) : (bound : Nat) → Entries → Scanner Entries
  | 0, _, _ => none
  | bound + 1, entries, text => do
    let (path, key, rest) ← scanKey text
    let rest ← expect '=' rest
    let (node, rest) ← value (skipBlanks rest)
    let entries ← addValue path key node .braced entries
    match skipBlanks rest with
    | ',' :: rest => scanBraced value bound entries rest
    | '\x7d' :: rest => some (entries, rest)
    | _ => none

/-- A value in which at most `depth` brackets are open at once. -/
def scanNode : (depth : Nat) → Scanner Node
  | depth, text =>
    match text, depth with
    | '"' :: _, _ | '\'' :: _, _ => (scanString text).map fun (value, rest) => (.text value, rest)
    | '[' :: _, 0 | '\x7b' :: _, 0 => none
    | '[' :: rest, depth + 1 =>
      (scanItems (scanNode depth) rest.length rest).map fun (items, rest) => (.list items, rest)
    | '\x7b' :: rest, depth + 1 =>
      match skipBlanks rest with
      | '\x7d' :: rest => some (.table .braced [], rest)
      | rest =>
        (scanBraced (scanNode depth) rest.length [] rest).map fun (entries, rest) =>
          (.table .braced entries, rest)
    | text, _ => scanScalar text

def scanLine (header : List String) (entries : Entries) (text : List Char) :
    Option (List String × Entries × List Char) :=
  match skipBlanks text with
  | '[' :: '[' :: rest => do
    let (path, key, rest) ← scanKey rest
    let rest ← finishLine (← expect ']' (← expect ']' rest))
    some (path ++ [key], ← appendTable path key entries, rest)
  | '[' :: rest => do
    let (path, key, rest) ← scanKey rest
    let rest ← finishLine (← expect ']' rest)
    some (path ++ [key], ← declareTable path key entries, rest)
  | rest =>
    match finishLine rest with
    | some rest => some (header, entries, rest)
    | none => do
      let (path, key, rest) ← scanKey rest
      let (node, rest) ← scanNode nestingLimit (skipBlanks (← expect '=' rest))
      let rest ← finishLine rest
      some (header, ← addUnder header path key node entries, rest)

def scanLines : (bound : Nat) → List String → Entries → List Char → Option Entries
  | _, _, entries, [] => some entries
  | 0, _, _, _ => none
  | bound + 1, header, entries, text => do
    let (header, entries, rest) ← scanLine header entries text
    scanLines bound header entries rest

/-- The entries that a text describes. A byte order mark may come first. -/
def read (text : String) : Option Entries :=
  let characters := match text.toList with
    | '\uFEFF' :: rest => rest
    | all => all
  scanLines characters.length [] [] characters

end LedgerWire.Toml

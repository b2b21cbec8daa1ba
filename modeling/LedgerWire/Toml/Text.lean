import LedgerWire.Text.Hex

/-!
Text in TOML: blanks, comments, and the four kinds of strings. A scanner takes characters from the
front and returns what is left.
-/

namespace LedgerWire.Toml

abbrev Scanner (α : Type) := List Char → Option (α × List Char)

def isBlank (value : Char) : Bool := value = ' ' || value = '\t'

def skipBlanks (text : List Char) : List Char := text.dropWhile isBlank

def newline? : List Char → Option (List Char)
  | '\n' :: rest => some rest
  | '\r' :: '\n' :: rest => some rest
  | _ => none

def isPlain (value : Char) : Bool :=
  value = '\t' || (0x20 ≤ value.toNat && value.toNat ≠ 0x7F)

def skipComment : List Char → List Char
  | '#' :: rest => rest.dropWhile isPlain
  | text => text

def endOfLine : List Char → Option (List Char)
  | [] => some []
  | text => newline? text

def finishLine (text : List Char) : Option (List Char) := endOfLine (skipComment (skipBlanks text))

def skipSpace : List Char → List Char
  | [] => []
  | '\r' :: '\n' :: rest => skipSpace rest
  | value :: rest => if isBlank value || value = '\n' then skipSpace rest else value :: rest

def hexNumber? (digits : List Char) : Option Nat :=
  digits.foldlM (fun value digit => (Hex.charValue? digit).map (value * 16 + ·)) 0

def character? (digits : List Char) : Option Char := do
  let code ← hexNumber? digits
  if Nat.isValidChar code then some (Char.ofNat code) else none

def escape? (letter : Char) : Option Char :=
  if letter = 'b' then some '\x08'
  else if letter = 't' then some '\t'
  else if letter = 'n' then some '\n'
  else if letter = 'f' then some '\x0c'
  else if letter = 'r' then some '\r'
  else if letter = '"' then some '"'
  else if letter = '\\' then some '\\'
  else none

def withFirst (value : Char) (result : Option (List Char × List Char)) :
    Option (List Char × List Char) :=
  result.map fun (content, rest) => (value :: content, rest)

def basicContent : List Char → Option (List Char × List Char)
  | [] => none
  | '"' :: rest => some ([], rest)
  | '\\' :: 'u' :: a :: b :: c :: d :: rest => do
    withFirst (← character? [a, b, c, d]) (basicContent rest)
  | '\\' :: 'U' :: a :: b :: c :: d :: e :: f :: g :: h :: rest => do
    withFirst (← character? [a, b, c, d, e, f, g, h]) (basicContent rest)
  | '\\' :: letter :: rest => do withFirst (← escape? letter) (basicContent rest)
  | value :: rest => if isPlain value && value ≠ '\\' then withFirst value (basicContent rest) else none

def literalContent : List Char → Option (List Char × List Char)
  | [] => none
  | '\'' :: rest => some ([], rest)
  | value :: rest => if isPlain value then withFirst value (literalContent rest) else none

/-- Where the content of a string of several lines stands: in its text, after a backslash that ends
its line, or in the blanks after that line. -/
inductive LineState
  | within
  | broken
  | skipping

def closing (mark : Char) : List Char → Option (List Char × List Char)
  | first :: second :: third :: rest =>
    if first = mark && second = mark && third = mark then
      match rest with
      | fourth :: fifth :: rest =>
        if fourth = mark && fifth = mark then some ([mark, mark], rest)
        else if fourth = mark then some ([mark], fifth :: rest)
        else some ([], fourth :: fifth :: rest)
      | [fourth] => if fourth = mark then some ([mark], []) else some ([], [fourth])
      | [] => some ([], [])
    else none
  | _ => none

/-- The content of a basic string of several lines. A backslash at the end of a line takes the line
break with it, and all blanks and line breaks that follow. -/
def basicLines (state : LineState) : List Char → Option (List Char × List Char)
  | [] => none
  | value :: rest =>
    match state with
    | .broken =>
      if isBlank value then basicLines .broken rest
      else if value = '\n' then basicLines .skipping rest
      else
        match value, rest with
        | '\r', '\n' :: rest => basicLines .skipping rest
        | _, _ => none
    | .within | .skipping =>
      let skipping := match state with
        | .skipping => true
        | _ => false
      if skipping && (isBlank value || value = '\n') then basicLines .skipping rest
      else
        match closing '"' (value :: rest) with
        | some found => some found
        | none =>
          if value = '\\' then
            match rest with
            | 'u' :: a :: b :: c :: d :: rest => do
              withFirst (← character? [a, b, c, d]) (basicLines .within rest)
            | 'U' :: a :: b :: c :: d :: e :: f :: g :: h :: rest => do
              withFirst (← character? [a, b, c, d, e, f, g, h]) (basicLines .within rest)
            | '\n' :: rest => basicLines .skipping rest
            | '\r' :: '\n' :: rest => basicLines .skipping rest
            | letter :: rest =>
              if isBlank letter then basicLines .broken rest
              else do withFirst (← escape? letter) (basicLines .within rest)
            | [] => none
          else if value = '\n' then withFirst '\n' (basicLines .within rest)
          else if value = '\r' then
            match rest with
            | '\n' :: rest =>
              if skipping then basicLines .skipping rest else withFirst '\n' (basicLines .within rest)
            | _ => none
          else if isPlain value then withFirst value (basicLines .within rest)
          else none

def literalLines : List Char → Option (List Char × List Char)
  | [] => none
  | value :: rest =>
    match closing '\'' (value :: rest) with
    | some found => some found
    | none =>
      if value = '\n' then withFirst '\n' (literalLines rest)
      else if value = '\r' then
        match rest with
        | '\n' :: rest => withFirst '\n' (literalLines rest)
        | _ => none
      else if isPlain value then withFirst value (literalLines rest)
      else none

def skipFirstBreak (text : List Char) : List Char := (newline? text).getD text

def asString (result : Option (List Char × List Char)) : Option (String × List Char) :=
  result.map fun (content, rest) => (String.ofList content, rest)

def scanShortString : Scanner String
  | '"' :: rest => asString (basicContent rest)
  | '\'' :: rest => asString (literalContent rest)
  | _ => none

def scanString : Scanner String
  | '"' :: '"' :: '"' :: rest => asString (basicLines .within (skipFirstBreak rest))
  | '\'' :: '\'' :: '\'' :: rest => asString (literalLines (skipFirstBreak rest))
  | text => scanShortString text

end LedgerWire.Toml

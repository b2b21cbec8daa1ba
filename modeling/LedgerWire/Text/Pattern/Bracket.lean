import LedgerWire.Text.Pattern.Atom

/-!
Classes of characters in brackets, which may nest and may be combined by operators.
-/

namespace LedgerWire.Pattern

def classNames : List String :=
  ["alnum", "alpha", "ascii", "blank", "cntrl", "digit", "graph", "lower", "print", "punct", "space",
    "upper", "word", "xdigit"]

def namedClass? : List Char → Option (Bool × List Char)
  | ':' :: rest =>
    let (negated, rest) := match rest with
      | '^' :: rest => (true, rest)
      | rest => (false, rest)
    match rest.dropWhile (· ≠ ':') with
    | ':' :: ']' :: after =>
      if classNames.contains (String.ofList (rest.takeWhile (· ≠ ':'))) then some (negated, after)
      else none
    | _ => none
  | _ => none

def Mode.allowsNamedClass (mode : Mode) (negated : Bool) : Bool :=
  if mode.allScripts then !mode.anyCase else !negated

def scanItem (spaced : Bool) : List Char → Option (Atom × List Char)
  | [] => none
  | '\\' :: rest => scanEscape spaced rest
  | value :: rest => some (.character value false, rest)

def upcoming (spaced : Bool) (text : List Char) : Option Char :=
  if spaced then
    match text.dropWhile Space.isSpace with
    | '#' :: rest => (rest.dropWhile Space.isSpace).head?
    | rest => rest.head?
  else text.head?

def isRange : Atom → Atom → Bool
  | .character first _, .character last _ => first ≤ last
  | _, _ => false

/-- An item, or a range of characters. A dash before the closing bracket or before another dash does
not make a range. -/
def scanRange (mode : Mode) (text : List Char) : Option (List Char) := do
  let (first, rest) ← scanItem mode.spaced text
  if !mode.allowsInClass first then none
  else
    match skip mode.spaced rest with
    | '-' :: after =>
      let next := upcoming mode.spaced after
      if next = some ']' || next = some '-' then some ('-' :: after)
      else do
        let (last, rest) ← scanItem mode.spaced (skip mode.spaced after)
        if mode.allowsInClass last && isRange first last then some rest else none
    | rest => some rest

structure Bracket where
  left : Option Nat
  items : Pile
  deriving DecidableEq, Repr

namespace Bracket

def empty : Bracket := ⟨none, .empty⟩

def add (bracket : Bracket) (height : Nat) : Bracket :=
  { bracket with items := bracket.items.add height }

def height (bracket : Bracket) : Nat :=
  match bracket.left with
  | some left => max left bracket.items.height + 1
  | none => bracket.items.height

def operate (bracket : Bracket) : Bracket := ⟨some bracket.height, .empty⟩

end Bracket

def scanNegation (mode : Mode) (text : List Char) : Option (List Char) :=
  match skip mode.spaced text with
  | '^' :: rest => if mode.allScripts then some rest else none
  | rest => some rest

/-- A class after its opening bracket, as its height and what follows. At the start of a class,
dashes and a closing bracket that comes first stand for themselves. -/
def scanClass (mode : Mode) : (bound : Nat) → (atStart : Bool) → (inner : Bracket) →
    (outer : List Bracket) → List Char → Option (Nat × List Char)
  | 0, _, _, _, _ => none
  | bound + 1, atStart, inner, outer, text =>
    let dash := Atom.character '-' false
    match skip mode.spaced text with
    | [] => none
    | '-' :: rest =>
      if atStart then
        if mode.allowsInClass dash then scanClass mode bound true (inner.add 0) outer rest else none
      else
        match rest with
        | '-' :: rest => scanClass mode bound false inner.operate outer rest
        | rest => do
          let rest ← scanRange mode ('-' :: rest)
          scanClass mode bound false (inner.add 0) outer rest
    | ']' :: rest =>
      if atStart && inner.items.count = 0 then
        if mode.allowsInClass dash then scanClass mode bound false (inner.add 0) outer rest else none
      else
        match outer with
        | [] => some (inner.height + 1, rest)
        | next :: outer => scanClass mode bound false (next.add (inner.height + 1)) outer rest
    | '[' :: rest =>
      match namedClass? rest with
      | some (negated, rest) =>
        if mode.allowsNamedClass negated then scanClass mode bound false (inner.add 0) outer rest
        else none
      | none => do
        let rest ← scanNegation mode rest
        scanClass mode bound true .empty (inner :: outer) rest
    | '&' :: '&' :: rest | '~' :: '~' :: rest => scanClass mode bound false inner.operate outer rest
    | text => do
      let rest ← scanRange mode text
      scanClass mode bound false (inner.add 0) outer rest

end LedgerWire.Pattern

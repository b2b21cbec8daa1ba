import LedgerWire.Text.Pattern.Bracket
import LedgerWire.Text.Word

/-!
Regular expressions: which texts are patterns. Counts in braces and classes by property have no place
in them.
-/

namespace LedgerWire.Pattern

structure Sequence where
  earlier : Pile
  last : Option Nat
  deriving DecidableEq, Repr

namespace Sequence

def empty : Sequence := ⟨.empty, none⟩

def pile (parts : Sequence) : Pile :=
  match parts.last with
  | some height => parts.earlier.add height
  | none => parts.earlier

def add (parts : Sequence) (height : Nat) : Sequence := ⟨parts.pile, some height⟩

def addChange (parts : Sequence) : Sequence := ⟨parts.pile.add 0, none⟩

end Sequence

/-- An open group: the height of its highest finished choice, the choice being read, and the mode
around the group. -/
structure Group where
  choices : Option Nat
  parts : Sequence
  around : Mode
  deriving DecidableEq, Repr

namespace Group

def opened (around : Mode) : Group := ⟨none, .empty, around⟩

def add (group : Group) (height : Nat) : Group := { group with parts := group.parts.add height }

def height (group : Group) : Nat :=
  match group.choices with
  | some highest => max highest group.parts.pile.height + 1
  | none => group.parts.pile.height

def nextChoice (group : Group) : Group :=
  { group with
    choices := some (max (group.choices.getD 0) group.parts.pile.height)
    parts := .empty }

def repeatLast? (group : Group) : Option Group :=
  group.parts.last.map fun height =>
    { group with parts := { group.parts with last := some (height + 1) } }

end Group

def areFlags (flags : List Char) : Bool :=
  flags.all (fun flag => "imsUuRx-".toList.contains flag) && decide flags.Nodup &&
    flags.getLast? ≠ some '-'

def flag? (letter : Char) (flags : List Char) : Option Bool :=
  if (flags.takeWhile (· ≠ '-')).contains letter then some true
  else if flags.contains letter then some false
  else none

def Mode.change (mode : Mode) (flags : List Char) : Mode where
  allScripts := (flag? 'u' flags).getD mode.allScripts
  anyCase := (flag? 'i' flags).getD mode.anyCase
  spaced := (flag? 'x' flags).getD mode.spaced

def isName : List Char → Bool
  | [] => false
  | first :: rest =>
    (first = '_' || Word.isLetter first) &&
      rest.all fun value => ['_', '.', '[', ']'].contains value || Word.isWordChar value

inductive Opening
  | change (mode : Mode)
  | group (mode : Mode) (name : Option (List Char))
  deriving DecidableEq, Repr

def scanName (mode : Mode) (text : List Char) : Option (Opening × List Char) :=
  let name := text.takeWhile (· ≠ '>')
  match text.dropWhile (· ≠ '>') with
  | '>' :: rest => if isName name then some (.group mode (some name), rest) else none
  | _ => none

def scanFlags (mode : Mode) (text : List Char) : Option (Opening × List Char) :=
  let ends := fun value => value ≠ ':' && value ≠ ')'
  let flags := text.takeWhile ends
  if !areFlags flags then none
  else
    match text.dropWhile ends with
    | ':' :: rest => some (.group (mode.change flags) none, rest)
    | ')' :: rest => if flags.isEmpty then none else some (.change (mode.change flags), rest)
    | _ => none

def scanOpening (mode : Mode) (text : List Char) : Option (Opening × List Char) :=
  match skip mode.spaced text with
  | '?' :: 'P' :: '<' :: rest | '?' :: '<' :: rest => scanName mode rest
  | '?' :: rest => scanFlags mode rest
  | rest => some (.group mode none, rest)

def skipLazy : List Char → List Char
  | '?' :: rest => rest
  | text => text

def heightLimit : Nat := 250

/-- Whether the rest of a pattern is well formed; `inner` is the innermost open group, and the last
of `outer` is the whole pattern. Each round takes a character. -/
def isRest : (bound : Nat) → Mode → (names : List (List Char)) → (inner : Group) →
    (outer : List Group) → List Char → Bool
  | 0, _, _, _, _, _ => false
  | bound + 1, mode, names, inner, outer, text =>
    let atom := fun (scanned : Option (Atom × List Char)) =>
      match scanned with
      | some (atom, rest) => mode.allows atom && isRest bound mode names (inner.add 0) outer rest
      | none => false
    match skip mode.spaced text with
    | [] => outer.isEmpty && inner.height ≤ heightLimit
    | '(' :: rest =>
      match scanOpening mode rest with
      | some (.change mode, rest) =>
        isRest bound mode names { inner with parts := inner.parts.addChange } outer rest
      | some (.group own name, rest) =>
        match name with
        | some name =>
          !names.contains name &&
            isRest bound own (name :: names) (.opened mode) (inner :: outer) rest
        | none => isRest bound own names (.opened mode) (inner :: outer) rest
      | none => false
    | ')' :: rest =>
      match outer with
      | [] => false
      | next :: outer => isRest bound inner.around names (next.add (inner.height + 1)) outer rest
    | '|' :: rest => isRest bound mode names inner.nextChoice outer rest
    | '[' :: rest =>
      match scanNegation mode rest with
      | some rest =>
        match scanClass mode (rest.length + 1) true .empty [] rest with
        | some (height, rest) => isRest bound mode names (inner.add height) outer rest
        | none => false
      | none => false
    | '?' :: rest | '*' :: rest | '+' :: rest =>
      match inner.repeatLast? with
      | some inner => isRest bound mode names inner outer (skipLazy rest)
      | none => false
    | '\x7b' :: _ => false
    | '\\' :: rest => atom (scanEscape mode.spaced rest)
    | '.' :: rest => atom (some (.any, rest))
    | '^' :: rest | '$' :: rest => atom (some (.edge, rest))
    | value :: rest => atom (some (.character value false, rest))

end Pattern

def isPattern (text : List Char) : Bool :=
  Pattern.isRest (text.length + 1) .standard [] (.opened .standard) [] text

end LedgerWire

import LedgerWire.Text.Hex
import LedgerWire.Text.Space

/-!
The smallest parts of regular expressions, and the modes in which they are allowed.
-/

namespace LedgerWire.Pattern

/-- How a part of a pattern is meant: of characters of all scripts or of ASCII alone, without regard
to letter case, and with blanks and comments between its parts. -/
structure Mode where
  allScripts : Bool
  anyCase : Bool
  spaced : Bool
  deriving DecidableEq, Repr

def Mode.standard : Mode := ⟨true, false, false⟩

def skipComments (inComment : Bool) : List Char → List Char
  | [] => []
  | value :: rest =>
    if inComment then skipComments (value ≠ '\n') rest
    else if Space.isSpace value then skipComments false rest
    else if value = '#' then skipComments true rest
    else value :: rest

def skip (spaced : Bool) (text : List Char) : List Char :=
  if spaced then skipComments false text else text

inductive Atom
  | character (value : Char) (asByte : Bool)
  | any
  | edge
  | wordEdge
  | shorthand (negated : Bool)
  deriving DecidableEq, Repr

/-- Letter case, words and shorthand classes are known for ASCII alone, and what is meant of ASCII
alone never takes part of a character. -/
def Mode.allows (mode : Mode) : Atom → Bool
  | .character value asByte =>
    if mode.allScripts then !mode.anyCase else !(asByte && 0x80 ≤ value.toNat)
  | .any => mode.allScripts
  | .edge => true
  | .wordEdge => !mode.allScripts
  | .shorthand negated => !mode.allScripts && !negated

def Mode.allowsInClass (mode : Mode) : Atom → Bool
  | .character value _ => if mode.allScripts then !mode.anyCase else value.toNat < 0x80
  | .shorthand negated => !mode.allScripts && !negated
  | .any | .edge | .wordEdge => false

def scanCode (spaced : Bool) (value : Nat) : (count : Nat) → List Char → Option (Nat × List Char)
  | 0, text => some (value, text)
  | _ + 1, [] => none
  | count + 1, digit :: rest => do
    scanCode spaced (value * 16 + (← Hex.charValue? digit)) count (skip spaced rest)

def scanCharacter (spaced asByte : Bool) (count : Nat) (text : List Char) :
    Option (Atom × List Char) := do
  let (code, rest) ← scanCode spaced 0 count (skip spaced text)
  if Nat.isValidChar code then some (.character (Char.ofNat code) asByte, rest) else none

def letterAtom? (letter : Char) : Option Atom :=
  match letter with
  | 'A' | 'z' => some .edge
  | 'b' | 'B' | '<' | '>' => some .wordEdge
  | 'd' | 's' | 'w' => some (.shorthand false)
  | 'D' | 'S' | 'W' => some (.shorthand true)
  | 'a' => some (.character '\x07' false)
  | 'f' => some (.character '\x0c' false)
  | 'n' => some (.character '\n' false)
  | 'r' => some (.character '\r' false)
  | 't' => some (.character '\t' false)
  | 'v' => some (.character '\x0b' false)
  | _ =>
    if letter.toNat < 0x80 && !letter.isAlphanum then some (.character letter false) else none

def scanEscape (spaced : Bool) : List Char → Option (Atom × List Char)
  | [] => none
  | letter :: rest =>
    if letter = 'x' then scanCharacter spaced true 2 rest
    else if letter = 'u' then scanCharacter spaced false 4 rest
    else if letter = 'U' then scanCharacter spaced false 8 rest
    else (letterAtom? letter).map fun atom => (atom, rest)

structure Pile where
  count : Nat
  highest : Nat
  deriving DecidableEq, Repr

def Pile.empty : Pile := ⟨0, 0⟩

def Pile.add (pile : Pile) (height : Nat) : Pile := ⟨pile.count + 1, max pile.highest height⟩

def Pile.height (pile : Pile) : Nat := if 2 ≤ pile.count then pile.highest + 1 else pile.highest

end LedgerWire.Pattern

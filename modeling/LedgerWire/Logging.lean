import LedgerWire.Decimal.Natural
import LedgerWire.Decimal.Real
import LedgerWire.Json.Union
import LedgerWire.Text.Pattern

/-!
Setting up the log of a process. A filter is a list of directives; each names a level, a target, or
both, and may single out spans by name and by fields.
-/

namespace LedgerWire

inductive LogFormat
  | human
  | json
  deriving DecidableEq, Repr

namespace LogFormat

def standard : LogFormat := .human

def name : LogFormat → String
  | .human => "human"
  | .json => "json"

def all : List LogFormat := [.human, .json]

def codec : Json.Codec LogFormat := .names name all

end LogFormat

namespace LogFilter

def isLevelNumber (text : List Char) : Bool :=
  let digits := Decimal.withoutPlus text
  Decimal.isNatural digits && Decimal.valueOf digits ≤ 5

def levelNames : List String := ["", "off", "error", "warn", "info", "debug", "trace"]

def isLevel (text : List Char) : Bool :=
  isLevelNumber text || levelNames.contains (String.ofList (text.map Char.toLower))

def afterSpan (bare : Bool) : List Char → Bool
  | [] => true
  | '=' :: level => bare && isLevel level
  | _ => false

def pieces (separator : Char) : List Char → List (List Char)
  | [] => [[]]
  | value :: rest =>
    if value = separator then [] :: pieces separator rest
    else
      match pieces separator rest with
      | piece :: others => (value :: piece) :: others
      | [] => [[value]]

/-- A field of a span has a name and may have a value, which is a number or a pattern. Nothing is
asked of a name, and a second equals sign ends the value. -/
def isField (text : List Char) : Bool :=
  match pieces '=' text with
  | _ :: value :: _ => Decimal.isReal value || isPattern value
  | _ => true

def slice (start size : Nat) (text : List Char) : List Char :=
  (Utf8.decodeLenient (((Utf8.encodeChars text).drop start).take size)).toList

def byteSize (text : List Char) : Nat := (Utf8.encodeChars text).length

/-- A directive with the blanks around it and without them. A field is found in the body, and taken
from the same bytes of the whole. -/
structure Directive where
  whole : List Char
  body : List Char
  deriving DecidableEq, Repr

namespace Directive

def of (whole : List Char) : Directive := ⟨whole, Space.trim whole⟩

def isBare (directive : Directive) : Bool := directive.body.length = directive.whole.length

def inField (directive : Directive) (text : List Char) : Bool :=
  let field := text.takeWhile (· ≠ '\x7d')
  match text.dropWhile (· ≠ '\x7d') with
  | '\x7d' :: ']' :: rest =>
    let start := byteSize directive.body - byteSize text
    !field.isEmpty && isField (slice start (byteSize field) directive.whole) &&
      afterSpan directive.isBare rest
  | _ => false

def inSpan (directive : Directive) : List Char → Bool
  | [] => false
  | ']' :: rest => afterSpan directive.isBare rest
  | '\x7b' :: rest => directive.inField rest
  | _ :: rest => directive.inSpan rest

def inTarget (directive : Directive) : List Char → Bool
  | [] => true
  | '=' :: level => directive.isBare && isLevel level
  | '[' :: rest => directive.inSpan rest
  | _ :: rest => directive.inTarget rest

def mayStart (first : Char) : Bool :=
  first = '-' || first = ':' || first = '_' || Word.isWordChar first

def isValid (directive : Directive) : Bool :=
  match directive.body with
  | [] => false
  | '[' :: rest => directive.inSpan rest
  | first :: _ => mayStart first && directive.inTarget directive.body

end Directive

def isFilter (text : String) : Bool :=
  (pieces ',' text.toList).all fun piece => piece.isEmpty || (Directive.of piece).isValid

end LogFilter

inductive LoggingFault
  | invalidFilter (filter : String)
  | alreadyInstalled
  deriving DecidableEq, Repr

def LoggingFault.installMessage : String :=
  "failed to install tracing subscriber: a global default trace dispatcher has already been set"

/-- Installs a log in a process that has one. A valid filter in the environment takes the place of
the level, and an invalid one counts for nothing. -/
def initLogging (_ : LogFormat) (level : String) (environment : Option String) :
    Except LoggingFault Unit :=
  let overridden := match environment with
    | some filter => LogFilter.isFilter filter
    | none => false
  if overridden || LogFilter.isFilter level then .error .alreadyInstalled
  else .error (.invalidFilter level)

end LedgerWire

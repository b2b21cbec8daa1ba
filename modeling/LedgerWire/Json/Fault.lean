import LedgerWire.Decimal.Natural
import LedgerWire.Json.Value
import LedgerWire.Text.Quoted

/-!
Why a JSON text is refused: it ends too early, it is malformed, or it is well formed and its values
do not fit the type that is wanted.
-/

namespace LedgerWire.Json

inductive Found
  | null
  | boolean (value : Bool)
  | number (value : Number)
  | text (value : String)
  | list
  | record

inductive Mismatch
  | wrongType (found : Found) (expected : String)
  | wrongValue (found : Found) (expected : String)
  | withoutContent (expected : String)
  | wrongLength (length : Nat) (expected : String)
  | missingField (key : String)
  | repeatedField (key : String)
  | unknownName (name : String) (known : List String)
  | refused (reason : String)

inductive Fault
  | endOfInput
  | malformed
  | mismatch (cause : Mismatch)

def Found.description : Found → String
  | .null => "null"
  | .boolean value => "boolean `" ++ (if value then "true" else "false") ++ "`"
  | .number (.whole value fits) => "integer `" ++ Ascii.text (Number.whole value fits).bytes ++ "`"
  | .number (.float value) => "floating point `" ++ Ascii.text (Number.float value).bytes ++ "`"
  | .text value => "string " ++ Quoted.quoteText value
  | .list => "sequence"
  | .record => "map"

def orText : List String → String
  | [] => ""
  | [only] => "`" ++ only ++ "`"
  | [left, right] => "`" ++ left ++ "` or `" ++ right ++ "`"
  | names => "one of " ++ ", ".intercalate (names.map fun name => "`" ++ name ++ "`")

def splitNumber? (text : List Char) : Option (List Char) :=
  let reversed := text.reverse
  let digits := (reversed.takeWhile Char.isDigit).reverse
  if digits.isEmpty || 0x10000000000000000 ≤ Decimal.valueOf digits then none
  else some (reversed.dropWhile Char.isDigit).reverse

def dropEnd? (ending text : List Char) : Option (List Char) :=
  if ending.isSuffixOf text then some (text.take (text.length - ending.length)) else none

/-- A reason is shown without a position in a text at its end, which is taken for the place of the
fault and not for a part of its wording. -/
def withoutPosition (reason : String) : String :=
  let text := reason.toList
  let shorter := do
    let text ← splitNumber? text
    let text ← dropEnd? " column ".toList text
    let text ← splitNumber? text
    dropEnd? " at line ".toList text
  match shorter with
  | some text => String.ofList text
  | none => reason

def Mismatch.message : Mismatch → String
  | .wrongType found expected => "invalid type: " ++ found.description ++ ", expected " ++ expected
  | .wrongValue found expected => "invalid value: " ++ found.description ++ ", expected " ++ expected
  | .withoutContent expected => "invalid type: unit variant, expected " ++ expected
  | .wrongLength length expected => "invalid length " ++ toString length ++ ", expected " ++ expected
  | .missingField key => "missing field `" ++ key ++ "`"
  | .repeatedField key => "duplicate field `" ++ key ++ "`"
  | .unknownName name known => "unknown variant `" ++ name ++ "`, expected " ++ orText known
  | .refused reason => withoutPosition reason

end LedgerWire.Json

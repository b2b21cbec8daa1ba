import LedgerWire.Identifier
import LedgerWire.Payload

/-!
Why a wire value cannot be decoded.
-/

namespace LedgerWire

inductive DecodeFault
  | identifier (fault : Identifier.Fault)
  | payload (fault : Base64.Fault)
  | unrecognizedShape (preview : String)
  | emptyUnion
  | armCount (populated : Nat)
  | json (fault : Json.Fault)

def armCountMessage (populated : Nat) : String :=
  "transaction kind must have exactly one variant populated, found " ++ toString populated

/-- A fault of the JSON text has words of its own only where the text is well formed. -/
def DecodeFault.message : DecodeFault → Option String
  | .identifier fault => some fault.message
  | .payload fault => some (Payload.faultMessage fault)
  | .unrecognizedShape preview => some ("value is neither a JSON string nor a JSON object: " ++ preview)
  | .emptyUnion => some "union has no arm set"
  | .armCount populated => some (armCountMessage populated)
  | .json (.mismatch cause) => some cause.message
  | .json .endOfInput | .json .malformed => none

def asDecoded {α : Type} : Except Json.Fault α → Except DecodeFault α := Except.mapError DecodeFault.json

end LedgerWire

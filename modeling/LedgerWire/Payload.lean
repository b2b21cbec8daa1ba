import LedgerWire.Json.Codec
import LedgerWire.Text.Base64

/-!
Byte strings of any length, such as digests and compiled modules, which travel as base-64 text.
-/

namespace LedgerWire

structure Payload where
  bytes : Bytes
  deriving DecidableEq

namespace Payload

def faultMessage (fault : Base64.Fault) : String := "invalid base64 data: " ++ fault.message

def ofText (text : String) : Except Base64.Fault Payload :=
  (Base64.decode (Utf8.encode text)).map Payload.mk

def text (payload : Payload) : String := Ascii.text (Base64.encode payload.bytes)

def labelledText (payload : Payload) : String := "Base64Data(" ++ payload.text ++ ")"

def size (payload : Payload) : Nat := payload.bytes.length

def codec : Json.Codec Payload :=
  .ofString "a base64 string" text fun text => (ofText text).mapError faultMessage

end Payload

end LedgerWire

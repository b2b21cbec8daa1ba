import LedgerWire.Identifier
import LedgerWire.Json.Record

/-!
Modules of published packages.
-/

namespace LedgerWire

structure ModuleName where
  package : ObjectId
  name : String
  deriving DecidableEq

namespace ModuleName

open Json

def text (module : ModuleName) : String := module.package.shortText ++ "::" ++ module.name

def fields : Fields ModuleName :=
  (Fields.both (.required "package" Address.codec) (.required "module" .string)).as
    (fun (package, name) => ⟨package, name⟩) (fun module => (module.package, module.name))

def codec : Codec ModuleName := .record "struct MoveModule" fields

end ModuleName

end LedgerWire

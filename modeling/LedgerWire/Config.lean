import LedgerWire.Identifier
import LedgerWire.Logging
import LedgerWire.Network
import LedgerWire.Toml.Document
import LedgerWire.Toml.Writer

/-!
Settings of a client: which network it talks to and where, the coin that pays for gas, and the log.
They are kept as TOML text.
-/

namespace LedgerWire

open Json

structure ClientConfig where
  network : Network
  url : Option String
  coinType : String
  logFormat : LogFormat
  logLevel : String
  deriving DecidableEq

inductive ConfigFault
  | notHttp (url : String)
  | notAPath (coinType : String)
  | emptyPart (coinType : String)
  | package (fault : Identifier.Fault)
  | unreadable
  | noSuchFile
  | notText

/-- A fault of the TOML text itself has no words here. -/
def ConfigFault.message : ConfigFault → Option String
  | .notHttp url => some ("config error: rpc_url must be http(s): " ++ url)
  | .notAPath coinType =>
    some ("config error: coin_type must look like <package>::<module>::<name>: " ++ coinType)
  | .emptyPart coinType =>
    some ("config error: coin_type has an empty module or name: " ++ coinType)
  | .package fault => some ("config error: coin_type package: " ++ fault.message)
  | .unreadable => none
  | .noSuchFile => some "config error: No such file or directory (os error 2)"
  | .notText => some "config error: stream did not contain valid UTF-8"

namespace ClientConfig

def standardLevel : String := "info"

def standard : ClientConfig := ⟨.standard, none, nativeCoinType, .standard, standardLevel⟩

def fields : Fields ClientConfig :=
  (Fields.both (.withDefault "network" Network.codec .standard)
    (.both (.optional "rpc_url" .string)
      (.both (.withDefault "coin_type" .string nativeCoinType)
        (.both (.withDefault "log_format" LogFormat.codec .standard)
          (.withDefault "log_level" .string standardLevel))))).as
  (fun (network, url, coinType, logFormat, logLevel) =>
    ⟨network, url, coinType, logFormat, logLevel⟩)
  (fun config =>
    (config.network, config.url, config.coinType, config.logFormat, config.logLevel))

def codec : Codec ClientConfig := .record "struct ClientConfig" fields

def endpoint (config : ClientConfig) : String := config.url.getD config.network.url

def pathParts : List Char → List (List Char)
  | [] => [[]]
  | ':' :: ':' :: rest => [] :: pathParts rest
  | value :: rest =>
    match pathParts rest with
    | part :: parts => (value :: part) :: parts
    | [] => [[value]]

def isHttp (url : String) : Bool :=
  "http://".toList.isPrefixOf url.toList || "https://".toList.isPrefixOf url.toList

def checkUrl (url : Option String) : Except ConfigFault Unit :=
  match url with
  | none => .ok ()
  | some url => if isHttp url then .ok () else .error (.notHttp url)

def checkCoinType (coinType : String) : Except ConfigFault Unit :=
  match pathParts coinType.toList with
  | [package, module, name] =>
    if module.isEmpty || name.isEmpty then .error (.emptyPart coinType)
    else
      match (Identifier.ofHex (String.ofList package) : Except Identifier.Fault Address) with
      | .ok _ => .ok ()
      | .error fault => .error (.package fault)
  | _ => .error (.notAPath coinType)

def check (config : ClientConfig) : Except ConfigFault Unit := do
  checkUrl config.url
  checkCoinType config.coinType

/-- A name, given as text or as the only key of a table with nothing under it. -/
def nameOf? : Toml.Node → Option String
  | .text name => some name
  | .table _ [(name, .list [])] | .table _ [(name, .table _ [])] => some name
  | _ => none

def textOf? : Toml.Node → Option String
  | .text text => some text
  | _ => none

def setting {α : Type} (key : String) (fit : Toml.Node → Option α) (fallback : α)
    (entries : Toml.Entries) : Option α :=
  match Toml.find? key entries with
  | some node => fit node
  | none => some fallback

/-- Keys that are no settings are passed over. -/
def ofEntries? (entries : Toml.Entries) : Option ClientConfig := do
  let network ← setting "network"
    (fun node => do
      let name ← nameOf? node
      Network.all.find? fun network => network.name = name) .standard entries
  let url ← setting "rpc_url" (fun node => (textOf? node).map some) none entries
  let coinType ← setting "coin_type" textOf? nativeCoinType entries
  let logFormat ← setting "log_format"
    (fun node => do
      let name ← nameOf? node
      LogFormat.all.find? fun format => format.name = name) .standard entries
  let logLevel ← setting "log_level" textOf? standardLevel entries
  some ⟨network, url, coinType, logFormat, logLevel⟩

def ofToml (text : String) : Except ConfigFault ClientConfig := do
  match (Toml.read text).bind ofEntries? with
  | none => .error .unreadable
  | some config =>
    config.check
    .ok config

def ofFile (content : Option Bytes) : Except ConfigFault ClientConfig :=
  match content with
  | none => .error .noSuchFile
  | some bytes =>
    match Utf8.decode bytes with
    | .ok text => ofToml text
    | .error _ => .error .notText

def toToml (config : ClientConfig) : String :=
  Toml.writeEntry "network" config.network.name ++
    (match config.url with
      | some url => Toml.writeEntry "rpc_url" url
      | none => "") ++
    Toml.writeEntry "coin_type" config.coinType ++
    Toml.writeEntry "log_format" config.logFormat.name ++
    Toml.writeEntry "log_level" config.logLevel

def initLogging (config : ClientConfig) (environment : Option String) : Except LoggingFault Unit :=
  LedgerWire.initLogging config.logFormat config.logLevel environment

end ClientConfig

end LedgerWire

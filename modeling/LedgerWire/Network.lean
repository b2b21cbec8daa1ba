import LedgerWire.Json.Union

/-!
The public networks and where they answer.
-/

namespace LedgerWire

open Json

def nativeCoinType : String := "0x2::sui::SUI"
def devnetUrl : String := "https://fullnode.devnet.sui.io"
def testnetUrl : String := "https://fullnode.testnet.sui.io"

inductive Network
  | devnet
  | testnet
  deriving DecidableEq, Repr

namespace Network

def standard : Network := .devnet

def url : Network → String
  | .devnet => devnetUrl
  | .testnet => testnetUrl

def name : Network → String
  | .devnet => "devnet"
  | .testnet => "testnet"

def all : List Network := [.devnet, .testnet]

def codec : Codec Network := .names name all

end Network

end LedgerWire

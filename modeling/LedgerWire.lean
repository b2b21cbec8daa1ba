import LedgerWire.Boundary
import LedgerWire.Proofs.Wire.OwnerShape
import LedgerWire.Proofs.Wire.RepeatedKey
import LedgerWire.Proofs.Wire.RoundTrip
import LedgerWire.WireType
import LedgerWire.Proofs.Json.Distinct
import LedgerWire.Proofs.Json.Shrink
import LedgerWire.Proofs.Wire.ArmCount
import LedgerWire.Proofs.Wire.Reencoding
import LedgerWire.Proofs.Wire.Validation
import LedgerWire.Proofs.Toml.Lines
import LedgerWire.Proofs.Config
import LedgerWire.Proofs.Identifier
import LedgerWire.Proofs.Wire.Requirements
import LedgerWire.Proofs.Wire.Misspelt
import LedgerWire.Proofs.Identifier.LooseEquality
import LedgerWire.Proofs.Json.Portable
import LedgerWire.Proofs.Json.Members
import LedgerWire.Proofs.Wire.MemberOrder
import LedgerWire.Proofs.Wire.CounterFields
import LedgerWire.Proofs.Wire.AddressForms
import LedgerWire.Proofs.Wire.SingleField
import LedgerWire.Proofs.Wire.OwnerDraft
import LedgerWire.Proofs.Payload
import LedgerWire.Proofs.Wire.OwnerFirstByte
import LedgerWire.Proofs.Identifier.Order
import LedgerWire.Proofs.Config.CoinType
import LedgerWire.Proofs.Wire.OwnerSource
import LedgerWire.Proofs.Wire.FaultOrder
import LedgerWire.Proofs.Wire.BoundaryLog
import LedgerWire.Proofs.Operation.Target

import LedgerWire.Json.Record

/-!
Spans of milliseconds, from a start up to but without an end.
-/

namespace LedgerWire

structure TimeRange where
  start : UInt64
  stop : UInt64
  deriving DecidableEq

namespace TimeRange

open Json

def contains (range : TimeRange) (time : UInt64) : Bool := range.start ≤ time && time < range.stop

def isEmpty (range : TimeRange) : Bool := range.stop ≤ range.start

/-- A range that ends before it starts lasts no time. -/
def duration (range : TimeRange) : Nat := range.stop.toNat - range.start.toNat

def fields : Fields TimeRange :=
  (Fields.both (.required "startTime" .natural) (.required "endTime" .natural)).as
    (fun (start, stop) => ⟨start, stop⟩) (fun range => (range.start, range.stop))

def codec : Codec TimeRange := .record "struct TimeRange" fields

end TimeRange

end LedgerWire

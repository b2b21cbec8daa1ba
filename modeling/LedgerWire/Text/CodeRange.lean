/-!
Sets of characters as ranges of code points.
-/

namespace LedgerWire.CodeRange

def holds (ranges : List (Nat × Nat)) (value : Char) : Bool :=
  ranges.any fun (low, high) => low ≤ value.toNat && value.toNat ≤ high

end LedgerWire.CodeRange
